-- Texts in documents: whatever characters a text has, its escapes are read
-- back as these characters.
import BraceScript.Proofs.Json.Lexemes
import Mathlib

namespace BraceScript.Json

/-! ## Characters -/

theorem hexValue?_digitChar {d : ℕ} (small : d < 16) : hexValue? (Nat.digitChar d) = some d := by
  decide +revert

theorem hex_byte {n : ℕ} (small : n < 256) :
    Hex ['0', '0', Nat.digitChar (n / 16), Nat.digitChar (n % 16)] n := by
  have zero : hexValue? '0' = some 0 := rfl
  have hex := Hex.of zero zero (hexValue?_digitChar (show n / 16 < 16 by omega))
    (hexValue?_digitChar (show n % 16 < 16 by omega))
  have number : ((0 * 16 + 0) * 16 + n / 16) * 16 + n % 16 = n := by omega
  rwa [number] at hex

/-- What is written for a character spells it. -/
theorem spelled_escaped (c : Char) : Spelled (escaped c).toList c := by
  have char {d : Char} (h : (c == d) = true) : c = d := by simpa using h
  have number {k : ℕ} (h : (c.toNat == k) = true) : c = Char.ofNat k := by
    rw [← Char.ofNat_toNat c]
    congr 1
    simpa using h
  unfold escaped
  iterate 5
    split
    · next h =>
      obtain rfl := char h
      exact .escape (by decide)
  iterate 2
    split
    · next h =>
      obtain rfl := number h
      exact .escape (by decide)
  split
  · next small =>
    have spelled := Spelled.number (hex_byte (show c.toNat < 256 by omega)) (.inl (by omega))
    rw [Char.ofNat_toNat] at spelled
    simpa using spelled
  · next quote backslash _ _ _ _ _ large =>
    have spelled : Spelled [c] c :=
      .itself (by omega) (by simpa using quote) (by simpa using backslash)
    simpa using spelled

/-! ## Texts -/

/-- The characters of a text as they are written. -/
def escapedChars (cs : List Char) : List Char := cs.flatMap fun c => (escaped c).toList

theorem spelling_escapedChars (cs : List Char) : Spelling (escapedChars cs) cs := by
  induction cs with
  | nil => exact .nil
  | cons c cs ih => exact .cons (spelled_escaped c) ih

theorem toList_foldl_escaped (cs : List Char) (out : String) :
    (cs.foldl (fun out c => out ++ escaped c) out).toList = out.toList ++ escapedChars cs := by
  induction cs generalizing out with
  | nil => exact (List.append_nil _).symm
  | cons c cs ih => rw [List.foldl_cons, ih, String.toList_append, List.append_assoc]; rfl

theorem toList_textOnto (out s : String) :
    (textOnto out s).toList = out.toList ++ '"' :: (escapedChars s.toList ++ ['"']) := by
  rw [textOnto, String.foldl_eq_foldl_toList, String.toList_append, toList_foldl_escaped,
    String.toList_append]
  simp

end BraceScript.Json
