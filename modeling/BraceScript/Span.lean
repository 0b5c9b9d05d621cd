-- Stretches of a source text, by byte offsets into its UTF-8 form.

namespace BraceScript

/-- The bytes from `start` up to `stop`, which is not included. -/
structure Span where
  start : Nat
  stop : Nat
deriving DecidableEq, Repr, Inhabited

namespace Span

/-- The empty span at an offset. -/
def point (offset : Nat) : Span := ⟨offset, offset⟩

/-- The largest offset that a span can hold. -/
def limit : Nat := 4294967295

/-- An offset as a span holds it: what lies beyond the limit is moved to it. -/
def hold (offset : Nat) : Nat := min offset limit

/-- The span of a range of bytes, with both ends as a span holds them. -/
def clamped (start stop : Nat) : Span := ⟨hold start, hold stop⟩

def length (s : Span) : Nat := s.stop - s.start

def isEmpty (s : Span) : Bool := s.stop ≤ s.start

/-- The smallest span that covers both. -/
def merge (a b : Span) : Span := ⟨min a.start b.start, max a.stop b.stop⟩

/-- The written form, `start..stop`. -/
def write (s : Span) : String := s!"{s.start}..{s.stop}"

theorem hold_of_le {offset : Nat} (h : offset ≤ limit) : hold offset = offset := Nat.min_eq_left h

theorem hold_of_limit_le {offset : Nat} (h : limit ≤ offset) : hold offset = limit :=
  Nat.min_eq_right h

theorem hold_le (offset : Nat) : hold offset ≤ limit := Nat.min_le_right _ _

/-- Going on from where a held offset is comes to what is held in the end. -/
theorem hold_hold_add (offset n : Nat) : hold (hold offset + n) = hold (offset + n) := by
  simp only [hold]
  omega

@[simp] theorem length_point (offset : Nat) : (point offset).length = 0 := by simp [point, length]

theorem merge_comm (a b : Span) : a.merge b = b.merge a := by
  simp [merge, Nat.min_comm, Nat.max_comm]

end Span

/-- The number of bytes of the UTF-8 form of some characters. -/
def byteLength (cs : List Char) : Nat :=
  cs.foldl (fun n c => n + c.utf8Size) 0

theorem foldl_utf8Size (cs : List Char) (n : Nat) :
    cs.foldl (fun n c => n + c.utf8Size) n = n + byteLength cs := by
  induction cs generalizing n with
  | nil => simp [byteLength]
  | cons c cs ih => simp only [byteLength, List.foldl_cons] at *; rw [ih, ih (0 + _)]; omega

@[simp] theorem byteLength_nil : byteLength [] = 0 := rfl

@[simp] theorem byteLength_cons (c : Char) (cs : List Char) :
    byteLength (c :: cs) = c.utf8Size + byteLength cs := by
  rw [byteLength, List.foldl_cons, foldl_utf8Size]; omega

@[simp] theorem byteLength_append (a b : List Char) :
    byteLength (a ++ b) = byteLength a + byteLength b := by
  induction a with
  | nil => simp
  | cons c a ih => simp [ih]; omega

theorem byteLength_replicate (n : Nat) (c : Char) :
    byteLength (List.replicate n c) = n * c.utf8Size := by
  induction n with
  | zero => simp
  | succ n ih => rw [List.replicate_succ, byteLength_cons, ih, Nat.succ_mul, Nat.add_comm]

/-- The bytes of a text are those of its characters. -/
theorem byteLength_toList (s : String) : byteLength s.toList = s.utf8ByteSize := by
  have ofList (cs : List Char) : byteLength cs = (String.ofList cs).utf8ByteSize := by
    induction cs with
    | nil => simp
    | cons c cs ih =>
      have parts : String.ofList (c :: cs) = String.singleton c ++ String.ofList cs := by
        rw [String.singleton_eq_ofList, ← String.ofList_append]
        rfl
      rw [byteLength_cons, ih, parts, String.utf8ByteSize_append, String.utf8ByteSize_singleton]
  rw [ofList, String.ofList_toList]

theorem byteLength_pos {cs : List Char} (h : cs ≠ []) : 0 < byteLength cs := by
  cases cs with
  | nil => exact absurd rfl h
  | cons c cs => have := c.utf8Size_pos; simp; omega

end BraceScript
