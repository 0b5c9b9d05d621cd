-- Ranges of bytes and the spans that hold them. Reading tokens does not look at
-- their offsets, so the program of a text with its spans is the one with its
-- ranges, but that each offset is held as a span holds it. In a text that is
-- short enough these are the same.
import BraceScript.Proofs.Grammar.Alike
import BraceScript.Proofs.Grammar.Rows
import BraceScript.Proofs.Scan

namespace BraceScript

open Grammar

variable {source text : String} {ts us : List Token} {ss ss' : List Stmt} {n : Nat}

/-! ## Programs -/

/-- These are the statements of the text, each with its range of bytes in place of a span. -/
def ProgramAt (source : String) (ss : List Stmt) : Prop :=
  ∃ ts, TokensAt source ts ∧ Program true ts ss

theorem exists_program_of_kinds (h : Program true ts ss)
    (kinds : ts.map Token.kind = us.map Token.kind) : ∃ ss', Program true us ss' := by
  have same := sameProgram_parseTokens kinds (@Ending.Alike.complete 0 0)
  rw [parseTokens_complete 0 h] at same
  generalize read : parseTokens us (.complete 0) = parsed at same
  cases same with
  | ok => exact ⟨_, (parseTokens_sound read).2⟩

theorem ProgramAt.unique (h : ProgramAt source ss) (h' : ProgramAt source ss') : ss = ss' := by
  obtain ⟨ts, hts, hss⟩ := h
  obtain ⟨us, hus, hss'⟩ := h'
  obtain rfl := hts.unique hus
  exact program_unique hss hss'

theorem ProgramAt.parse_eq (h : ProgramAt source ss) :
    parse source = .ok (ss.map (Stmt.move Span.hold)) := by
  obtain ⟨ts, hts, hss⟩ := h
  exact (parse_eq_ok_iff _ _).2 ⟨_, hts.tokens_eq, hss.move keepsOrder_hold⟩

theorem programAt_of_parse (h : parse source = .ok ss) :
    ∃ ss', ProgramAt source ss' ∧ ss = ss'.map (Stmt.move Span.hold) := by
  obtain ⟨ts, hts, hss⟩ := (parse_eq_ok_iff _ _).1 h
  obtain ⟨us, found, rfl⟩ := tokensAt_of_tokens hts
  obtain ⟨ss', hss'⟩ := exists_program_of_kinds hss (map_kind_move Span.hold us)
  exact ⟨ss', ⟨us, found, hss'⟩, program_unique hss (hss'.move keepsOrder_hold)⟩

/-- The spans of a short text are its ranges of bytes. -/
theorem parse_eq_ok_iff_programAt (short : source.utf8ByteSize ≤ Span.limit) :
    parse source = .ok ss ↔ ProgramAt source ss := by
  simp only [parse_eq_ok_iff, tokens_eq_ok_iff, scan_of_le short, ProgramAt, TokensAt]

/-- What is moved and then held need not be held before. -/
theorem hold_moved (ss : List Stmt) (n : Nat) :
    (ss.map (Stmt.move (· + n))).map (Stmt.move Span.hold) =
      (ss.map (Stmt.move Span.hold)).map (Stmt.move fun offset => Span.hold (offset + n)) := by
  have same : Span.hold ∘ (· + n) = (fun offset => Span.hold (offset + n)) ∘ Span.hold :=
    funext fun offset => (Span.hold_hold_add offset n).symm
  rw [List.map_map, List.map_map]
  refine List.map_congr_left fun s _ => ?_
  rw [Function.comp_apply, Function.comp_apply, Stmt.move_move, Stmt.move_move, same]

/-! ## Beyond the limit -/

/-- The text with blanks in front of it. -/
def indented (n : Nat) (text : String) : String :=
  String.ofList (List.replicate n ' ' ++ text.toList)

theorem utf8ByteSize_indented (n : Nat) (text : String) :
    (indented n text).utf8ByteSize = n + text.utf8ByteSize := by
  have blanks : byteLength (List.replicate n ' ') = n := by
    rw [byteLength_replicate]
    exact Nat.mul_one n
  rw [← byteLength_toList, indented, String.toList_ofList, byteLength_append, blanks,
    byteLength_toList]

theorem scanFrom_indented (n : Nat) (text : String) :
    scanFrom 0 (indented n text).toList = (scanFrom 0 text.toList).map (Item.move (· + n)) := by
  have fillers : ∀ c ∈ List.replicate n ' ', isFiller c = true := fun c hc => by
    rw [(List.mem_replicate.1 hc).2]
    rfl
  have size := utf8ByteSize_indented n ""
  rw [← byteLength_toList, indented, String.toList_ofList, String.toList_empty, List.append_nil,
    String.utf8ByteSize_empty, Nat.add_zero] at size
  rw [indented, String.toList_ofList, scanFrom_fillers 0 fillers, size, scanFrom_add]

/-- All that begins at the limit or behind it has the empty span at the limit. -/
theorem scan_indented (beyond : Span.limit ≤ n) (text : String) :
    scan (indented n text) = (scan text).map (Item.move fun _ => Span.limit) := by
  have held (offset : Nat) : Span.hold (offset + n) = Span.limit :=
    Span.hold_of_limit_le (by omega)
  rw [scan_eq_map, scan_eq_map, scanFrom_indented, List.map_map, List.map_map]
  refine List.map_congr_left fun item _ => ?_
  cases item <;> simp [Item.move, Token.move, Span.move, held]

theorem tokens_indented (beyond : Span.limit ≤ n) (h : tokens text = .ok ts) :
    tokens (indented n text) = .ok (ts.map (Token.move fun _ => Span.limit)) := by
  rw [tokens_eq_ok_iff, scan_indented beyond, tokens_eq_ok_iff.1 h, List.map_map, List.map_map]
  rfl

theorem parse_indented (beyond : Span.limit ≤ n) (h : parse text = .ok ss) :
    parse (indented n text) = .ok (ss.map (Stmt.move fun _ => Span.limit)) := by
  obtain ⟨ts, hts, hss⟩ := (parse_eq_ok_iff _ _).1 h
  exact (parse_eq_ok_iff _ _).2 ⟨_, tokens_indented beyond hts, hss.move fun _ _ _ => Nat.le_refl _⟩

end BraceScript
