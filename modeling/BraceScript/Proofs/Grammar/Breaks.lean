-- A program can be cut at a line break that stands outside of its statements:
-- what stands before the break is a program by itself, and so is what stands
-- behind it. The other way round, two programs with a line break between them
-- are one program.
import BraceScript.Proofs.Grammar.Ranges

namespace BraceScript

open Grammar

/-- The offset stands outside of the statements. -/
def Outside (ss : List Stmt) (offset : Nat) : Prop :=
  ∀ s ∈ ss, offset < s.span.start ∨ s.span.stop ≤ offset

instance (ss : List Stmt) (offset : Nat) : Decidable (Outside ss offset) :=
  inferInstanceAs (Decidable (∀ s ∈ ss, offset < s.span.start ∨ s.span.stop ≤ offset))

variable {source : String} {a b : List Char} {ts : List Token} {ss : List Stmt}

theorem TokensAt.ordered (h : TokensAt source ts) :
    (∀ t ∈ ts, t.span.start ≤ t.span.stop) ∧ ts.Pairwise fun t u => t.span.stop ≤ u.span.start := by
  constructor
  · intro t ht
    exact start_le_stop_of_mem_scanFrom (h.mem ht)
  · have row := scanFrom_ordered 0 source.toList
    rw [h, List.pairwise_map] at row
    exact row

/-- At a line break outside of all statements no text in quotes is open. -/
theorem scanFrom_break_outside (program : ProgramAt source ss)
    (h : source.toList = a ++ '\n' :: b) (outside : Outside ss (byteLength a)) (c : List Char) :
    scanFrom 0 (a ++ '\n' :: c) = scanFrom 0 a ++ scanFrom (byteLength a + 1) c := by
  rcases scanFrom_break 0 a with apart |
    ⟨before, quote, inside, items, rfl, hquote, open_, -, -, hscan⟩
  · simpa using apart c
  · obtain ⟨ts, hts, hss⟩ := program
    obtain ⟨ordered, row⟩ := hts.ordered
    obtain ⟨item, hitem, start⟩ :=
      exists_item_of_isQuote (0 + byteLength before) hquote (inside ++ '\n' :: b)
    have stop := stop_of_mem_open hquote open_ hitem
    have listed : item ∈ ts.map Item.token := by
      rw [← hts, h, hscan]
      exact List.mem_append_right _ hitem
    obtain ⟨t, ht, rfl⟩ := List.mem_map.1 listed
    have apart := DerivesStmt.tokens_apart ordered row outside hss t ht
    simp only [Item.span, byteLength_append] at start stop apart
    omega

/-- The tokens of a text that stands further to the right are those of the text, moved. -/
theorem tokens_behind {n : Nat} {vs : List Token} (h : vs.map .token = scanFrom n b) :
    ∃ ws, TokensAt (String.ofList b) ws ∧ vs = ws.map (Token.move (· + n)) := by
  have moved := scanFrom_add 0 n b
  rw [Nat.zero_add] at moved
  rw [moved] at h
  obtain ⟨ws, hws, rfl⟩ := tokens_of_move h
  exact ⟨ws, by rw [TokensAt, String.toList_ofList, hws], rfl⟩

/-- The two parts of a program are programs by themselves, and the later one stands as far to
the right as the earlier one is long. -/
theorem ProgramAt.split_break (program : ProgramAt source ss)
    (h : source.toList = a ++ '\n' :: b) (outside : Outside ss (byteLength a)) :
    ∃ ss₁ ss₂, ProgramAt (String.ofList (a ++ ['\n'])) ss₁ ∧ ProgramAt (String.ofList b) ss₂ ∧
      ss = ss₁ ++ ss₂.map (Stmt.move (· + (byteLength a + 1))) := by
  have scanned := scanFrom_break_outside program h outside
  obtain ⟨ts, hts, hss⟩ := program
  have items := hts
  rw [TokensAt, h, scanned] at items
  obtain ⟨us, vs, rfl, left, right⟩ := List.map_eq_append_iff.1 items.symm
  obtain ⟨ws, hws, rfl⟩ := tokens_behind right
  obtain ⟨ordered, row⟩ := hts.ordered
  have before : ∀ t ∈ us, t.span.stop ≤ byteLength a := by
    intro t ht
    have mem : .token t ∈ scanFrom 0 a := left ▸ List.mem_map_of_mem ht
    simpa [Item.span] using stop_of_mem_scanFrom mem
  have after : ∀ t ∈ ws.map (Token.move (· + (byteLength a + 1))), byteLength a < t.span.start := by
    intro t ht
    exact start_of_mem_scanFrom (right ▸ List.mem_map_of_mem ht)
  obtain ⟨ss₁, ss₂, rfl, h₁, h₂⟩ := hss.split ordered row before after outside
  have program₁ : Program true us ss₁ := h₁.followedBy endsStmt_none
  have program₂ := h₂.move (keepsOrder_sub (byteLength a + 1))
  rw [map_move_back] at program₂
  refine ⟨ss₁, ss₂.map (Stmt.move (· - (byteLength a + 1))), ?_, ?_, ?_⟩
  · refine ⟨us, ?_, program₁⟩
    rw [TokensAt, String.toList_ofList, scanned, left]
    simp [scanFrom]
  · exact ⟨ws, hws, program₂⟩
  · exact congrArg (ss₁ ++ ·)
      (program_unique h₂ (program₂.move (keepsOrder_add (byteLength a + 1))))

/-- At a line break behind a text without mistakes no text in quotes is open. -/
theorem TokensAt.scanFrom_break (h : TokensAt source ts) (c : List Char) :
    scanFrom 0 (source.toList ++ '\n' :: c) =
      ts.map .token ++ (scanFrom 0 c).map (Item.move (· + (source.utf8ByteSize + 1))) := by
  rcases BraceScript.scanFrom_break 0 source.toList with apart |
    ⟨-, -, -, -, -, -, -, ⟨e, he⟩, -, -⟩
  · rw [apart, byteLength_toList, Nat.add_assoc, scanFrom_add, h]
  · rw [h] at he
    simp at he

/-- Two programs with a line break between them are one program, and the later one stands as far
to the right as the earlier one and the break are long. -/
theorem ProgramAt.join {source₁ source₂ : String} {ss₁ ss₂ : List Stmt}
    (program₁ : ProgramAt source₁ ss₁) (program₂ : ProgramAt source₂ ss₂) :
    ProgramAt (source₁ ++ "\n" ++ source₂)
      (ss₁ ++ ss₂.map (Stmt.move (· + (source₁.utf8ByteSize + 1)))) := by
  obtain ⟨ts, hts, h₁⟩ := program₁
  obtain ⟨us, hus, h₂⟩ := program₂
  have text : (source₁ ++ "\n" ++ source₂).toList = source₁.toList ++ '\n' :: source₂.toList := by
    simp
  have moved := h₂.move (keepsOrder_add (source₁.utf8ByteSize + 1))
  -- What follows the earlier program begins a statement, so it cannot go on with the last one.
  have ends := moved.endsStmt_ahead endsStmt_none
  refine ⟨_, ?_, (h₁.followedBy ends).append moved⟩
  rw [TokensAt, text, hts.scanFrom_break, hus, List.map_append, List.map_map, List.map_map]
  rfl

/-- With spans, the later one is moved as far as spans can hold. -/
theorem parse_join {source₁ source₂ : String} {ss₁ ss₂ : List Stmt}
    (program₁ : parse source₁ = .ok ss₁) (program₂ : parse source₂ = .ok ss₂) :
    parse (source₁ ++ "\n" ++ source₂) = .ok (ss₁ ++
      ss₂.map (Stmt.move fun offset => Span.hold (offset + (source₁.utf8ByteSize + 1)))) := by
  obtain ⟨exact₁, found₁, rfl⟩ := programAt_of_parse program₁
  obtain ⟨exact₂, found₂, rfl⟩ := programAt_of_parse program₂
  rw [(found₁.join found₂).parse_eq, List.map_append, hold_moved]

/-- In a short text that is as far as they stand to the right. -/
theorem parse_join_of_le {source₁ source₂ : String} {ss₁ ss₂ : List Stmt}
    (program₁ : parse source₁ = .ok ss₁) (program₂ : parse source₂ = .ok ss₂)
    (short : (source₁ ++ "\n" ++ source₂).utf8ByteSize ≤ Span.limit) :
    parse (source₁ ++ "\n" ++ source₂) =
      .ok (ss₁ ++ ss₂.map (Stmt.move (· + (source₁.utf8ByteSize + 1)))) := by
  have size : (source₁ ++ "\n" ++ source₂).utf8ByteSize =
      source₁.utf8ByteSize + 1 + source₂.utf8ByteSize := by
    rw [String.utf8ByteSize_append, String.utf8ByteSize_append]
    rfl
  rw [parse_eq_ok_iff_programAt (by omega)] at program₁ program₂
  exact (parse_eq_ok_iff_programAt short).2 (program₁.join program₂)

end BraceScript
