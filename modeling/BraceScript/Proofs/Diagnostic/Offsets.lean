-- Line and column tell an offset: from the two of them and the lines of the
-- text it can be computed again, and it grows with them. They are found by
-- cutting the text at byte offsets, and no cut goes through a character. A text
-- has to be a little shorter for that than the largest number that is held.
import Mathlib.Data.List.DropRight
import Mathlib.Data.List.Induction
import Mathlib.Data.List.TakeWhile
import Mathlib.Data.Prod.Lex
import Mathlib.Order.Bounds.Basic
import Mathlib.Order.Monotone.Basic
import BraceScript.Diagnostic.Position
import BraceScript.Proofs.Grammar.Places
import BraceScript.Proofs.Printing.Numerals

namespace BraceScript

variable {source : String} {offset n : Nat} {cs a b x : List Char}

/-! ## The characters before an offset -/

theorem byteLength_mono (h : a <+: b) : byteLength a ≤ byteLength b := by
  obtain ⟨x, rfl⟩ := h
  simp

theorem length_le_byteLength (cs : List Char) : cs.length ≤ byteLength cs := by
  induction cs with
  | nil => exact Nat.le_refl 0
  | cons c cs ih =>
    have := c.utf8Size_pos
    simp only [List.length_cons, byteLength_cons]
    omega

theorem takeBytes_zero (cs : List Char) : takeBytes 0 cs = [] := by
  cases cs with
  | nil => rfl
  | cons c cs => rw [takeBytes, if_neg (by have := c.utf8Size_pos; omega)]

theorem dropBytes_zero (cs : List Char) : dropBytes 0 cs = cs := by
  simpa [takeBytes_zero] using takeBytes_append_dropBytes 0 cs

/-- An offset behind some characters is one into those that follow them. -/
theorem takeBytes_byteLength_add (a b : List Char) (n : Nat) :
    takeBytes (byteLength a + n) (a ++ b) = a ++ takeBytes n b := by
  induction a with
  | nil => simp
  | cons c a ih =>
    have le : c.utf8Size ≤ byteLength (c :: a) + n := by simp; omega
    have behind : byteLength (c :: a) + n - c.utf8Size = byteLength a + n := by simp; omega
    rw [List.cons_append, takeBytes, if_pos le, behind, ih, List.cons_append]

theorem dropBytes_byteLength_add (a b : List Char) (n : Nat) :
    dropBytes (byteLength a + n) (a ++ b) = dropBytes n b := by
  have whole := takeBytes_append_dropBytes (byteLength a + n) (a ++ b)
  rw [takeBytes_byteLength_add, List.append_assoc] at whole
  have behind := List.append_cancel_left whole
  exact List.append_cancel_left (behind.trans (takeBytes_append_dropBytes n b).symm)

theorem takeBytes_byteLength (a b : List Char) : takeBytes (byteLength a) (a ++ b) = a := by
  simpa [takeBytes_zero] using takeBytes_byteLength_add a b 0

theorem dropBytes_byteLength (a b : List Char) : dropBytes (byteLength a) (a ++ b) = b := by
  simpa [dropBytes_zero] using dropBytes_byteLength_add a b 0

/-- The characters before an offset are the longest beginning of the text that
does not reach beyond it. -/
theorem prefix_takeBytes_iff : a <+: takeBytes n cs ↔ a <+: cs ∧ byteLength a ≤ n := by
  constructor
  · intro h
    exact ⟨h.trans ⟨_, takeBytes_append_dropBytes n cs⟩,
      (byteLength_mono h).trans (byteLength_takeBytes_le n cs)⟩
  · rintro ⟨⟨b, rfl⟩, le⟩
    obtain ⟨k, rfl⟩ := Nat.exists_eq_add_of_le le
    rw [takeBytes_byteLength_add]
    exact List.prefix_append _ _

theorem isBoundary_takeBytes (source : String) (offset : Nat) :
    IsBoundary source (byteLength (takeBytes offset source.toList)) :=
  ⟨_, _, (takeBytes_append_dropBytes offset source.toList).symm, rfl⟩

/-- At the beginning of a character, the characters before it end there. -/
theorem IsBoundary.byteLength_takeBytes (h : IsBoundary source n) :
    byteLength (takeBytes n source.toList) = n := by
  obtain ⟨a, b, text, rfl⟩ := h
  rw [text, takeBytes_byteLength]

theorem isGreatest_takeBytes (source : String) (offset : Nat) :
    IsGreatest {n | IsBoundary source n ∧ n ≤ offset}
      (byteLength (takeBytes offset source.toList)) := by
  refine ⟨⟨isBoundary_takeBytes source offset, byteLength_takeBytes_le _ _⟩, ?_⟩
  rintro n ⟨⟨a, b, text, rfl⟩, le⟩
  exact byteLength_mono (prefix_takeBytes_iff.2 ⟨⟨b, text.symm⟩, le⟩)

/-! ## The line of an offset -/

theorem lastLine_concat (cs : List Char) (c : Char) :
    lastLine (cs ++ [c]) = if c = '\n' then [] else lastLine cs ++ [c] := by
  unfold lastLine
  split <;> simp_all

/-- A text is some lines, each with the break behind it, and the line it ends in. -/
theorem exists_lines (cs : List Char) : ∃ lines : List (List Char),
    cs = lines.flatMap (· ++ ['\n']) ++ lastLine cs ∧ (∀ line ∈ lines, '\n' ∉ line) ∧
      '\n' ∉ lastLine cs ∧ lines.length = cs.count '\n' := by
  induction cs using List.reverseRecOn with
  | nil => exact ⟨[], rfl, by simp, by simp [lastLine], rfl⟩
  | append_singleton cs c ih =>
    obtain ⟨lines, whole, closed, «open», count⟩ := ih
    rw [lastLine_concat]
    split
    · next isBreak =>
      subst isBreak
      refine ⟨lines ++ [lastLine cs], ?_, ?_, by simp, by simp [count]⟩
      · simpa using congrArg (· ++ ['\n']) whole
      · simpa [or_imp, forall_and] using ⟨closed, «open»⟩
    · next other =>
      refine ⟨lines, ?_, closed, ?_, ?_⟩
      · rw [← List.append_assoc, ← whole]
      · simpa [«open»] using Ne.symm other
      · simp [count, other]

theorem splitOn_line (h : '\n' ∉ a) (b : List Char) :
    (a ++ '\n' :: b).splitOn '\n' = a :: b.splitOn '\n' := by
  induction a with
  | nil => simp [List.splitOn_cons_eq_if_modifyHead]
  | cons c a ih =>
    simp only [List.mem_cons, not_or] at h
    rw [List.cons_append, List.splitOn_cons_eq_if_modifyHead, if_neg (by simpa using Ne.symm h.1),
      ih h.2, List.modifyHead_cons]

theorem splitOn_lines {lines : List (List Char)} (h : ∀ line ∈ lines, '\n' ∉ line)
    (b : List Char) :
    (lines.flatMap (· ++ ['\n']) ++ b).splitOn '\n' = lines ++ b.splitOn '\n' := by
  induction lines with
  | nil => rfl
  | cons line lines ih =>
    obtain ⟨first, rest⟩ := List.forall_mem_cons.1 h
    rw [List.flatMap_cons, List.append_assoc, List.append_assoc, List.singleton_append,
      splitOn_line first, ih rest, List.cons_append]

/-- A text without a break at its front is the line up to the first one. -/
theorem exists_splitOn (h : '\n' ∉ a) (b : List Char) :
    ∃ rest, (a ++ b).splitOn '\n' = (a ++ b.takeWhile (· != '\n')) :: rest := by
  have front : '\n' ∉ a ++ b.takeWhile (· != '\n') := by
    rw [List.mem_append, not_or]
    exact ⟨h, fun mem => by simpa using List.mem_takeWhile_imp mem⟩
  cases behind : b.dropWhile (· != '\n') with
  | nil =>
    have whole : b.takeWhile (· != '\n') = b := by
      simpa [behind] using List.takeWhile_append_dropWhile (p := (· != '\n')) (l := b)
    refine ⟨[], ?_⟩
    rw [whole] at front ⊢
    exact List.splitOn_eq_singleton front
  | cons c rest =>
    obtain rfl : c = '\n' := by
      have stop := List.head?_dropWhile_not (· != '\n') b
      rw [behind] at stop
      simpa using stop
    refine ⟨rest.splitOn '\n', ?_⟩
    rw [← splitOn_line front, List.append_assoc, ← behind, List.takeWhile_append_dropWhile]

/-- Where a text is cut in two, the lines are those of the first part, the one that is cut, and
those of the second part. -/
theorem exists_line (a b : List Char) : ∃ before rest : List (List Char),
    (a ++ b).splitOn '\n' = before ++ (lastLine a ++ b.takeWhile (· != '\n')) :: rest ∧
      before.flatMap (· ++ ['\n']) ++ lastLine a = a ∧ before.length = a.count '\n' := by
  obtain ⟨before, whole, closed, «open», count⟩ := exists_lines a
  obtain ⟨rest, line⟩ := exists_splitOn «open» b
  refine ⟨before, rest, ?_, whole.symm, count⟩
  rw [← line, ← splitOn_lines closed, ← List.append_assoc, ← whole]

/-- The offset at which a line begins, counted from zero: behind the lines before it, each with
its break. -/
def lineStart (source : String) (line : Nat) : Nat :=
  byteLength (((source.toList.splitOn '\n').take line).flatMap (· ++ ['\n']))

/-- Line and column, counted from one, tell an offset: they lead to the last beginning of a
character that is not behind it. The text is that of the line. -/
structure Locates (source : String) (offset line column : Nat) (text : List Char) : Prop where
  line_pos : 0 < line
  column_pos : 0 < column
  isLine : (source.toList.splitOn '\n')[line - 1]? = some text
  inLine : column - 1 ≤ text.length
  isGreatest : IsGreatest {n | IsBoundary source n ∧ n ≤ offset}
    (lineStart source (line - 1) + byteLength (text.take (column - 1)))

/-- A line ends in carriage returns, perhaps none, and what is in front of them does not. -/
theorem exists_returns (line : List Char) :
    (∃ count, line = line.rdropWhile (· == '\r') ++ List.replicate count '\r') ∧
      (line.rdropWhile (· == '\r')).getLast? ≠ some '\r' := by
  refine ⟨exists_trailing '\r' line, fun last => ?_⟩
  obtain ⟨some, isReturn⟩ := List.mem_getLast?_eq_getLast (Option.mem_def.2 last)
  exact List.rdropWhile_last_not _ _ some (by simp [← isReturn])

/-- Each line break and each character of the last line has a byte of its own. -/
theorem count_add_length_le (cs : List Char) :
    cs.count '\n' + (lastLine cs).length ≤ byteLength cs := by
  obtain ⟨lines, whole, -, «open», -⟩ := exists_lines cs
  refine Nat.le_trans ?_ (length_le_byteLength cs)
  generalize lastLine cs = last at whole «open»
  rw [whole, List.count_append, List.count_eq_zero.2 «open», List.length_append]
  exact Nat.add_le_add_right List.count_le_length _

/-- So line and column never need more room than offsets do. -/
theorem lineColumn_eq (few : byteLength (takeBytes offset source.toList) < Span.limit) :
    lineColumn source offset = ((takeBytes offset source.toList).count '\n' + 1,
      (lastLine (takeBytes offset source.toList)).length + 1) := by
  have := count_add_length_le (takeBytes offset source.toList)
  rw [lineColumn, Span.hold_of_le (by omega), Span.hold_of_le (by omega)]

theorem byteLength_takeBytes_le_size (source : String) (offset : Nat) :
    byteLength (takeBytes offset source.toList) ≤ source.utf8ByteSize :=
  (isBoundary_takeBytes source offset).le

/-- The line of an offset begins where the last line of what is before the offset does. -/
theorem exists_lineStart (few : byteLength (takeBytes offset source.toList) < Span.limit) : ∃ front,
    takeBytes offset source.toList = front ++ lastLine (takeBytes offset source.toList) ∧
      lineStart source ((lineColumn source offset).1 - 1) = byteLength front ∧
      (source.toList.splitOn '\n')[(lineColumn source offset).1 - 1]? =
        some (lastLine (takeBytes offset source.toList) ++
          (dropBytes offset source.toList).takeWhile (· != '\n')) := by
  obtain ⟨before, rest, lines, front, count⟩ :=
    exists_line (takeBytes offset source.toList) (dropBytes offset source.toList)
  rw [takeBytes_append_dropBytes] at lines
  refine ⟨before.flatMap (· ++ ['\n']), front.symm, ?_, ?_⟩
  · rw [lineStart, lines, lineColumn_eq few, Nat.add_sub_cancel, ← count, List.take_left]
  · rw [lines, lineColumn_eq few, Nat.add_sub_cancel, ← count,
      List.getElem?_append_right (Nat.le_refl _), Nat.sub_self, List.getElem?_cons_zero]

theorem locates_lineColumn (few : byteLength (takeBytes offset source.toList) < Span.limit) :
    ∃ text,
    Locates source offset (lineColumn source offset).1 (lineColumn source offset).2 text ∧
      (∃ count, text = lineText source offset ++ List.replicate count '\r') ∧
      (lineText source offset).getLast? ≠ some '\r' := by
  obtain ⟨front, whole, start, isLine⟩ := exists_lineStart few
  obtain ⟨returns, last⟩ := exists_returns (lastLine (takeBytes offset source.toList) ++
    (dropBytes offset source.toList).takeWhile (· != '\n'))
  refine ⟨_, ⟨?_, ?_, isLine, ?_, ?_⟩, returns, last⟩
  · rw [lineColumn_eq few]
    exact Nat.succ_pos _
  · rw [lineColumn_eq few]
    exact Nat.succ_pos _
  · simp [lineColumn_eq few]
  · rw [start, lineColumn_eq few, Nat.add_sub_cancel, List.take_left, ← byteLength_append, ← whole]
    exact isGreatest_takeBytes source offset

theorem lineColumn_le (few : byteLength (takeBytes offset source.toList) < Span.limit) :
    (lineColumn source offset).1 + (lineColumn source offset).2 ≤ source.utf8ByteSize + 2 := by
  have length := count_add_length_le (takeBytes offset source.toList)
  have size := byteLength_takeBytes_le_size source offset
  rw [lineColumn_eq few]
  dsimp only
  omega

/-! ## Order -/

/-- The place behind a text, counted from one. -/
def placeBehind (cs : List Char) : Nat ×ₗ Nat := toLex (cs.count '\n' + 1, (lastLine cs).length + 1)

/-- One more character leads to a later place: on the same line, or on the next one. -/
theorem placeBehind_concat (cs : List Char) (c : Char) :
    placeBehind cs < placeBehind (cs ++ [c]) := by
  unfold placeBehind
  rw [Prod.Lex.toLex_lt_toLex, lastLine_concat, List.count_append]
  by_cases isBreak : c = '\n'
  · simp [isBreak]
  · simp [isBreak]

theorem placeBehind_append (a : List Char) (some : x ≠ []) :
    placeBehind a < placeBehind (a ++ x) := by
  induction x using List.reverseRecOn with
  | nil => exact absurd rfl some
  | append_singleton x c ih =>
    have step := placeBehind_concat (a ++ x) c
    rw [← List.append_assoc]
    by_cases none : x = []
    · subst none
      simpa using step
    · exact (ih none).trans step

theorem strictMonoOn_lineColumn (short : source.utf8ByteSize < Span.limit) :
    StrictMonoOn (fun n => toLex (lineColumn source n)) {n | IsBoundary source n} := by
  have few (n : Nat) : byteLength (takeBytes n source.toList) < Span.limit :=
    (byteLength_takeBytes_le_size source n).trans_lt short
  rintro _ ⟨a, b, text, rfl⟩ n hn less
  have more : a <+: takeBytes n source.toList :=
    prefix_takeBytes_iff.2 ⟨⟨b, text.symm⟩, less.le⟩
  obtain ⟨x, behind⟩ := more
  have some : x ≠ [] := by
    rintro rfl
    rw [List.append_nil] at behind
    rw [behind, hn.byteLength_takeBytes] at less
    exact less.false
  have here : takeBytes (byteLength a) source.toList = a := by rw [text, takeBytes_byteLength]
  simp only [lineColumn_eq (few _)]
  change placeBehind (takeBytes (byteLength a) source.toList) <
    placeBehind (takeBytes n source.toList)
  rw [here, ← behind]
  exact placeBehind_append a some

/-! ## A text of one line -/

/-- So many letters. -/
def letters (count : Nat) : String := String.ofList (List.replicate count 'a')

theorem utf8ByteSize_letters (count : Nat) : (letters count).utf8ByteSize = count := by
  rw [← byteLength_toList, letters, String.toList_ofList, byteLength_replicate]
  exact Nat.mul_one count

theorem exists_letters {count : Nat} (le : n ≤ count) : ∃ a b : List Char,
    (letters count).toList = a ++ b ∧ byteLength a = n ∧ lastLine a = a ∧ a.length = n ∧
      '\n' ∉ a := by
  have parts : List.replicate count 'a' = List.replicate n 'a' ++ List.replicate (count - n) 'a' := by
    rw [List.replicate_append_replicate, Nat.add_sub_cancel' le]
  have letter : ∀ c ∈ List.replicate n 'a', (c != '\n') = true := fun c hc => by
    rw [List.eq_of_mem_replicate hc]
    rfl
  refine ⟨_, _, by rw [letters, String.toList_ofList, parts], ?_, ?_, List.length_replicate, ?_⟩
  · rw [byteLength_replicate]
    exact Nat.mul_one n
  · rw [lastLine, List.reverse_replicate, List.takeWhile_eq_self_iff.2 letter,
      List.reverse_replicate]
  · exact fun mem => absurd (letter _ mem) (by decide)

theorem isBoundary_letters {count : Nat} (le : n ≤ count) : IsBoundary (letters count) n := by
  obtain ⟨a, b, text, size, -⟩ := exists_letters le
  exact ⟨a, b, text, size⟩

theorem lineColumn_letters {count : Nat} (le : n ≤ count) :
    lineColumn (letters count) n = (1, Span.hold (n + 1)) := by
  obtain ⟨a, b, text, size, line, length, plain⟩ := exists_letters le
  rw [lineColumn, text, ← size, takeBytes_byteLength, line, length, size,
    List.count_eq_zero.2 plain]
  rfl

/-! ## Cuts at byte offsets -/

/-- A character begins at the offset, or the text ends there. -/
def isBoundary : List Char → Nat → Bool
  | _, 0 => true
  | [], _ + 1 => false
  | c :: cs, n + 1 => c.utf8Size ≤ n + 1 && isBoundary cs (n + 1 - c.utf8Size)

/-- The offset, moved down until no character goes through it. -/
def floorBoundary (cs : List Char) : Nat → Nat
  | 0 => 0
  | n + 1 => if isBoundary cs (n + 1) then n + 1 else floorBoundary cs n

/-- The characters from one offset up to another. There are none if the offsets are the wrong way
round or lie within characters or beyond the end. -/
def slice? (cs : List Char) (start stop : Nat) : Option (List Char) :=
  if start ≤ stop ∧ isBoundary cs start ∧ isBoundary cs stop then
    some (takeBytes (stop - start) (dropBytes start cs))
  else none

/-- The offset of the first line break. -/
def firstBreak? : List Char → Option Nat
  | [] => none
  | c :: cs => if c = '\n' then some 0 else (firstBreak? cs).map (c.utf8Size + ·)

/-- The offset of the last line break. -/
def lastBreak? : List Char → Option Nat
  | [] => none
  | c :: cs =>
    match lastBreak? cs with
    | some n => some (c.utf8Size + n)
    | none => if c = '\n' then some 0 else none

/-- Line and column, by slices of the text and the bytes of its UTF-8 form. -/
def slicedLineColumn? (source : String) (offset : Nat) : Option (Nat × Nat) := do
  let here := floorBoundary source.toList (min offset source.utf8ByteSize)
  let before ← slice? source.toList 0 here
  let line := (before.flatMap String.utf8EncodeChar).count 10 + 1
  let start := (lastBreak? before).elim 0 (· + 1)
  let inLine ← slice? before start (byteLength before)
  return (Span.hold line, Span.hold (inLine.length + 1))

/-- The text of a line, by slices of the whole text. -/
def slicedLineText? (source : String) (offset : Nat) : Option (List Char) := do
  let here := floorBoundary source.toList (min offset source.utf8ByteSize)
  let before ← slice? source.toList 0 here
  let start := (lastBreak? before).elim 0 (· + 1)
  let behind ← slice? source.toList here source.utf8ByteSize
  let stop := (firstBreak? behind).elim source.utf8ByteSize (here + ·)
  let line ← slice? source.toList start stop
  return (line.reverse.dropWhile (· == '\r')).reverse

theorem isBoundary_append (a b : List Char) : isBoundary (a ++ b) (byteLength a) = true := by
  induction a with
  | nil => simp [isBoundary]
  | cons c a ih =>
    have pos := c.utf8Size_pos
    obtain ⟨n, hn⟩ : ∃ n, byteLength (c :: a) = n + 1 := ⟨c.utf8Size + byteLength a - 1, by
      simp; omega⟩
    have behind : n + 1 - c.utf8Size = byteLength a := by simp at hn; omega
    have le : c.utf8Size ≤ n + 1 := by simp at hn; omega
    rw [hn, List.cons_append, isBoundary, behind, ih]
    simpa using le

theorem exists_of_isBoundary (h : isBoundary cs n = true) :
    ∃ a b, cs = a ++ b ∧ byteLength a = n := by
  induction cs generalizing n with
  | nil =>
    cases n with
    | zero => exact ⟨[], [], rfl, rfl⟩
    | succ n => cases h
  | cons c cs ih =>
    cases n with
    | zero => exact ⟨[], c :: cs, rfl, rfl⟩
    | succ n =>
      simp only [isBoundary, Bool.and_eq_true, decide_eq_true_eq] at h
      obtain ⟨a, b, rfl, length⟩ := ih h.2
      exact ⟨c :: a, b, rfl, by simp; omega⟩

theorem floorBoundary_cases (cs : List Char) (n : Nat) :
    isBoundary cs (floorBoundary cs n) = true ∧ floorBoundary cs n ≤ n ∧
      ∀ m, isBoundary cs m = true → m ≤ n → m ≤ floorBoundary cs n := by
  induction n with
  | zero => exact ⟨by cases cs <;> rfl, Nat.le_refl 0, fun m _ le => le⟩
  | succ n ih =>
    rw [floorBoundary]
    split
    · next here => exact ⟨here, Nat.le_refl _, fun m _ le => le⟩
    · next within =>
      refine ⟨ih.1, by omega, fun m hm le => ih.2.2 m hm ?_⟩
      have ne : m ≠ n + 1 := by
        rintro rfl
        exact within hm
      omega

/-- Clamped to the end and moved down, an offset is behind the characters before it. -/
theorem floorBoundary_eq (source : String) (offset : Nat) :
    floorBoundary source.toList (min offset source.utf8ByteSize) =
      byteLength (takeBytes offset source.toList) := by
  obtain ⟨here, le, greatest⟩ :=
    floorBoundary_cases source.toList (min offset source.utf8ByteSize)
  have whole := takeBytes_append_dropBytes offset source.toList
  apply Nat.le_antisymm
  · obtain ⟨a, b, text, length⟩ := exists_of_isBoundary here
    rw [← length] at le ⊢
    exact byteLength_mono (prefix_takeBytes_iff.2 ⟨⟨b, text.symm⟩, by omega⟩)
  · apply greatest
    · have here := isBoundary_append (takeBytes offset source.toList)
        (dropBytes offset source.toList)
      rwa [whole] at here
    · have inside := (isBoundary_takeBytes source offset).le
      have := byteLength_takeBytes_le offset source.toList
      omega

theorem slice?_append (a x b : List Char) :
    slice? (a ++ x ++ b) (byteLength a) (byteLength a + byteLength x) = some x := by
  have start : isBoundary (a ++ x ++ b) (byteLength a) = true := by
    rw [List.append_assoc]
    exact isBoundary_append _ _
  have stop : isBoundary (a ++ x ++ b) (byteLength a + byteLength x) = true := by
    rw [← byteLength_append]
    exact isBoundary_append _ _
  rw [slice?, if_pos ⟨Nat.le_add_right _ _, start, stop⟩, Nat.add_sub_cancel_left,
    List.append_assoc, dropBytes_byteLength, takeBytes_byteLength]

theorem slice?_front (a b : List Char) : slice? (a ++ b) 0 (byteLength a) = some a := by
  simpa using slice?_append [] a b

theorem slice?_back (a b : List Char) :
    slice? (a ++ b) (byteLength a) (byteLength a + byteLength b) = some b := by
  simpa using slice?_append a b []

/-- A line break is a byte of its own, and no other character has this byte. -/
theorem count_break_utf8EncodeChar (c : Char) :
    (String.utf8EncodeChar c).count 10 = if c = '\n' then 1 else 0 := by
  have isBreak : c = '\n' ↔ c.val.toNat = 10 := by
    rw [← Char.toNat_inj]
    rfl
  have byte (k : Nat) (h : k < 256) : UInt8.ofNat k = 10 ↔ k = 10 := by
    rw [← UInt8.toNat_inj, UInt8.toNat_ofNat_of_lt' h]
    rfl
  have other (k : Nat) (h : 10 < k ∧ k < 256) : (10 : UInt8) ≠ UInt8.ofNat k := fun eq =>
    absurd ((byte k h.2).1 eq.symm) (by omega)
  by_cases ascii : c.val.toNat ≤ 127
  · simp only [String.utf8EncodeChar, if_pos ascii, List.count_singleton, beq_iff_eq, isBreak,
      byte _ (show c.val.toNat < 256 by omega)]
  · rw [if_neg (by rw [isBreak]; omega), List.count_eq_zero]
    intro mem
    simp only [String.utf8EncodeChar, if_neg ascii] at mem
    split at mem
    · simp only [List.mem_cons, List.not_mem_nil, or_false] at mem
      rcases mem with h | h <;> exact other _ (by omega) h
    split at mem
    · simp only [List.mem_cons, List.not_mem_nil, or_false] at mem
      rcases mem with h | h | h <;> exact other _ (by omega) h
    · simp only [List.mem_cons, List.not_mem_nil, or_false] at mem
      rcases mem with h | h | h | h <;> exact other _ (by omega) h

theorem count_break_bytes (cs : List Char) :
    (cs.flatMap String.utf8EncodeChar).count 10 = cs.count '\n' := by
  induction cs with
  | nil => rfl
  | cons c cs ih =>
    rw [List.flatMap_cons, List.count_append, count_break_utf8EncodeChar, ih, List.count_cons,
      Nat.add_comm]
    simp

theorem lastBreak?_append (h : '\n' ∉ x) (a : List Char) :
    lastBreak? (a ++ x) = lastBreak? a := by
  induction a with
  | nil =>
    induction x with
    | nil => rfl
    | cons c x ih =>
      simp only [List.mem_cons, not_or] at h
      have none : lastBreak? x = none := ih h.2
      simp [lastBreak?, none, Ne.symm h.1]
  | cons c a ih => rw [List.cons_append, lastBreak?, lastBreak?, ih]

theorem lastBreak?_break (a : List Char) : lastBreak? (a ++ ['\n']) = some (byteLength a) := by
  induction a with
  | nil => rfl
  | cons c a ih => rw [List.cons_append, lastBreak?, ih, byteLength_cons]

/-- The last line begins behind the last break, or with the text. -/
theorem exists_front (cs : List Char) : ∃ front, cs = front ++ lastLine cs ∧
    (lastBreak? cs).elim 0 (· + 1) = byteLength front := by
  obtain ⟨lines, whole, -, «open», -⟩ := exists_lines cs
  refine ⟨_, whole, ?_⟩
  conv_lhs => rw [whole, lastBreak?_append «open»]
  obtain rfl | ⟨lines, line, rfl⟩ := List.eq_nil_or_concat' lines
  · rfl
  · rw [List.flatMap_append, List.flatMap_singleton, ← List.append_assoc, lastBreak?_break,
      Option.elim_some, byteLength_append _ ['\n']]
    rfl

theorem firstBreak?_getD (b : List Char) :
    (firstBreak? b).getD (byteLength b) = byteLength (b.takeWhile (· != '\n')) := by
  induction b with
  | nil => rfl
  | cons c b ih =>
    by_cases isBreak : c = '\n'
    · simp [firstBreak?, isBreak]
    · rw [List.takeWhile_cons_of_pos (by simpa using isBreak), byteLength_cons, byteLength_cons,
        ← ih, firstBreak?, if_neg isBreak]
      cases firstBreak? b <;> simp

theorem slicedLineColumn?_eq (source : String) (offset : Nat) :
    slicedLineColumn? source offset = some (lineColumn source offset) := by
  have whole := takeBytes_append_dropBytes offset source.toList
  have before := slice?_front (takeBytes offset source.toList) (dropBytes offset source.toList)
  obtain ⟨front, line, start⟩ := exists_front (takeBytes offset source.toList)
  have inLine := slice?_back front (lastLine (takeBytes offset source.toList))
  rw [← byteLength_append, ← line] at inLine
  rw [whole] at before
  simp [slicedLineColumn?, floorBoundary_eq, before, start, inLine, count_break_bytes, lineColumn]

theorem slicedLineText?_eq (source : String) (offset : Nat) :
    slicedLineText? source offset = some (lineText source offset) := by
  have whole := takeBytes_append_dropBytes offset source.toList
  have before := slice?_front (takeBytes offset source.toList) (dropBytes offset source.toList)
  have behind := slice?_back (takeBytes offset source.toList) (dropBytes offset source.toList)
  rw [← byteLength_append, whole, byteLength_toList] at behind
  rw [whole] at before
  obtain ⟨front, text, start⟩ := exists_front (takeBytes offset source.toList)
  have size : source.utf8ByteSize = byteLength (takeBytes offset source.toList) +
      byteLength (dropBytes offset source.toList) := by
    rw [← byteLength_append, whole, byteLength_toList]
  have stop : (firstBreak? (dropBytes offset source.toList)).elim source.utf8ByteSize
        (byteLength (takeBytes offset source.toList) + ·) =
      byteLength front + byteLength (lastLine (takeBytes offset source.toList) ++
        (dropBytes offset source.toList).takeWhile (· != '\n')) := by
    rw [byteLength_append, ← Nat.add_assoc, ← byteLength_append, ← text, ← firstBreak?_getD, size]
    cases firstBreak? (dropBytes offset source.toList) <;> rfl
  have line := slice?_append front (lastLine (takeBytes offset source.toList) ++
    (dropBytes offset source.toList).takeWhile (· != '\n'))
    ((dropBytes offset source.toList).dropWhile (· != '\n'))
  rw [← List.append_assoc, ← text, List.append_assoc, List.takeWhile_append_dropWhile,
    whole] at line
  simp only [slicedLineText?, floorBoundary_eq, before, behind, start, stop, line,
    Option.bind_eq_bind, Option.bind_some]
  rfl

/-- Line and column tell an offset, wherever it lies, in a text with fewer bytes than the largest
number that is held: the line is the one of the text that has this number, shown without the
carriage returns at its end, and the column counts its characters up to the last beginning of a
character that is not behind the offset. From one beginning of a character to a later one the two
of them grow, the line first, so no two of them have the same. Together they are no more than the
bytes of the text and two. They are found by slices of the text, none of which is cut through a
character or beyond the end. -/
theorem line_and_column_tell_the_offset {source : String}
    (short : source.utf8ByteSize < Span.limit) :
    (∀ offset, ∃ text,
      Locates source offset (lineColumn source offset).1 (lineColumn source offset).2 text ∧
      (∃ count, text = lineText source offset ++ List.replicate count '\r') ∧
      (lineText source offset).getLast? ≠ some '\r') ∧
    StrictMonoOn (fun n => toLex (lineColumn source n)) {n | IsBoundary source n} ∧
    Set.InjOn (lineColumn source) {n | IsBoundary source n} ∧
    (∀ offset,
      (lineColumn source offset).1 + (lineColumn source offset).2 ≤ source.utf8ByteSize + 2) ∧
    ∀ offset, slicedLineColumn? source offset = some (lineColumn source offset) ∧
      slicedLineText? source offset = some (lineText source offset) := by
  have few (offset : Nat) : byteLength (takeBytes offset source.toList) < Span.limit :=
    (byteLength_takeBytes_le_size source offset).trans_lt short
  have increasing := strictMonoOn_lineColumn short
  refine ⟨fun offset => locates_lineColumn (few offset), increasing, ?_,
    fun offset => lineColumn_le (few offset),
    fun offset => ⟨slicedLineColumn?_eq source offset, slicedLineText?_eq source offset⟩⟩
  intro m hm n hn same
  exact increasing.injOn hm hn (congrArg toLex same)

/-- With as many letters as the largest number that is held, the last letter and the end of the
text have the same line and column. -/
theorem one_column_for_two_offsets :
    let source := letters Span.limit
    source.utf8ByteSize < 2 ^ 32 ∧ lineColumn source (Span.limit - 1) = (1, Span.limit) ∧
      lineColumn source Span.limit = (1, Span.limit) ∧
      ¬ Set.InjOn (lineColumn source) {n | IsBoundary source n} := by
  intro source
  have size : source.utf8ByteSize = Span.limit := utf8ByteSize_letters _
  have last : lineColumn source (Span.limit - 1) = (1, Span.limit) :=
    lineColumn_letters (Nat.sub_le _ _)
  have atEnd : lineColumn source Span.limit = (1, Span.limit) := lineColumn_letters (Nat.le_refl _)
  refine ⟨by rw [size]; decide, last, atEnd, fun injective => ?_⟩
  have same : Span.limit - 1 = Span.limit :=
    injective (isBoundary_letters (Nat.sub_le _ _)) (isBoundary_letters (Nat.le_refl _))
      (last.trans atEnd.symm)
  exact absurd same (by decide)

/-- The offset lies within the accented letter, which is the sixth character of its line. -/
theorem a_column_within_a_wide_character :
    let source := "let a = 1\nshow é\r\n"
    source.utf8ByteSize < Span.limit ∧ Locates source 16 2 6 "show é\r".toList ∧
      lineText source 16 = "show é".toList ∧
      Set.InjOn (lineColumn source) {n | IsBoundary source n} := by
  intro source
  have short : source.utf8ByteSize < Span.limit := by decide +kernel
  obtain ⟨located, -, injective, -, -⟩ := line_and_column_tell_the_offset short
  obtain ⟨text, place, -, -⟩ := located 16
  have here : lineColumn source 16 = (2, 6) := by decide +kernel
  rw [here] at place
  obtain rfl : "show é\r".toList = text := by
    have line : (source.toList.splitOn '\n')[1]? = some "show é\r".toList := by decide +kernel
    exact Option.some.inj (line.symm.trans place.isLine)
  exact ⟨short, place, by decide +kernel, injective⟩

end BraceScript
