-- The carets in a report stand under the place that it is about: they begin
-- under its first character, and on its line there are as many as it has
-- characters, unless it has characters of more than one byte and the line goes
-- on behind it. Each further byte is one caret more, up to the end of the line.
import BraceScript.Diagnostic.Terminal
import BraceScript.Proofs.Diagnostic.Offsets

namespace BraceScript

variable {source : String} {span : Span} {a b u v : List Char} {m n : Nat}

/-! ## Characters between offsets -/

/-- The number of characters that begin at one offset or behind it, and before another. -/
def charactersBetween (source : String) (start stop : Nat) : Nat :=
  (takeBytes stop source.toList).length - (takeBytes start source.toList).length

theorem charactersBetween_of_le (source : String) (le : n ≤ m) :
    charactersBetween source m n = 0 := by
  have less : takeBytes n source.toList <+: takeBytes m source.toList :=
    prefix_takeBytes_iff.2 ⟨(prefix_takeBytes_iff.1 List.prefix_rfl).1,
      (byteLength_takeBytes_le n _).trans le⟩
  exact Nat.sub_eq_zero_of_le less.length_le

theorem charactersBetween_append (text : source.toList = a ++ (u ++ v)) :
    charactersBetween source (byteLength a) (byteLength a + byteLength u) = u.length := by
  have stop : takeBytes (byteLength a + byteLength u) source.toList = a ++ u := by
    rw [text, ← List.append_assoc, ← byteLength_append, takeBytes_byteLength]
  have start : takeBytes (byteLength a) source.toList = a := by rw [text, takeBytes_byteLength]
  rw [charactersBetween, stop, start, List.length_append, Nat.add_sub_cancel_left]

/-- Of two beginnings of a text the one with more characters has more bytes. -/
theorem byteLength_le_iff (hu : u <+: b) (hv : v <+: b) :
    byteLength u ≤ byteLength v ↔ u.length ≤ v.length := by
  rcases List.prefix_or_prefix_of_prefix hu hv with ⟨x, rfl⟩ | ⟨x, rfl⟩
  · simp
  · have := length_le_byteLength x
    cases x with
    | nil => simp
    | cons c x =>
      simp only [byteLength_append, List.length_append, List.length_cons] at *
      omega

/-! ## The line that is shown -/

/-- The offset at which the line of an offset is no longer shown: before its break and the
carriage returns in front of it. -/
def shownEnd (source : String) (offset : Nat) : Nat :=
  lineStart source ((lineColumn source offset).1 - 1) + byteLength (lineText source offset)

/-- What is shown of a line behind an offset: nothing if it ends before the offset, and else the
characters up to its end. -/
theorem exists_shown (boundary : IsBoundary source n) (held : n < Span.limit) : ∃ a r s : List Char,
    source.toList = a ++ (r ++ s) ∧ byteLength a = n ∧
      (lineText source n).drop ((lineColumn source n).2 - 1) = r ∧
      (if r = [] then shownEnd source n ≤ n else shownEnd source n = n + byteLength r) := by
  have whole := takeBytes_append_dropBytes n source.toList
  have here := boundary.byteLength_takeBytes
  have few : byteLength (takeBytes n source.toList) < Span.limit := here.trans_lt held
  obtain ⟨front, before, start, -⟩ := exists_lineStart few
  have shown : lineText source n <+: lastLine (takeBytes n source.toList) ++
      (dropBytes n source.toList).takeWhile (· != '\n') :=
    List.rdropWhile_prefix (p := (· == '\r')) _
  have column : (lineColumn source n).2 - 1 = (lastLine (takeBytes n source.toList)).length := by
    rw [lineColumn_eq few, Nat.add_sub_cancel]
  rw [shownEnd, start, column]
  obtain ⟨hidden, parts⟩ := shown
  generalize lineText source n = line at parts ⊢
  obtain ⟨left, last, -⟩ | ⟨r, rfl, behind⟩ := List.append_eq_append_iff.1 parts
  · refine ⟨_, [], dropBytes n source.toList, by rw [List.nil_append, whole], here, ?_, ?_⟩
    · rw [last]
      simp
    · rw [if_pos rfl]
      have length := congrArg byteLength before
      rw [here, last, byteLength_append, byteLength_append] at length
      omega
  · have rest : dropBytes n source.toList =
        r ++ (hidden ++ (dropBytes n source.toList).dropWhile (· != '\n')) := by
      rw [← List.append_assoc, ← behind, List.takeWhile_append_dropWhile]
    refine ⟨_, r, _, by rw [← rest, whole], here, List.drop_left, ?_⟩
    have length := congrArg byteLength before
    rw [here, byteLength_append] at length
    rw [byteLength_append, ← Nat.add_assoc, ← length]
    split
    · next none => simp [none]
    · rfl

/-- A span divides the text into what is before it, what is in it and what is behind it. -/
theorem Fits.exists_inside (fits : Fits source span) (text : source.toList = a ++ b)
    (start : byteLength a = span.start) : ∃ u v, b = u ++ v ∧ byteLength u = span.length := by
  obtain ⟨front, v, whole, stop⟩ := fits.stop
  have le := fits.le
  have before : a <+: source.toList := ⟨b, text.symm⟩
  have within : front <+: source.toList := ⟨v, whole.symm⟩
  obtain ⟨u, rfl⟩ : a <+: front :=
    List.prefix_of_prefix_length_le before within ((byteLength_le_iff before within).1 (by omega))
  rw [byteLength_append] at stop
  refine ⟨u, v, ?_, by rw [Span.length]; omega⟩
  rw [text, List.append_assoc] at whole
  exact List.append_cancel_left whole

/-- The number of carets: that of the characters of the span on its line, and one for each
further byte, as long as the line is shown. -/
theorem caretCount_eq (nonempty : span.start < span.stop) (held : span.stop ≤ Span.limit)
    (fits : Fits source span) :
    let last := shownEnd source span.start
    let covered := max 1 (charactersBetween source span.start (min span.stop last))
    let behind := charactersBetween source span.stop last
    let inSpan := charactersBetween source span.start span.stop
    caretCount (lineText source span.start) (lineColumn source span.start).2 span =
        covered + min behind (span.length - inSpan) ∧
      (min behind (span.length - inSpan) = 0 ↔ last ≤ span.stop ∨ inSpan = span.length) := by
  intro last covered behind inSpan
  obtain ⟨a, r, s, text, start, rest, ends⟩ := exists_shown fits.start (nonempty.trans_le held)
  obtain ⟨u, v, parts, width⟩ := fits.exists_inside text start
  have stop : span.stop = span.start + byteLength u := by rw [width, Span.length]; omega
  have hin : inSpan = u.length := by
    have := charactersBetween_append (text.trans (congrArg (a ++ ·) parts))
    rwa [start, ← stop] at this
  have few := length_le_byteLength u
  have pos : 0 < u.length := by
    rw [List.length_pos_iff]
    rintro rfl
    simp at stop
    omega
  rw [caretCount, rest, ← width, hin]
  split at ends
  · next none =>
    have le : last ≤ span.start := ends
    have outside : covered = max 1 0 :=
      congrArg (max 1) (charactersBetween_of_le source (by omega))
    have nothing : behind = 0 := charactersBetween_of_le source (by omega)
    have length : r.length = 0 := by rw [none]; rfl
    omega
  · next more =>
    have shown : last = span.start + byteLength r := ends
    have length : 0 < r.length := List.length_pos_iff.2 more
    have hr : r <+: u ++ v := ⟨s, parts⟩
    rcases List.prefix_or_prefix_of_prefix hr (List.prefix_append u v) with ⟨x, rfl⟩ | ⟨x, rfl⟩
    · -- The span goes on behind the line.
      rw [byteLength_append] at stop few ⊢
      have le : last ≤ span.stop := by omega
      have hcovered : covered = max 1 r.length := by
        refine congrArg (max 1) ?_
        rw [Nat.min_eq_right le, shown, ← start]
        exact charactersBetween_append text
      have nothing : behind = 0 := charactersBetween_of_le source le
      have := length_le_byteLength r
      omega
    · -- The line goes on behind the span.
      rw [byteLength_append, ← Nat.add_assoc, ← stop] at shown
      have hcovered : covered = max 1 u.length := by
        refine congrArg (max 1) ?_
        rw [Nat.min_eq_left (by omega)]
        exact hin
      have hbehind : behind = x.length := by
        have parts : source.toList = (a ++ u) ++ (x ++ s) := by simp [text]
        have := charactersBetween_append parts
        rwa [byteLength_append, start, ← stop, ← shown] at this
      have none : byteLength x = 0 ↔ x.length = 0 := by
        have := length_le_byteLength x
        refine ⟨by omega, fun zero => ?_⟩
        rw [List.length_eq_zero_iff.1 zero]
        rfl
      rw [List.length_append]
      omega

/-- The column is one more than the number of characters on the line before the offset. -/
theorem column_eq (boundary : IsBoundary source n) (held : n < Span.limit) :
    (lineColumn source n).2 - 1 =
      charactersBetween source (lineStart source ((lineColumn source n).1 - 1)) n := by
  have length := boundary.byteLength_takeBytes
  have few : byteLength (takeBytes n source.toList) < Span.limit := length.trans_lt held
  obtain ⟨front, before, start, -⟩ := exists_lineStart few
  have whole := takeBytes_append_dropBytes n source.toList
  rw [before, byteLength_append] at length
  rw [before, List.append_assoc] at whole
  have count := charactersBetween_append whole.symm
  rw [length] at count
  rw [start, count, lineColumn_eq few, Nat.add_sub_cancel]

/-- What is shown at the column is the character at the offset. -/
theorem lineText_column (boundary : IsBoundary source n) (held : n < Span.limit) :
    ∀ c ∈ (lineText source n)[(lineColumn source n).2 - 1]?,
      (dropBytes n source.toList).head? = some c := by
  obtain ⟨a, r, s, text, start, rest, -⟩ := exists_shown boundary held
  intro c hc
  rw [← List.head?_drop, rest] at hc
  obtain ⟨r, rfl⟩ := List.head?_eq_some_iff.1 hc
  rw [text, ← start, dropBytes_byteLength, List.cons_append, List.head?_cons]

/-! ## The rows of a report -/

theorem toList_pushn (s : String) (c : Char) (n : Nat) :
    (s.pushn c n).toList = s.toList ++ List.replicate n c := by
  rw [String.pushn_eq_repeat_push]
  induction n with
  | zero => simp [Nat.repeat]
  | succ n ih => rw [Nat.repeat, String.toList_push, ih, List.append_assoc, List.replicate_succ']

/-- One row of the report ends in the text, and the row below it in carets, the first of them under
the character of the text that has so many others before it. -/
def Underlined (report : String) (text : List Char) (before carets : Nat) : Prop :=
  ∃ above margin margin' below : List Char,
    report.toList = above ++ '\n' :: (margin ++ text) ++
      '\n' :: (margin' ++ List.replicate before ' ' ++ List.replicate carets '^') ++
      '\n' :: below ∧
    margin.length = margin'.length ∧ '\n' ∉ margin ++ text ∧ '\n' ∉ margin' ∧ '^' ∉ margin'

theorem break_not_mem_lineText (source : String) (offset : Nat) :
    '\n' ∉ lineText source offset := by
  obtain ⟨-, -, -, «open», -⟩ := exists_lines (takeBytes offset source.toList)
  have shown : lineText source offset <+: lastLine (takeBytes offset source.toList) ++
      (dropBytes offset source.toList).takeWhile (· != '\n') :=
    List.rdropWhile_prefix (p := (· == '\r')) _
  intro mem
  rcases List.mem_append.1 (shown.subset mem) with mem | mem
  · exact «open» mem
  · simpa using List.mem_takeWhile_imp mem

theorem toList_snippet (severity : Severity) (source : String) (span : Span) :
    let number := toString (lineColumn source span.start).1
    let blank := ' ' :: List.replicate number.length ' '
    let text := lineText source span.start
    let column := (lineColumn source span.start).2
    (snippet false severity source span).toList = blank ++ [' ', '|'] ++
      '\n' :: (' ' :: number.toList ++ [' ', '|', ' '] ++ text) ++
      '\n' :: (blank ++ [' ', '|', ' '] ++ List.replicate (column - 1) ' ' ++
        List.replicate (caretCount text column span) '^') ++ ['\n'] := by
  simp [snippet, styled, toList_pushn]

/-- A report about a span has the snippet in it. -/
theorem exists_render_eq {d : Diagnostic} (isSpan : d.span = some span) (path : Option String)
    (source : String) : ∃ above below,
      d.render false ⟨some source, path⟩ =
        above ++ snippet false d.severity source span ++ below := by
  obtain ⟨above, location⟩ : ∃ above, d.location false ⟨some source, path⟩ =
      above ++ snippet false d.severity source span := by
    rw [Diagnostic.location, isSpan]
    exact ⟨_, rfl⟩
  refine ⟨d.severity.title ++ ("[" ++ d.code.label ++ "]") ++ ": " ++ d.message ++ "\n" ++ above,
    String.join ((d.code.category.title :: d.notes).map (remark false .bold "note")) ++
      String.join (d.help.map (remark false .green "help")), ?_⟩
  rw [Diagnostic.render, location]
  simp only [styled, Bool.false_eq_true, if_false, String.append_assoc]

theorem underlined_render {d : Diagnostic} (isSpan : d.span = some span) (path : Option String)
    (source : String) :
    Underlined (d.render false ⟨some source, path⟩) (lineText source span.start)
      ((lineColumn source span.start).2 - 1)
      (caretCount (lineText source span.start) (lineColumn source span.start).2 span) := by
  obtain ⟨above, below, report⟩ := exists_render_eq isSpan path source
  have digits : '\n' ∉ (toString (lineColumn source span.start).1).toList := by
    intro mem
    rw [Nat.toString_eq_repr, Nat.toList_repr] at mem
    exact absurd (Number.isDigit_of_mem_toDigits mem) (by decide)
  rw [Underlined, report, String.toList_append, String.toList_append, toList_snippet]
  generalize toString (lineColumn source span.start).1 = number at digits ⊢
  refine ⟨above.toList ++ (' ' :: List.replicate number.length ' ' ++ [' ', '|']),
    ' ' :: number.toList ++ [' ', '|', ' '],
    ' ' :: List.replicate number.length ' ' ++ [' ', '|', ' '], below.toList,
    by simp, by simp [String.length_toList], ?_, by simp, by simp⟩
  simp [digits, break_not_mem_lineText]

/-- The underline in a report begins under the first character of the span. It is as long as the
characters of the span on its line, without the carriage returns at the end, and one caret at the
least, but for one more caret for each byte that these characters have beyond the first, up to the
end of the line. So it covers the span and no more exactly if the line ends in the span or all
characters of the span have one byte. -/
theorem an_underline_covers_its_span_unless_characters_are_wide {d : Diagnostic}
    (path : Option String) (isSpan : d.span = some span) (nonempty : span.start < span.stop)
    (held : span.stop ≤ Span.limit) (fits : Fits source span) :
    let text := lineText source span.start
    let last := shownEnd source span.start
    let before := charactersBetween source
      (lineStart source ((lineColumn source span.start).1 - 1)) span.start
    let covered := max 1 (charactersBetween source span.start (min span.stop last))
    let further := min (charactersBetween source span.stop last)
      (span.length - charactersBetween source span.start span.stop)
    Underlined (d.render false ⟨some source, path⟩) text before (covered + further) ∧
      (∀ c ∈ text[before]?, (dropBytes span.start source.toList).head? = some c) ∧
      (further = 0 ↔
        last ≤ span.stop ∨ charactersBetween source span.start span.stop = span.length) := by
  intro text last before covered further
  obtain ⟨carets, exact⟩ := caretCount_eq nonempty held fits
  have column := column_eq fits.start (nonempty.trans_le held)
  have under := underlined_render isSpan path source
  have first := lineText_column fits.start (nonempty.trans_le held)
  rw [carets, column] at under
  rw [column] at first
  exact ⟨under, first, exact⟩

/-- The span of the sum has one wide character in it and is followed by a comment, so there are
eight carets for its seven characters. -/
theorem eight_carets_under_seven_characters :
    let source := "show \"é\" - 1 // no number"
    let span : Span := ⟨5, 13⟩
    let d : Diagnostic := { code := .wrongOperand, message := "no number", span := some span }
    d.span = some span ∧ span.start < span.stop ∧ span.stop ≤ Span.limit ∧ Fits source span ∧
      charactersBetween source 5 13 = 7 ∧
      Underlined (d.render false ⟨some source, none⟩) source.toList 5 8 := by
  intro source span d
  have fits : Fits source span := by
    refine ⟨by decide, by decide, ?_, ?_⟩
    · exact ⟨source.toList.take 5, source.toList.drop 5, by decide +kernel, by decide +kernel⟩
    · exact ⟨source.toList.take 12, source.toList.drop 12, by decide +kernel, by decide +kernel⟩
  obtain ⟨under, -, -⟩ := an_underline_covers_its_span_unless_characters_are_wide (d := d) none rfl
    (by decide) (by decide) fits
  refine ⟨rfl, by decide, by decide, fits, by decide +kernel, ?_⟩
  have text : lineText source span.start = source.toList := by decide +kernel
  have start : lineStart source ((lineColumn source span.start).1 - 1) = 0 := by decide +kernel
  have last : shownEnd source span.start = 26 := by decide +kernel
  have before : charactersBetween source 0 span.start = 5 := by decide +kernel
  have covered : charactersBetween source span.start (min span.stop 26) = 7 := by decide +kernel
  have behind : charactersBetween source span.stop 26 = 13 := by decide +kernel
  have inSpan : charactersBetween source span.start span.stop = 7 := by decide +kernel
  have length : span.length = 8 := rfl
  rw [text, start, last, before, covered, behind, inSpan, length] at under
  exact under

end BraceScript
