-- A session that is given the lines of a program does what the program does as
-- a whole: each time its braces are closed again it runs what has come in since
-- the last time, and all these inputs together are the program.
import BraceScript.Proofs.Grammar.Breaks
import BraceScript.Proofs.Run.Normal
import BraceScript.Proofs.Run.UpToPlaces
import BraceScript.Proofs.Session.Braces

namespace BraceScript

open Grammar

/-! ## Lines -/

/-- The lines of a text: what stands between its line breaks. -/
def textLines (source : String) : List String := (source.toList.splitOn '\n').map String.ofList

/-- A line that is not looked at further while no block is open: blanks, or a command. -/
def isAside (line : String) : Bool :=
  (Text.trim line).isEmpty || (Text.trim line).startsWith "."

/-- Only blanks are cut off. -/
theorem exists_trim (line : String) : ∃ front behind,
    line.toList = front ++ ((Text.trim line).toList ++ behind) ∧
      (∀ c ∈ front, Text.isBlank c = true) ∧ ∀ c ∈ behind, Text.isBlank c = true := by
  refine ⟨line.toList.takeWhile Text.isBlank,
    ((line.toList.dropWhile Text.isBlank).reverse.takeWhile Text.isBlank).reverse, ?_, ?_, ?_⟩
  · rw [Text.trim, String.toList_ofList, ← List.reverse_append, List.takeWhile_append_dropWhile,
      List.reverse_reverse, List.takeWhile_append_dropWhile]
  · exact List.all_eq_true.1 List.all_takeWhile
  · intro c hc
    exact List.all_eq_true.1 List.all_takeWhile c (List.mem_reverse.1 hc)

/-- Within a program there are no commands where no block is open: asides are fillers there. -/
theorem fillers_of_isAside {line : String} {rest : List Char} (aside : isAside line = true)
    (clean : ∀ e, .mistake e ∉ scanFrom 0 (line.toList ++ rest)) :
    (Text.trim line).isEmpty = true ∧ ∀ c ∈ line.toList, isFiller c = true := by
  obtain ⟨front, behind, whole, hfront, hbehind⟩ := exists_trim line
  rw [isAside, Bool.or_eq_true] at aside
  rcases aside with blank | point
  · refine ⟨blank, fillers_of_blank ?_ clean⟩
    have : (Text.trim line).toList = [] := by simpa using blank
    rw [this, List.nil_append] at whole
    rw [whole]
    intro c hc
    exact (List.mem_append.1 hc).elim (hfront c) (hbehind c)
  · obtain ⟨more, hmore⟩ := String.startsWith_string_iff.1 point
    rw [whole, List.append_assoc] at clean
    refine absurd ?_ (not_point_behind_blanks hfront clean)
    rw [← hmore]
    rfl

namespace Session

/-- The input that a line makes a session run, if it makes it run any. -/
def input? (s : Session) (line : String) : Option String :=
  let source := s.pending ++ line ++ "\n"
  if s.pending.isEmpty && isAside line then none
  else if 0 < openBraces source then none
  else some source

/-- Takes lines one after the other, and answers each of them. -/
def feedEach (host : Host) (shown : Files) :
    Session → List String → Except Break (Session × List Chunk × List Reply)
  | s, [] => return (s, [], [])
  | s, line :: lines => do
    let (next, chunks, reply) ← s.feed host shown line
    let (last, more, replies) ← feedEach host shown next lines
    return (last, chunks ++ more, reply :: replies)

/-- If the input is a program at all, it comes to its end without a fault. -/
def EndsWell (host : Host) (st : State) (input : String) : Prop :=
  ∀ ss, parse input = .ok ss →
    ∃ ran, (runSource host patience input none).perform st = .ok ran ∧ ran.fault = none

/-- Whatever the lines make the session run ends well. -/
def RunsWell (host : Host) (shown : Files) : Session → List String → Prop
  | _, [] => True
  | s, line :: lines =>
    (∀ input ∈ s.input? line, EndsWell host s.state input) ∧
    match s.feed host shown line with
    | .ok (next, _, _) => RunsWell host shown next lines
    | .error _ => True

instance (host : Host) (st : State) (input : String) : Decidable (EndsWell host st input) :=
  match hparse : parse input, hrun : (runSource host patience input none).perform st with
  | .error _, _ => isTrue fun ss h => by simp [hparse] at h
  | .ok _, .ok ran =>
    if well : ran.fault = none then isTrue fun _ _ => ⟨ran, hrun, well⟩
    else isFalse fun h => by
      obtain ⟨ran', hran, fine⟩ := h _ hparse
      rw [hrun] at hran
      cases hran
      exact well fine
  | .ok _, .error _ => isFalse fun h => by
      obtain ⟨ran, hran, -⟩ := h _ hparse
      rw [hrun] at hran
      cases hran

instance decidableRunsWell (host : Host) (shown : Files) :
    (s : Session) → (lines : List String) → Decidable (RunsWell host shown s lines)
  | _, [] => isTrue trivial
  | s, line :: lines =>
    have : Decidable (match s.feed host shown line with
        | .ok (next, _, _) => RunsWell host shown next lines
        | .error _ => True) :=
      match s.feed host shown line with
      | .ok (next, _, _) => decidableRunsWell host shown next lines
      | .error _ => isTrue trivial
    inferInstanceAs (Decidable ((∀ input ∈ s.input? line, EndsWell host s.state input) ∧ _))

variable {host : Host} {shown : Files} {s : Session} {line : String}

/-! ### What a line does -/

theorem feed_blank (fresh : s.pending = "") (blank : (Text.trim line).isEmpty = true) :
    s.feed host shown line = .ok (s, [], .done) := by
  unfold feed
  simp only [fresh, blank]
  rfl

theorem RunsWell.next {next : Session} {chunks : List Chunk} {reply : Reply} {lines : List String}
    (well : s.RunsWell host shown (line :: lines))
    (fed : s.feed host shown line = .ok (next, chunks, reply)) :
    next.RunsWell host shown lines := by
  have := well.2
  rwa [fed] at this

/-- What is no aside goes with what is pending, and is run once no block is open. -/
theorem feed_text (text : (s.pending.isEmpty && isAside line) = false) :
    s.feed host shown line =
      if 0 < openBraces (s.pending ++ line ++ "\n") then
        .ok ({ s with pending := s.pending ++ line ++ "\n" }, [], .incomplete)
      else do
        let (next, chunks) ←
          execute host shown { s with pending := "" } (s.pending ++ line ++ "\n")
        return (next, chunks, .done) := by
  have notBlank : (s.pending.isEmpty && (Text.trim line).isEmpty) = false := by
    cases h : s.pending.isEmpty <;> simp_all [isAside]
  have noPoint : (s.pending.isEmpty && (Text.trim line).startsWith ".") = false := by
    cases h : s.pending.isEmpty <;> simp_all [isAside]
  have noCommand (command : String) (point : command.startsWith "." = true) :
      (s.pending.isEmpty && decide (Text.trim line = command)) = false := by
    rw [Bool.and_eq_false_iff] at noPoint ⊢
    refine noPoint.imp_right fun h => decide_eq_false ?_
    rintro rfl
    simp [point] at h
  have exit : (s.pending.isEmpty && (decide (Text.trim line = ".exit") ||
      decide (Text.trim line = ".quit"))) = false := by
    rw [Bool.and_or_distrib_left, noCommand ".exit" (by decide +kernel),
      noCommand ".quit" (by decide +kernel)]
    rfl
  unfold feed
  simp only [notBlank, exit, noCommand ".help" (by decide +kernel), noPoint]
  rfl

end Session

/-! ## Programs -/

variable {source : String} {ss : List Stmt} {a b : List Char}

theorem toList_pushBreak (source : String) : (source ++ "\n").toList = source.toList ++ ['\n'] := by
  rw [String.toList_append]
  rfl

theorem ofList_pushBreak (source : String) :
    String.ofList (source.toList ++ ['\n']) = source ++ "\n" := by
  rw [← toList_pushBreak, String.ofList_toList]

/-- A line break behind a program changes nothing. -/
theorem ProgramAt.pushBreak (program : ProgramAt source ss) : ProgramAt (source ++ "\n") ss := by
  obtain ⟨ts, hts, hss⟩ := program
  refine ⟨ts, ?_, hss⟩
  rw [TokensAt, toList_pushBreak, hts.scanFrom_break]
  simp [scanFrom]

/-- A line of fillers is a program that does nothing. -/
theorem parse_fillers (fillers : ∀ c ∈ a, isFiller c = true) :
    parse (String.ofList a) = .ok [] := by
  have none : ProgramAt (String.ofList a) [] := by
    refine ⟨[], ?_, .nil⟩
    have := scanFrom_fillers 0 fillers []
    rw [List.append_nil] at this
    rw [TokensAt, String.toList_ofList, this]
    simp [scanFrom]
  exact none.parse_eq

/-- Each line break of the text stands within braces, or outside of these statements. -/
def BreaksOutside (source : String) (ss : List Stmt) : Prop :=
  ∀ a b, source.toList = a ++ '\n' :: b →
    0 < bracesBefore source (byteLength a) ∨ Outside ss (byteLength a)

/-- Each line break of the program stands within braces, or outside of its statements. -/
def BreaksApart (source : String) : Prop := ∀ ss, ProgramAt source ss → BreaksOutside source ss

/-- At no line break are more blocks open than a session can count. -/
def Shallow (source : String) : Prop :=
  ∀ a b, source.toList = a ++ '\n' :: b → bracesBefore source (byteLength a) ≤ Int32.maxValue.toInt

theorem breaksOutside_iff : BreaksOutside source ss ↔
    ∀ n < source.toList.length, source.toList[n]? = some '\n' →
      0 < bracesBefore source (byteLength (source.toList.take n)) ∨
        Outside ss (byteLength (source.toList.take n)) := by
  constructor
  · intro apart n hn hbreak
    apply apart _ (source.toList.drop (n + 1))
    rw [List.getElem?_eq_getElem hn, Option.some.injEq] at hbreak
    rw [← hbreak, List.getElem_cons_drop, List.take_append_drop]
  · intro apart a b h
    have := apart a.length (by simp [h]) (by simp [h])
    rwa [h, List.take_left] at this

instance : Decidable (BreaksOutside source ss) := decidable_of_iff _ breaksOutside_iff.symm

theorem bracesBefore_behind (program : ProgramAt source ss) (h : source.toList = a ++ '\n' :: b)
    (outside : Outside ss (byteLength a)) (offset : Nat) :
    bracesBefore source (offset + (byteLength a + 1)) =
      bracesBefore (String.ofList b) offset := by
  have scanned := scanFrom_break_outside program h outside
  have moved := scanFrom_add 0 (byteLength a + 1) b
  obtain ⟨ss₁, ss₂, ⟨ts, hts, hss⟩, -, -⟩ := program.split_break h outside
  have balanced := hts.braces_of_program hss
  rw [String.toList_ofList, scanned] at balanced
  have left : ∀ item ∈ scanFrom 0 a, item.span.stop ≤ offset + (byteLength a + 1) :=
    fun item hitem => by
      have := stop_of_mem_scanFrom hitem
      omega
  rw [Nat.zero_add] at moved
  rw [bracesBefore, bracesBefore, h, String.toList_ofList, scanned, moved,
    List.filter_append, List.filter_eq_self.2 (by simpa using left), List.filter_map,
    braces_append, braces_move]
  have same : (fun item => decide (item.span.stop ≤ offset + (byteLength a + 1))) ∘
      Item.move (· + (byteLength a + 1)) = fun item => decide (item.span.stop ≤ offset) := by
    funext item
    simp only [Function.comp_apply, Item.span_move, Span.move]
    exact decide_eq_decide.2 (by omega)
  simp only [scanFrom, List.append_nil] at balanced
  rw [balanced, same, Int.zero_add]

theorem byteLength_behind (a a' : List Char) :
    byteLength (a ++ '\n' :: a') = byteLength a' + (byteLength a + 1) := by
  have : '\n'.utf8Size = 1 := rfl
  simp only [byteLength_append, byteLength_cons]
  omega

theorem BreaksOutside.behind {ss₁ ss₂ : List Stmt} (apart : BreaksOutside source ss)
    (program : ProgramAt source ss) (h : source.toList = a ++ '\n' :: b)
    (outside : Outside ss (byteLength a))
    (parts : ss = ss₁ ++ ss₂.map (Stmt.move (· + (byteLength a + 1)))) :
    BreaksOutside (String.ofList b) ss₂ := by
  intro a' b' hb
  rw [String.toList_ofList] at hb
  have whole : source.toList = (a ++ '\n' :: a') ++ '\n' :: b' := by simp [h, hb]
  rcases apart _ _ whole with inside | outside'
  · rw [byteLength_behind, bracesBefore_behind program h outside] at inside
    exact Or.inl inside
  · apply Or.inr
    intro s hs
    have := outside' (s.move (· + (byteLength a + 1))) (by
      rw [parts]
      exact List.mem_append_right _ (List.mem_map_of_mem hs))
    rw [byteLength_behind, Stmt.span_move] at this
    simp only [Span.move] at this
    omega

theorem Shallow.behind (shallow : Shallow source) (program : ProgramAt source ss)
    (h : source.toList = a ++ '\n' :: b) (outside : Outside ss (byteLength a)) :
    Shallow (String.ofList b) := by
  intro a' b' hb
  rw [String.toList_ofList] at hb
  have few := shallow (a ++ '\n' :: a') b' (by simp [h, hb])
  rwa [byteLength_behind, bracesBefore_behind program h outside] at few

/-- Where a session counts no open brace, a line break stands outside of the statements. -/
theorem BreaksOutside.outside (apart : BreaksOutside source ss) (shallow : Shallow source)
    (h : source.toList = a ++ '\n' :: b)
    (closed : ¬ 0 < openBraces (String.ofList (a ++ ['\n']))) : Outside ss (byteLength a) := by
  refine (apart a b h).resolve_left fun inside => closed ?_
  have few := shallow a b h
  have low : Int32.minValue.toInt ≤ 0 := by decide
  have low : Int32.minValue.toInt ≤ bracesBefore source (byteLength a) := by omega
  rwa [openBraces_break h, bmod_eq_self_iff.2 ⟨low, few⟩]

/-- In a text of less than 2^31 bytes there are not that many braces. -/
theorem shallow_of_le (short : source.utf8ByteSize ≤ Int32.maxValue.toInt) :
    Shallow source := by
  intro a b _
  have items := length_scanFrom_le 0 source.toList
  have some := List.length_filter_le (fun item : Item => decide (item.span.stop ≤ byteLength a))
    (scanFrom 0 source.toList)
  have left := List.countP_le_length (p := Item.isSign .leftBrace)
    (l := (scanFrom 0 source.toList).filter fun item => item.span.stop ≤ byteLength a)
  rw [byteLength_toList] at items
  rw [bracesBefore, braces_eq_countP]
  omega

/-! ## Running rows -/

variable {host : Host} {st mid last : State}

theorem block_of_perform {ran : Ran} (program : parse source = .ok ss)
    (h : (runSource host patience source none).perform st = .ok ran) (well : ran.fault = none) :
    (evaluator host patience).block ss { st with output := #[] } = .ok .normal ran.state ∧
      ran.events = ran.state.output.toList := by
  obtain ⟨ts, -, hss⟩ := (parse_eq_ok_iff source ss).1 program
  have normal : ((evaluator host patience).block ss).EndsNormally :=
    endsNormally_of_program hss patience
  simp only [runSource, program, Exec.perform, Exec.bind_apply] at h
  cases hrun : (evaluator host patience).block ss { st with output := #[] } with
  | ok flow final =>
    rw [hrun] at h
    cases h
    cases flow with
    | normal => exact ⟨rfl, rfl⟩
    | returned v => exact absurd hrun (normal _ _ _)
  | failed f final =>
    rw [hrun] at h
    cases h
    cases well
  | broken reason =>
    rw [hrun] at h
    cases h

theorem perform_of_block (program : parse source = .ok ss)
    (h : (evaluator host patience).block ss { st with output := #[] } = .ok .normal last) :
    (runSource host patience source none).perform st = .ok ⟨last, last.output.toList, none⟩ := by
  simp only [runSource, program, Exec.perform, Exec.bind_apply, h, Exec.pure_apply]

/-- What two rows do one after the other is what they do as one row, wherever the second one
stands. -/
theorem block_behind {fuel : Nat} {ss₁ ss₂ : List Stmt} (g : Nat → Nat)
    (h₁ : (evaluator host fuel).block ss₁ st = .ok .normal mid)
    (h₂ : (evaluator host fuel).block ss₂ { mid with output := #[] } = .ok .normal last) :
    ∃ final, (evaluator host fuel).block (ss₁ ++ ss₂.map (Stmt.move g)) st = .ok .normal final ∧
      State.Follows mid.output last final := by
  have related : State.Follows mid.output { mid with output := #[] } mid :=
    ⟨⟨rfl, rfl, rfl⟩, by simp⟩
  have bare : ss₂.map Stmt.bare = (ss₂.map (Stmt.move g)).map Stmt.bare := by
    simp
  have both := inStep_of_bare host fuel mid.output bare _ _ related
  rw [h₂] at both
  rw [block_append, h₁]
  change ∃ final, (evaluator host fuel).block (ss₂.map (Stmt.move g)) mid = _ ∧ _
  generalize (evaluator host fuel).block (ss₂.map (Stmt.move g)) mid = o at both
  cases both with
  | ok related => exact ⟨_, rfl, related⟩

/-! ## Line by line -/

variable {shown : Files} {s next : Session} {line : String} {lines : List String}

namespace Session

theorem execute_of_perform {ran : Ran} {input : String}
    (h : (runSource host patience input none).perform s.state = .ok ran) (well : ran.fault = none) :
    s.execute host shown input =
      .ok ({ s with state := ran.state }, ran.events.map Chunk.event) := by
  obtain ⟨state, events, fault⟩ := ran
  cases well
  simp [execute, h, Bind.bind, Except.bind, Pure.pure, Except.pure]

/-- The lines make the session do what the statements do: print the same, and end in the same
state up to places. No line ends the session, and nothing is pending behind the last one. -/
def LinesDo (host : Host) (shown : Files) (s : Session) (lines : List String) (ss : List Stmt) :
    Prop :=
  ∃ last chunks replies final, s.feedEach host shown lines = .ok (last, chunks, replies) ∧
    (evaluator host patience).block ss { s.state with output := #[] } = .ok .normal final ∧
    chunks = final.output.toList.map Chunk.event ∧ last.state.SameUpToPlaces final ∧
    last.pending = "" ∧ .exit ∉ replies ∧ replies.getLast? = some .done

/-- A line that leaves a block open does nothing yet. -/
theorem linesDo_incomplete (fed : s.feed host shown line = .ok (next, [], .incomplete))
    (state : next.state = s.state)
    (rest : next.LinesDo host shown lines ss) :
    s.LinesDo host shown (line :: lines) ss := by
  obtain ⟨last, chunks, replies, final, hrest, hrun, hchunks, same, pending, exit, done⟩ := rest
  refine ⟨last, chunks, .incomplete :: replies, final, ?_, state ▸ hrun, hchunks, same, pending,
    by simpa using exit, by simp [List.getLast?_cons, done]⟩
  simp only [feedEach, fed, Bind.bind, Except.bind, hrest, List.nil_append]
  rfl

/-- A line that has been run is followed by what the others do. -/
theorem linesDo_done {ss₁ ss₂ : List Stmt} {chunks : List Chunk} (g : Nat → Nat)
    (fed : s.feed host shown line = .ok (next, chunks, .done))
    (hrun : (evaluator host patience).block ss₁ { s.state with output := #[] } = .ok .normal mid)
    (hchunks : chunks = mid.output.toList.map Chunk.event)
    (state : { next.state with output := #[] } = { mid with output := #[] })
    (rest : next.LinesDo host shown lines ss₂) :
    s.LinesDo host shown (line :: lines) (ss₁ ++ ss₂.map (Stmt.move g)) := by
  obtain ⟨last, more, replies, final, hrest, hmore, rfl, same, pending, exit, done⟩ := rest
  rw [state] at hmore
  obtain ⟨whole, hwhole, related⟩ := block_behind g hrun hmore
  refine ⟨last, chunks ++ final.output.toList.map Chunk.event, .done :: replies, whole, ?_, hwhole,
    ?_, same.trans related.same, pending, by simpa using exit,
    by simp [List.getLast?_cons, done]⟩
  · simp only [feedEach, fed, Bind.bind, Except.bind, hrest]
    rfl
  · rw [hchunks, related.output, Array.toList_append, List.map_append]

/-- What the session passes over at the front of a program are blanks, and they do nothing. -/
theorem blank_of_aside {rest : List Char} (program : parse source = .ok ss)
    (whole : source.toList = (s.pending ++ line).toList ++ rest)
    (aside : (s.pending.isEmpty && isAside line) = true) :
    s.pending = "" ∧ (Text.trim line).isEmpty = true ∧
      parse (s.pending ++ line ++ "\n") = .ok [] := by
  rw [Bool.and_eq_true] at aside
  have fresh : s.pending = "" := by simpa using aside.1
  obtain ⟨ts, hts, -⟩ := (parse_eq_ok_iff source ss).1 program
  have clean := not_mistake_mem hts
  rw [whole, fresh, String.empty_append] at clean
  obtain ⟨blank, fillers⟩ := fillers_of_isAside aside.2 clean
  refine ⟨fresh, blank, ?_⟩
  rw [fresh, String.empty_append, ← ofList_pushBreak]
  apply parse_fillers
  intro c hc
  rcases List.mem_append.1 hc with hc | hc
  · exact fillers c hc
  · rw [List.mem_singleton.1 hc]
    rfl

/-- A line of a program behind which a block is open is kept for later. -/
theorem feed_open {rest : List Char} (program : parse source = .ok ss)
    (whole : source.toList = (s.pending ++ line).toList ++ rest)
    (open_ : 0 < openBraces (s.pending ++ line ++ "\n")) :
    s.feed host shown line =
      .ok ({ s with pending := s.pending ++ line ++ "\n" }, [], .incomplete) := by
  have text : (s.pending.isEmpty && isAside line) = false := by
    apply Bool.eq_false_iff.2
    intro aside
    obtain ⟨-, -, none⟩ := blank_of_aside program whole aside
    have := openBraces_of_program none
    omega
  rw [feed_text text, if_pos open_]

/-- A line that closes the last block makes the session do what has come in up to there. -/
theorem feed_closed (program : parse (s.pending ++ line ++ "\n") = .ok ss)
    (well : s.RunsWell host shown (line :: lines)) :
    ∃ next mid, s.feed host shown line =
        .ok (next, mid.output.toList.map Chunk.event, .done) ∧
      (evaluator host patience).block ss { s.state with output := #[] } = .ok .normal mid ∧
      { next.state with output := #[] } = { mid with output := #[] } ∧ next.pending = "" := by
  cases text : s.pending.isEmpty && isAside line with
  | true =>
    obtain ⟨fresh, blank, none⟩ := blank_of_aside program (toList_pushBreak _) text
    cases program.symm.trans none
    exact ⟨s, { s.state with output := #[] }, feed_blank fresh blank, rfl, rfl, fresh⟩
  | false =>
    have closed : ¬ 0 < openBraces (s.pending ++ line ++ "\n") := by
      rw [openBraces_of_program program]
      decide
    have executed : s.input? line = some (s.pending ++ line ++ "\n") := by
      simp only [input?, text, closed]
      rfl
    obtain ⟨ran, hran, fine⟩ := well.1 _ executed ss program
    obtain ⟨hrun, hevents⟩ := block_of_perform program hran fine
    have hexecute : { s with pending := "" }.execute host shown (s.pending ++ line ++ "\n") =
        .ok ({ s with pending := "", state := ran.state }, ran.events.map Chunk.event) :=
      execute_of_perform hran fine
    refine ⟨{ s with pending := "", state := ran.state }, ran.state, ?_, hrun, rfl, rfl⟩
    rw [feed_text text, if_neg closed, hexecute, hevents]
    rfl

/-- The last line of a program. -/
theorem linesDo_last (program : ProgramAt source ss) (whole : s.pending ++ line = source)
    (well : s.RunsWell host shown [line]) :
    s.LinesDo host shown [line] (ss.map (Stmt.move Span.hold)) := by
  subst whole
  obtain ⟨next, mid, fed, hrun, state, pending⟩ := feed_closed program.pushBreak.parse_eq well
  refine ⟨next, _, [.done], mid, ?_, hrun, rfl, .of_output state, pending, by simp, rfl⟩
  simp only [feedEach, fed, Bind.bind, Except.bind, Pure.pure, Except.pure, List.append_nil]

/-- The lines of a program make a session do what the program does. -/
theorem linesDo_of_program (some : lines ≠ []) (program : ProgramAt source ss)
    (apart : BreaksOutside source ss) (shallow : Shallow source)
    (whole : source.toList = s.pending.toList ++ ['\n'].intercalate (lines.map String.toList))
    (well : s.RunsWell host shown lines) :
    s.LinesDo host shown lines (ss.map (Stmt.move Span.hold)) := by
  induction lines generalizing s source ss with
  | nil => exact absurd rfl some
  | cons line lines ih =>
    by_cases last : lines = []
    · subst last
      refine linesDo_last program ?_ well
      rw [← String.toList_inj, whole, String.toList_append]
      simp
    let b := ['\n'].intercalate (lines.map String.toList)
    have h : source.toList = (s.pending ++ line).toList ++ '\n' :: b := by
      rw [whole, List.map_cons, List.intercalate_cons_of_ne_nil (by simpa using last)]
      simp [b]
    by_cases closed : 0 < openBraces (s.pending ++ line ++ "\n")
    · have fed : s.feed host shown line =
          .ok ({ s with pending := s.pending ++ line ++ "\n" }, [], .incomplete) :=
        feed_open program.parse_eq h closed
      have rest := ih last program apart shallow (by simp [h, b]) (well.next fed)
      exact linesDo_incomplete fed rfl rest
    · have outside := apart.outside shallow h (by rwa [ofList_pushBreak])
      obtain ⟨ss₁, ss₂, program₁, program₂, parts⟩ := program.split_break h outside
      rw [ofList_pushBreak] at program₁
      obtain ⟨next, mid, fed, hrun, state, pending⟩ := feed_closed program₁.parse_eq well
      rw [parts, List.map_append, hold_moved]
      refine linesDo_done _ fed hrun rfl state (ih last program₂ ?_ ?_ ?_ (well.next fed))
      · exact apart.behind program h outside parts
      · exact shallow.behind program h outside
      · simp [b, pending]

end Session

/-- If each line break of a program stands within braces or outside of its statements, a
session that is given its lines prints what the program prints as a whole, and ends in the same
state but for the places in the bodies of functions, provided that nothing it runs fails, and that
there are never as many blocks open as its count cannot hold. It does not end before the last line,
and behind that nothing is pending. -/
theorem a_session_does_what_the_whole_text_does {source : String} {ss : List Stmt}
    (program : parse source = .ok ss) (apart : BreaksApart source) (shallow : Shallow source)
    (fresh : s.pending = "") (well : s.RunsWell host shown (textLines source)) :
    ∃ last chunks replies ran,
      s.feedEach host shown (textLines source) = .ok (last, chunks, replies) ∧
      (runSource host patience source none).perform s.state = .ok ran ∧ ran.fault = none ∧
      chunks = ran.events.map Chunk.event ∧ last.state.SameUpToPlaces ran.state ∧
      last.pending = "" ∧ .exit ∉ replies ∧ replies.getLast? = some .done := by
  obtain ⟨exact_, found, rfl⟩ := programAt_of_parse program
  have some : textLines source ≠ [] := by
    rw [textLines, ne_eq, List.map_eq_nil_iff]
    exact List.splitOn_ne_nil _ _
  have whole : source.toList =
      s.pending.toList ++ ['\n'].intercalate ((textLines source).map String.toList) := by
    have back : String.toList ∘ String.ofList = id := funext fun _ => String.toList_ofList
    rw [textLines, List.map_map, back, List.map_id, fresh, List.intercalate_splitOn]
    rfl
  obtain ⟨last, chunks, replies, final, hfed, hrun, hchunks, same, pending, exit, done⟩ :=
    Session.linesDo_of_program some found (apart _ found) shallow whole well
  exact ⟨last, chunks, replies, _, hfed, perform_of_block program hrun, rfl, hchunks, same,
    pending, exit, done⟩

/-- The first four lines are run at once, when the block is closed; neither the blank line in it
nor the brace in quotes ends it. -/
theorem a_session_over_a_function_and_two_calls : ∃ last ran,
    (Session.start State.initial .never).feedEach ⟨Files.inMemory, none⟩ Files.inMemory
      (textLines "func f() \x7b\n\n  show \"\x7d\"\n\x7d f()\nf()") =
        .ok (last, [.event ⟨.info, "\x7d"⟩, .event ⟨.info, "\x7d"⟩],
          [.incomplete, .incomplete, .incomplete, .done, .done]) ∧
    last.state.SameUpToPlaces ran := by
  let source := "func f() \x7b\n\n  show \"\x7d\"\n\x7d f()\nf()"
  let host : Host := ⟨Files.inMemory, none⟩
  let s := Session.start State.initial .never
  let ss := (parse source).toOption.getD []
  have program : parse source = .ok ss := by
    have parses : (parse source).isOk = true := by decide +kernel
    simp only [ss]
    cases h : parse source with
    | ok ss => rfl
    | error e =>
      rw [h] at parses
      cases parses
  have small : source.utf8ByteSize ≤ Int32.maxValue.toInt := by decide +kernel
  have outside : BreaksOutside source ss := by decide +kernel
  have apart : BreaksApart source := fun ss' found => by
    have short : source.utf8ByteSize ≤ Span.limit := by decide +kernel
    rwa [found.unique ((parse_eq_ok_iff_programAt short).1 program)]
  have well : s.RunsWell host Files.inMemory (textLines source) := by decide +kernel
  obtain ⟨last, chunks, replies, ran, hfed, hran, -, rfl, same, -, -, -⟩ :=
    a_session_does_what_the_whole_text_does program apart (shallow_of_le small) rfl well
  have events : ((runSource host patience source none).perform s.state).toOption.map Ran.events =
      some [⟨.info, "\x7d"⟩, ⟨.info, "\x7d"⟩] := by decide +kernel
  have answers : (s.feedEach host Files.inMemory (textLines source)).toOption.map (·.2.2) =
      some [.incomplete, .incomplete, .incomplete, .done, .done] := by decide +kernel
  rw [hran, Except.toOption, Option.map_some, Option.some.injEq] at events
  rw [hfed, Except.toOption, Option.map_some, Option.some.injEq] at answers
  obtain rfl : replies = _ := answers
  rw [events] at hfed
  exact ⟨last, ran.state, hfed, same⟩

end BraceScript
