-- Which text a fault belongs to. A fault is attributed to the file connected
-- last, or to the main source, but its span is one of the text in which the
-- failing node was written. The two agree unless the node stands in the body
-- of a function that was written in another text.
import BraceScript.Proofs.Environment.Changes
import BraceScript.Proofs.Grammar.Refusals
import BraceScript.Proofs.Run.Blame

namespace BraceScript

variable {α : Type} {host : Host} {ev : Evaluator} {home : Home} {known : String → Prop}
  {st st' : State} {e e' : Environment}

/-! ## Where functions come from -/

/-- All of the body stands in the tree of the text. -/
def Function.WrittenIn (f : Function) (source : String) : Prop :=
  ∀ s ∈ f.body, (Node.stmt s).WrittenIn source

/-- Every function was written in a text that is known. -/
def State.Traceable (known : String → Prop) (st : State) : Prop :=
  ∀ entry ∈ st.env.functions, ∃ text, known text ∧ entry.2.WrittenIn text

/-- The node stands in a known text, or is one. -/
def Node.Known (known : String → Prop) (n : Node) : Prop :=
  ∃ text, known text ∧ (n = .text text ∨ n.WrittenIn text)

/-- What may be visited stands in one known text, or is one. -/
def Home.Known (known : String → Prop) (home : Home) : Prop :=
  ∃ text, known text ∧ ∀ p ∈ home.nodes, p = .text text ∨ p.WrittenIn text

/-- A function in progress was written in a known text, and a file in progress has one. -/
def Setting.Known (host : Host) (known : String → Prop) : Setting → Prop
  | .call f => ∃ text, known text ∧ f.WrittenIn text
  | .file path => ∃ text, host.files.find? path = some (.text text)
  | .loop _ => True

theorem Node.WrittenIn.within {p q : Node} {source : String} (h : p.WrittenIn source)
    (hq : q.Within p) : q.WrittenIn source := by
  obtain ⟨ss, hss, s, hs, hp⟩ := h
  exact ⟨ss, hss, s, hs, hq.trans hp⟩

theorem Node.writtenIn_of_mem {source : String} {ss : List Stmt} {s : Stmt}
    (hss : parse source = .ok ss) (hs : s ∈ ss) : (Node.stmt s).WrittenIn source :=
  ⟨ss, hss, s, hs, .self⟩

theorem Node.Known.ofNode {n : Node} (h : n.Known known) : (Home.node n).Known known := by
  obtain ⟨text, htext, rfl | hn⟩ := h
  · exact ⟨text, htext, by simp [Home.nodes, Node.parts]⟩
  · exact ⟨text, htext, fun p hp => Or.inr (hn.within (.part hp))⟩

theorem known_home_text {source : String} (h : known source) :
    (Home.text source).Known known := by
  refine ⟨source, h, fun p hp => ?_⟩
  simp only [Home.nodes] at hp
  cases hparse : parse source with
  | ok ss =>
    rw [hparse] at hp
    obtain ⟨s, hs, rfl⟩ := List.mem_map.1 hp
    exact Or.inr (Node.writtenIn_of_mem hparse hs)
  | error e =>
    rw [hparse] at hp
    exact Or.inl (List.mem_singleton.1 hp)

theorem Function.WrittenIn.ofBody {f : Function} {text : String} (htext : known text)
    (h : f.WrittenIn text) : (Home.body f.body).Known known := by
  refine ⟨text, htext, fun p hp => ?_⟩
  obtain ⟨s, hs, rfl⟩ := List.mem_map.1 hp
  exact Or.inr (h s hs)

theorem Home.Known.node {n : Node} (h : home.Known known) (hn : n ∈ home.nodes) :
    n.Known known := by
  obtain ⟨text, htext, hnodes⟩ := h
  exact ⟨text, htext, hnodes n hn⟩

/-! ## Changes of the functions -/

theorem mem_functions_of_defineFunction {f : Function} {entry : String × Function}
    (h : e.defineFunction f = .ok e') (hentry : entry ∈ e'.functions) :
    entry ∈ e.functions ∨ entry.2 = f := by
  unfold Environment.defineFunction at h
  split at h
  · cases h
  · cases h
    rcases List.mem_cons.1 hentry with rfl | hentry
    · exact Or.inr rfl
    · exact Or.inl (List.mem_filter.1 hentry).1

theorem mem_functions_of_deleteFunction {name : String} {entry : String × Function}
    (h : e.deleteFunction name = .ok e') (hentry : entry ∈ e'.functions) :
    entry ∈ e.functions := by
  unfold Environment.deleteFunction at h
  split at h
  · cases h
    simp at hentry
  · split at h
    · cases h
      exact (List.mem_filter.1 hentry).1
    · cases h

theorem Change.traceable (c : Change home st st') (hhome : home.Known known)
    (h : st.Traceable known) : st'.Traceable known := by
  intro entry hentry
  cases c with
  | heap | print => exact h entry hentry
  | declare hd =>
    rw [(Operation.changes_declare hd).functionsApart rfl] at hentry
    exact h entry hentry
  | assign ha =>
    rw [(Operation.changes_assign ha).functionsApart rfl] at hentry
    exact h entry hentry
  | setGlobal _ hs =>
    rw [(Operation.changes_setGlobal hs).functionsApart rfl] at hentry
    exact h entry hentry
  | deleteVariable hd =>
    rw [(Operation.changes_deleteVariable hd).functionsApart rfl] at hentry
    exact h entry hentry
  | @defineFunction f env hbody hd =>
    rcases mem_functions_of_defineFunction hd hentry with hentry | rfl
    · exact h entry hentry
    · obtain ⟨text, htext, hnodes⟩ := hhome
      refine ⟨text, htext, fun s hs => ?_⟩
      rcases hnodes _ (hbody s hs) with heq | written
      · cases heq
      · exact written
  | deleteFunction hd => exact h entry (mem_functions_of_deleteFunction hd hentry)

theorem State.Traceable.function {name : String} {f : Function} (h : st.Traceable known)
    (hf : st.env.function? name = some f) : ∃ text, known text ∧ f.WrittenIn text := by
  obtain ⟨before, after, heq, -⟩ := List.lookup_eq_some_iff.1 hf
  exact h (name, f) (by simp [heq])

/-! ## Along a run -/

/-- A change that keeps the functions keeps where they come from. -/
theorem traceable_change {o : Outcome α} {g : State → State}
    (same : ∀ st, (g st).env.functions = st.env.functions)
    (h : ∀ st ∈ o.state?, st.Traceable known) :
    ∀ st ∈ (o.change g).state?, st.Traceable known := by
  intro st hst entry hentry
  cases o with
  | ok v e =>
    cases hst
    exact h e rfl entry (same e ▸ hentry)
  | failed f e =>
    cases hst
    exact h e rfl entry (same e ▸ hentry)
  | broken reason => cases hst

/-- Whatever is visited is traced back to a known text, and so is what is in progress then. -/
structure Visit.Known (host : Host) (known : String → Prop) (v : Visit) : Prop where
  node : v.node.Known known
  state : v.state.Traceable known
  settings : ∀ s ∈ v.settings, s.Known host known

theorem Visit.Known.inside {v : Visit} {s : Setting} (h : v.Known host known)
    (hs : s.Known host known) : (v.inside s).Known host known := by
  refine ⟨h.node, h.state, fun s' hs' => ?_⟩
  rcases List.mem_append.1 hs' with hs' | hs'
  · exact h.settings s' hs'
  · rw [List.mem_singleton.1 hs']
    exact hs

/-- One level of a run traces everything back. -/
theorem Threads.traceable {vs : List Visit} {o : Outcome Unit}
    (files : ∀ path text, host.files.find? path = some (.text text) → known text)
    (each : ∀ n st, n.Known known → st.Traceable known →
      ∀ st' ∈ (ev.run n st).state?, st'.Traceable known)
    (h : Threads host ev home st vs o) (hhome : home.Known known) (hst : st.Traceable known) :
    (∀ st' ∈ o.state?, st'.Traceable known) ∧ ∀ v ∈ vs, v.Known host known := by
  induction h with
  | done => simpa [Outcome.state?] using hst
  | change c => simpa [Outcome.state?] using c.traceable hhome hst
  | raise => simpa [Outcome.state?] using hst
  | stop => simp [Outcome.state?]
  | @visit home st n hn =>
    refine ⟨each n st (hhome.node hn) hst, fun v hv => ?_⟩
    rw [List.mem_singleton.1 hv]
    exact ⟨hhome.node hn, hst, by simp⟩
  | andThen _ _ ih ih' =>
    obtain ⟨left, first⟩ := ih hhome hst
    obtain ⟨after, second⟩ := ih' hhome (left _ rfl)
    refine ⟨after, fun v hv => ?_⟩
    rcases List.mem_append.1 hv with hv | hv
    · exact first v hv
    · exact second v hv
  | @joined home n st mid f vs o hn hrun _ ih =>
    have left := each n st (hhome.node hn) hst
    rw [hrun] at left
    obtain ⟨after, second⟩ := ih hhome (left _ rfl)
    refine ⟨fun st' hst' => after st' (by cases o <;> exact hst'), fun v hv => ?_⟩
    rcases List.mem_cons.1 hv with rfl | hv
    · exact ⟨hhome.node hn, hst, by simp⟩
    · exact second v hv
  | @call home st mid name f values frame vs ws o hf _ _ _ ih ih' =>
    obtain ⟨text, htext, written⟩ := hst.function hf
    obtain ⟨left, first⟩ := ih hhome hst
    obtain ⟨after, second⟩ := ih' (written.ofBody htext) (left mid rfl)
    refine ⟨traceable_change (fun _ => rfl) after, fun v hv => ?_⟩
    rcases List.mem_append.1 hv with hv | hv
    · exact first v hv
    · obtain ⟨v', hv', rfl⟩ := List.mem_map.1 hv
      exact (second v' hv').inside ⟨text, htext, written⟩
  | @file home st name path source vs o _ _ _ hfile _ ih =>
    obtain ⟨after, inner⟩ := ih (known_home_text (files path source hfile)) hst
    refine ⟨?_, fun v hv => ?_⟩
    · rw [Outcome.state?_refault]
      exact traceable_change (fun _ => rfl) after
    · obtain ⟨v', hv', rfl⟩ := List.mem_map.1 hv
      exact (inner v' hv').inside ⟨source, hfile⟩
  | @loop n st counter value env vs o hset _ ih =>
    have bound : Change (.rounds n counter) st { st with env } := .setGlobal rfl hset
    obtain ⟨after, inner⟩ := ih hhome (bound.traceable hhome hst)
    refine ⟨traceable_change (fun _ => rfl) after, fun v hv => ?_⟩
    obtain ⟨v', hv', rfl⟩ := List.mem_map.1 hv
    exact (inner v' hv').inside trivial

/-- The files hold known texts. -/
def FilesKnown (host : Host) (known : String → Prop) : Prop :=
  ∀ path text, host.files.find? path = some (.text text) → known text

/-- Running a node keeps the functions traceable, and what is in progress where it fails is
traced back too. -/
theorem traceable_run (files : FilesKnown host known) (fuel : Nat) {n : Node}
    (hn : n.Known known) (hst : st.Traceable known) :
    (∀ st' ∈ ((evaluator host fuel).run n st).state?, st'.Traceable known) ∧
      ∀ s ∈ trail host fuel n st, s.Known host known := by
  induction fuel generalizing n st with
  | zero =>
    refine ⟨?_, by simp [trail]⟩
    cases n with
    | text source => cases hp : parse source <;> simpa [Evaluator.run, hp, Outcome.state?] using hst
    | _ => simp [Evaluator.run, evaluator, evalExpr, runStmt, Exec.bind_apply, Exec.stop,
        Outcome.state?]
  | succ fuel ih =>
    obtain ⟨o, threads, hrun⟩ := threads_run host fuel n st
    obtain ⟨after, inner⟩ := threads.traceable files
      (fun n st hn hst => (ih hn hst).1) hn.ofNode hst
    refine ⟨by rwa [hrun, Outcome.state?_refault], ?_⟩
    unfold trail
    cases hfind : (visits host (fuel + 1) n st).find? (Visit.fails host fuel) with
    | none => simp
    | some v =>
      have hv := inner v (List.mem_of_find?_eq_some hfind)
      intro s hs
      rcases List.mem_append.1 hs with hs | hs
      · exact (ih hv.node hv.state).2 s hs
      · exact hv.settings s hs

theorem Source.enter_traceable (source : Source) (h : st.Traceable known) :
    (source.enter host st).Traceable known := by
  unfold enter
  cases source.origin <;> exact h

theorem Source.functions_leave (source : Source) (st : State) :
    (source.leave st).env.functions = st.env.functions := by
  unfold leave
  cases source.origin <;> rfl

theorem Source.traceable_run (files : FilesKnown host known) (fuel : Nat) {source : Source}
    (hsource : known source.text) (hst : st.Traceable known) :
    (∀ st' ∈ (source.run host fuel st).state?, st'.Traceable known) ∧
      ∀ s ∈ source.trail host fuel st, s.Known host known := by
  obtain ⟨o, threads, hrun⟩ := source.threads_run host fuel st
  obtain ⟨after, inner⟩ := threads.traceable files
    (fun n st hn hst => (BraceScript.traceable_run files fuel hn hst).1)
    (known_home_text hsource) (source.enter_traceable hst)
  refine ⟨by rw [hrun]; exact traceable_change source.functions_leave after, ?_⟩
  unfold Source.trail
  cases hfind : (source.visits host fuel st).find? (Visit.fails host fuel) with
  | none => simp
  | some v =>
    have hv := inner v (List.mem_of_find?_eq_some hfind)
    intro s hs
    rcases List.mem_append.1 hs with hs | hs
    · exact (BraceScript.traceable_run files fuel hv.node hv.state).2 s hs
    · exact hv.settings s hs

/-- The state after sources have been run one after the other, unless one was broken off. -/
def sessionState (host : Host) (fuel : Nat) (sources : List Source) (st : State) : Option State :=
  sources.foldlM (fun st source => (source.run host fuel st).state?) st

theorem traceable_sessionState (files : FilesKnown host known) (fuel : Nat)
    {sources : List Source} (hsources : ∀ source ∈ sources, known source.text)
    (hst : st.Traceable known) (h : sessionState host fuel sources st = some st') :
    st'.Traceable known := by
  induction sources generalizing st with
  | nil => cases h; exact hst
  | cons source sources ih =>
    simp only [sessionState, List.foldlM_cons, Option.bind_eq_bind, Option.bind_eq_some_iff] at h
    obtain ⟨mid, hmid, h⟩ := h
    have left := (source.traceable_run files fuel (hsources source (by simp)) hst).1
    exact ih (fun s hs => hsources s (by simp [hs])) (left mid hmid) h

/-! ## Spans and texts -/

/-- The function called last, unless a file was connected after that. -/
def calledLast : List Setting → Option Function
  | [] => none
  | .call f :: _ => some f
  | .file _ :: _ => none
  | .loop _ :: settings => calledLast settings

/-- The text of the file connected last, or else the main source. -/
def textInProgress (host : Host) (source : String) : List Setting → Option String
  | [] => some source
  | .file path :: _ =>
    match host.files.find? path with
    | some (.text text) => some text
    | _ => none
  | .call _ :: settings => textInProgress host source settings
  | .loop _ :: settings => textInProgress host source settings

theorem exists_textInProgress (source : String) {settings : List Setting}
    (h : ∀ s ∈ settings, s.Known host known) :
    ∃ text, textInProgress host source settings = some text := by
  induction settings with
  | nil => exact ⟨source, rfl⟩
  | cons s settings ih =>
    have others := ih fun s' hs' => h s' (by simp [hs'])
    cases s with
    | call f => exact others
    | loop counter => exact others
    | file path =>
      obtain ⟨text, hfile⟩ := h (.file path) (by simp)
      exact ⟨text, by simp [textInProgress, hfile]⟩

/-- Where no function was called last, things belong to the text in progress. -/
theorem inside_of_calledLast_none {source text : String} {settings : List Setting}
    (hcalled : calledLast settings = none)
    (h : textInProgress host source settings = some text) :
    (Home.text source).inside host settings = .text text := by
  induction settings with
  | nil => cases h; rfl
  | cons s settings ih =>
    cases s with
    | call f => cases hcalled
    | loop counter => exact ih hcalled h
    | file path =>
      simp only [textInProgress] at h
      split at h
      · next heq =>
        cases h
        simp only [Home.inside, heq]
      · cases h

theorem inside_of_calledLast_some {f : Function} {settings : List Setting}
    (hcalled : calledLast settings = some f) : home.inside host settings = .body f.body := by
  induction settings with
  | nil => cases hcalled
  | cons s settings ih =>
    cases s with
    | call f => cases hcalled; rfl
    | loop counter => exact ih hcalled
    | file path => cases hcalled

theorem calledLast_mem {f : Function} {settings : List Setting}
    (hcalled : calledLast settings = some f) : .call f ∈ settings := by
  induction settings with
  | nil => cases hcalled
  | cons s settings ih =>
    cases s with
    | call f => cases hcalled; simp
    | loop counter => exact List.mem_cons_of_mem _ (ih hcalled)
    | file path => cases hcalled

/-- The nodes of a text have their places in it, also if it is no program. -/
theorem place_of_holds {text : String} {q : Node} (h : (Home.text text).Holds q) :
    Place text q.span := by
  obtain ⟨p, hp, hq⟩ := h
  simp only [Home.nodes] at hp
  cases hparse : parse text with
  | ok ss =>
    rw [hparse] at hp
    obtain ⟨s, hs, rfl⟩ := List.mem_map.1 hp
    exact .node ⟨ss, hparse, s, hs, hq⟩
  | error e =>
    rw [hparse] at hp
    rw [List.mem_singleton.1 hp] at hq
    rcases Node.within_iff.1 hq with rfl | ⟨_, hpart, _⟩
    · simpa [Node.span, hparse] using place_of_parse_error hparse
    · simp [Node.parts] at hpart

theorem Function.WrittenIn.place {f : Function} {text : String} {q : Node}
    (h : f.WrittenIn text) (hq : (Home.body f.body).Holds q) : Place text q.span := by
  obtain ⟨p, hp, hq⟩ := hq
  obtain ⟨s, hs, rfl⟩ := List.mem_map.1 hp
  exact .node ((h s hs).within hq)

/-- Some text that the session has met: one of its sources, or that of a file. -/
def Met (host : Host) (sources : List Source) (text : String) : Prop :=
  text ∈ sources.map Source.text ∨ ∃ path, host.files.find? path = some (.text text)

/-- A fault has a span, and as its origin the file connected last. If it has not arisen in the
body of a function that was written elsewhere, the span is a place of the text in progress
(that of this file, or the source being run); and if it has arisen in the body of a function,
the span is a place of the text in which the function was written. In a text of less than 2^32
bytes a place is a stretch of whole characters. -/
theorem a_fault_lies_in_the_text_it_was_written_in {fuel : Nat} {before : List Source}
    {source : Source} {f : Fault}
    (reached : sessionState host fuel before State.initial = some st)
    (failed : (source.run host fuel st).fault? = some f) :
    ∃ text s, f.span = some s ∧ f.origin = originOf (source.trail host fuel st) ∧
      textInProgress host source.text (source.trail host fuel st) = some text ∧
      ((∀ g, calledLast (source.trail host fuel st) = some g → g.WrittenIn text) →
        Place text s ∧ (text.utf8ByteSize ≤ Span.limit → Fits text s)) ∧
      ∀ g, calledLast (source.trail host fuel st) = some g →
        ∃ home, Met host (before ++ [source]) home ∧ g.WrittenIn home ∧
          Place home s ∧ (home.utf8ByteSize ≤ Span.limit → Fits home s) := by
  have files : FilesKnown host (Met host (before ++ [source])) :=
    fun path text h => Or.inr ⟨path, h⟩
  have hst : st.Traceable (Met host (before ++ [source])) := by
    refine traceable_sessionState files fuel (fun s hs => Or.inl ?_) ?_ reached
    · exact List.mem_map.2 ⟨s, by simp [hs], rfl⟩
    · intro entry hentry
      simp [State.initial, Environment.empty] at hentry
  have known := (source.traceable_run files fuel
    (Or.inl (List.mem_map.2 ⟨source, by simp, rfl⟩)) hst).2
  obtain ⟨text, htext⟩ := exists_textInProgress source.text known
  have hrun : ∃ st', source.run host fuel st = .failed f st' := by
    cases h : source.run host fuel st with
    | failed f' st' => rw [h] at failed; cases failed; exact ⟨st', rfl⟩
    | _ => rw [h] at failed; cases failed
  obtain ⟨st', hrun⟩ := hrun
  obtain ⟨q, hq, hspan, horigin⟩ := source.blame host fuel hrun
  refine ⟨text, q.span, hspan, horigin, htext, fun here => ?_, fun g hg => ?_⟩
  · have place : Place text q.span := by
      cases hcalled : calledLast (source.trail host fuel st) with
      | none =>
        rw [inside_of_calledLast_none hcalled htext] at hq
        exact place_of_holds hq
      | some g =>
        rw [inside_of_calledLast_some hcalled] at hq
        exact (here g hcalled).place hq
    exact ⟨place, fun short => place.fits short⟩
  · obtain ⟨home, hhome, written⟩ := known _ (calledLast_mem hg)
    rw [inside_of_calledLast_some hg] at hq
    exact ⟨home, hhome, written, written.place hq, fun short => (written.place hq).fits short⟩

/-- A function of one source that fails in a later one: the fault lies in the earlier source,
and far behind the end of the later one, which it is attributed to. -/
theorem a_fault_in_a_function_of_an_earlier_source :
    ∃ st f, sessionState ⟨Files.inMemory, none⟩ 20 [⟨"func f() \x7b show x \x7d", none⟩]
        State.initial = some st ∧
      ((⟨"f()", none⟩ : Source).run ⟨Files.inMemory, none⟩ 20 st).fault? = some f ∧
      f.origin = none ∧ f.span = some ⟨16, 17⟩ ∧ ¬ Fits "f()" ⟨16, 17⟩ ∧
      ∃ home, Place home ⟨16, 17⟩ := by
  let st := (sessionState ⟨Files.inMemory, none⟩ 20 [⟨"func f() \x7b show x \x7d", none⟩]
    State.initial).get (by decide +kernel)
  have reached : sessionState ⟨Files.inMemory, none⟩ 20
      [⟨"func f() \x7b show x \x7d", none⟩] State.initial = some st := by simp [st]
  have failed : ((⟨"f()", none⟩ : Source).run ⟨Files.inMemory, none⟩ 20 st).fault? =
      some { cause := .undefinedVariable "x", span := some ⟨16, 17⟩ } := by decide +kernel
  obtain ⟨text, s, hspan, -, -, -, hcalled⟩ :=
    a_fault_lies_in_the_text_it_was_written_in reached failed
  have called : (calledLast ((⟨"f()", none⟩ : Source).trail ⟨Files.inMemory, none⟩ 20
      st)).isSome = true := by decide +kernel
  obtain ⟨g, hg⟩ := Option.isSome_iff_exists.1 called
  obtain ⟨home, -, -, place, -⟩ := hcalled g hg
  cases hspan
  exact ⟨st, _, reached, failed, rfl, rfl, fun fits => absurd fits.inside (by decide), home, place⟩

end BraceScript
