-- What a fault tells of the files that it has come through. Each statement
-- that is connecting a file adds a note to it on its way outward, and the
-- innermost of these files is its origin. These are the files in progress
-- where the fault arose, without those from before.
import BraceScript.Proofs.Run.Failures
import BraceScript.Proofs.Run.Includes
import BraceScript.Proofs.Run.Connected

namespace BraceScript

variable {host : Host} {ev : Evaluator} {home : Home} {fuel : Nat} {n : Node} {st : State}
  {f g : Fault}

/-! ## Files that are being connected -/

/-- A file that is being connected: its path as it is written, and where this leads to. -/
structure Connection where
  name : String
  path : Path

def Connection.note (c : Connection) : String := "while connecting `" ++ c.name ++ "`"

/-- The file that a node connects. -/
def Attempt.connection? (host : Host) (a : Attempt) : Option Connection :=
  a.node.connects?.map fun name => ⟨name, host.resolve a.state.includes name⟩

/-- The files that some nodes are connecting. -/
def connections (host : Host) (attempts : List Attempt) : List Connection :=
  attempts.filterMap (Attempt.connection? host)

theorem connections_concat (host : Host) (around : List Attempt) (a : Attempt) :
    connections host (around ++ [a]) = connections host around ++ (a.connection? host).toList := by
  rw [connections, List.filterMap_append]
  cases connects : a.connection? host <;> simp [connections, connects]

/-- The fault has come through these files (the innermost first), and was the other one before. -/
structure Fault.Through (f g : Fault) (crossed : List Connection) : Prop where
  origin : f.origin = g.origin.or (crossed.head?.map (·.path.text))
  notes : f.notes = g.notes ++ crossed.map Connection.note

namespace Fault.Through

variable {crossed more : List Connection}

theorem none (origin : f.origin = g.origin) (notes : f.notes = g.notes) : f.Through g [] :=
  ⟨by simp [origin], by simp [notes]⟩

theorem one (g : Fault) (c : Connection) : (g.connecting c.path.text c.name).Through g [c] :=
  ⟨rfl, rfl⟩

theorem within (h : f.Through g crossed) (span : Span) : (f.within span).Through g crossed := by
  unfold Fault.within
  split
  · exact ⟨h.origin, h.notes⟩
  · exact h

theorem trans {f' : Fault} (outer : f'.Through f more) (inner : f.Through g crossed) :
    f'.Through g (crossed ++ more) where
  origin := by
    rw [outer.origin, inner.origin, Option.or_assoc]
    cases crossed <;> rfl
  notes := by rw [outer.notes, inner.notes, List.append_assoc, List.map_append]

end Fault.Through

/-! ## One level -/

/-- Only a statement that connects a file runs something in one. -/
theorem Threads.apart {vs : List Visit} {o : Outcome Unit} (h : Threads host ev home st vs o)
    (none : home.node?.bind Node.connects? = none) :
    ∀ v ∈ vs, v.settings.filterMap Setting.file? = [] := by
  induction h with
  | done | change | raise | stop => exact nofun
  | visit => exact List.forall_mem_singleton.2 rfl
  | andThen _ _ ih ih' => exact List.forall_mem_append.2 ⟨ih none, ih' none⟩
  | joined _ _ _ ih => exact List.forall_mem_cons.2 ⟨rfl, ih none⟩
  | call _ _ _ _ ih ih' =>
    refine List.forall_mem_append.2 ⟨ih none, List.forall_mem_map.2 fun v hv => ?_⟩
    simpa [Visit.inside, Setting.file?] using ih' rfl v hv
  | file connects => simp [none] at connects
  | loop _ _ ih =>
    refine List.forall_mem_map.2 fun v hv => ?_
    simpa [Visit.inside, Setting.file?] using ih none v hv

theorem originOf_eq (settings : List Setting) :
    originOf settings = (settings.filterMap Setting.file?).head?.map Path.text := by
  induction settings with
  | nil => rfl
  | cons s settings ih => cases s <;> simp [originOf, Setting.file?, List.filterMap_cons, ih]

theorem Node.connects?_eq_some {name : String} (h : n.connects? = some name) :
    ∃ span, n = .stmt (.at span (.connect name)) := by
  unfold Node.connects? at h
  split at h <;> cases h
  exact ⟨_, rfl⟩

/-- What is run in no file hands its fault on as it is. -/
theorem Inherits.through {fails : Visit → Bool} {vs : List Visit} {v : Visit}
    (h : Inherits host ev home fails vs f v g)
    (apart : v.settings.filterMap Setting.file? = []) : f.Through g [] := by
  have outside : originOf v.settings = none := by simp [originOf_eq, apart]
  exact .none (by rw [h.origin, outside, Option.or_none]) (h.notes outside)

/-- The files in progress where a node is run are those that the node around it has connected for
it and those from before. -/
theorem Threads.includes_visit {vs : List Visit} {o : Outcome Unit}
    (h : Threads host (evaluator host fuel) home st vs o) {v : Visit} (hv : v ∈ vs) :
    v.state.includes = v.settings.filterMap Setting.file? ++ st.includes := by
  have begins : (Moment.of v.state).inside v.settings ∈ momentsOf (course host fuel) vs := by
    refine List.mem_flatMap.2 ⟨v, hv, List.mem_map_of_mem ?_⟩
    cases fuel <;> exact List.mem_cons_self ..
  exact (h.connects (connects_course host fuel) (keepsIncludes_run host fuel) _ begins).includes

/-- A statement that connects a file runs nothing, or the text of the file inside of it. -/
theorem connect_cases (host : Host) (ev : Evaluator) (span : Span) (name : String) (st : State) :
    let path := host.resolve st.includes name
    ev.visitConnect host name st = [] ∨ ∃ source,
      ev.visitConnect host name st =
        (ev.visitText source (st.inFile path)).map (Visit.inside (.file path)) ∧
      connect host ev span name st =
        ((runText ev source (st.inFile path)).change State.outOfFile).connected path name := by
  intro path
  unfold Evaluator.visitConnect connect
  by_cases kq : name.endsWith ".kq" = true
  · by_cases old : st.includes.contains path = true
    · exact .inl (if_pos ((Bool.or_eq_true _ _).mpr (.inr old)))
    · simp only [kq, Bool.not_true, Bool.false_or, Bool.false_eq_true, if_false, Exec.get_bind]
      rw [if_neg old, if_neg old]
      unfold Host.readFile
      cases host.files.find? path with
      | none => exact .inl rfl
      | some contents =>
        cases contents with
        | unreadable => exact .inl rfl
        | text source => exact .inr ⟨source, rfl, rfl⟩
  · exact .inl (if_pos (by simp [kq]))

/-- The fault of a file goes on with a note. -/
theorem through_connect {fails : Visit → Bool} (tells : Tells ev fails) {span : Span}
    {name : String} {last after : State} {v : Visit}
    (failed : (connect host ev span name st).void = .failed f last)
    (first : (ev.visitConnect host name st).find? fails = some v)
    (run : ev.run v.node v.state = .failed g after) :
    v.settings.filterMap Setting.file? = [host.resolve st.includes name] ∧
      f.Through g [⟨name, host.resolve st.includes name⟩] := by
  rcases connect_cases host ev span name st with nothing | ⟨source, visits, connects⟩
  · rw [nothing] at first
    cases first
  · rw [visits, List.find?_map, tells.inside] at first
    rw [connects] at failed
    generalize host.resolve st.includes name = path at *
    obtain ⟨w, hw, rfl⟩ : ∃ w, (ev.visitText source (st.inFile path)).find? fails = some w ∧
        w.inside (.file path) = v := Option.map_eq_some_iff.1 first
    have threads : Threads host ev (.text source) (st.inFile path) _ _ := threads_runText source
    have apart := threads.apart rfl w (List.mem_of_find?_eq_some hw)
    cases inner : runText ev source (st.inFile path) with
    | ok | broken => rw [inner] at failed; cases failed
    | failed f₀ mid =>
      rw [inner] at failed threads
      cases failed
      rcases threads.blame tells rfl with ⟨u, g', inherits⟩ | ⟨_, _, ⟨⟩, _⟩
      obtain rfl : u = w := Option.some.inj (inherits.first.symm.trans hw)
      obtain ⟨after', run'⟩ := inherits.run
      cases run.symm.trans run'
      refine ⟨by simp [Visit.inside, Setting.file?, apart], ?_⟩
      exact (Fault.Through.one f₀ ⟨name, path⟩).trans (inherits.through apart)

/-- The files in progress where the first node fails that a node runs are the one that the node
connects and those from before, and the fault tells of this file. -/
theorem through_level {last : State} {v : Visit}
    (unplaced : (evaluator host fuel).runUnplaced host fuel n st = .failed f last)
    (inherits : Inherits host (evaluator host fuel) (.node n) (Visit.fails host fuel)
      (visits host (fuel + 1) n st) f v g) :
    let crossed := (Attempt.connection? host ⟨fuel + 1, n, st⟩).toList
    v.state.includes = crossed.map Connection.path ++ st.includes ∧ f.Through g crossed := by
  intro crossed
  have threads := threads_runUnplaced host fuel n st
  have member := List.mem_of_find?_eq_some inherits.first
  rw [threads.includes_visit member]
  cases connects : n.connects? with
  | none =>
    have apart := threads.apart connects v member
    have none : crossed = [] := by simp [crossed, Attempt.connection?, connects]
    rw [apart, none]
    exact ⟨rfl, inherits.through apart⟩
  | some name =>
    obtain ⟨span, rfl⟩ := Node.connects?_eq_some connects
    obtain ⟨after, run⟩ := inherits.run
    obtain ⟨entered, through⟩ :=
      through_connect (tells_fails host fuel) unplaced inherits.first run
    rw [entered]
    exact ⟨rfl, through⟩

/-! ## The whole way -/

/-- The files that are being connected, one inside of the other, where the fault arises are in
progress then, besides those from before; the fault has come through all of them. -/
structure Crosses (host : Host) (before : List Path) (f : Fault) (inner : Attempt)
    (around : List Attempt) (raised : Fault) (mid : State) : Prop where
  raises : inner.Raises host raised mid
  includes : mid.includes = (connections host around).map Connection.path ++ before
  through : f.Through raised (connections host around)

theorem crosses_alone {a : Attempt} {mid : State} (raises : a.Raises host g mid) :
    Crosses host a.state.includes (g.within a.node.span) a [] g mid where
  raises := raises
  includes := by
    have threads := threads_runUnplaced host (a.bound - 1) a.node a.state
    have unplaced : (evaluator host (a.bound - 1)).runUnplaced host (a.bound - 1) a.node a.state =
        .failed g mid := raises.unplaced
    exact threads.keepsIncludes (keepsIncludes_run host _) mid (by rw [unplaced]; rfl)
  through := (Fault.Through.none rfl rfl).within _

variable {inner : Attempt} {around : List Attempt} {raised : Fault} {mid : State}

theorem Crosses.outward {before within : List Path} {a : Attempt}
    (h : Crosses host within g inner around raised mid)
    (entered : within = (a.connection? host).toList.map Connection.path ++ before)
    (through : f.Through g (a.connection? host).toList) :
    Crosses host before f inner (around ++ [a]) raised mid where
  raises := h.raises
  includes := by
    rw [h.includes, entered, connections_concat, List.map_append, List.append_assoc]
  through := by
    rw [connections_concat]
    exact through.trans h.through

theorem exists_crosses (host : Host) (fuel : Nat) {n : Node} {st : State} {f : Fault}
    (failed : ((evaluator host fuel).run n st).fault? = some f) :
    ∃ inner around raised mid, failing host fuel n st = inner :: around ∧
      Crosses host st.includes f inner around raised mid := by
  refine failing_induction host (motive := fun a f inner around raised mid =>
    Crosses host a.state.includes f inner around raised mid) ?_ ?_ fuel failed
  · exact fun raises _ => crosses_alone raises
  · intro fuel n st f last v g inner around raised mid unplaced inherits crosses
    obtain ⟨entered, through⟩ := through_level unplaced inherits
    exact crosses.outward entered (through.within _)

/-- The files in progress once the source has begun: its own is the first of them. A text that
is no program never begins. -/
def Source.own (host : Host) (source : Source) (st : State) : List Path :=
  match parse source.text with
  | .error _ => st.includes
  | .ok _ => (source.enter host st).includes

theorem Source.exists_crosses {source : Source}
    (failed : (source.run host fuel st).fault? = some f) :
    ∃ inner around raised mid, source.failing host fuel st = inner :: around ∧
      Crosses host (source.own host st) f inner around raised mid := by
  rcases source.failing_cases failed with
    ⟨e, error, rfl, hfailing⟩ | ⟨ss, v, g, program, inherits, hfailing⟩
  · obtain ⟨raises, -, within⟩ := raises_text host error fuel st
    have crosses := crosses_alone raises
    rw [within] at crosses
    exact ⟨_, _, _, _, hfailing, by rwa [Source.own, error]⟩
  · obtain ⟨after, run⟩ := inherits.run
    obtain ⟨inner, around, raised, mid, hinner, crosses⟩ :=
      BraceScript.exists_crosses host fuel (by rw [run]; rfl)
    obtain ⟨o, threads, -⟩ := source.threads_run host fuel st
    have member := List.mem_of_find?_eq_some inherits.first
    have apart := threads.apart rfl v member
    refine ⟨inner, around, raised, mid, hfailing.trans hinner, crosses.raises, ?_, ?_⟩
    · rw [crosses.includes, threads.includes_visit member, apart, Source.own, program]
      rfl
    · have through := (inherits.through apart).trans crosses.through
      rwa [List.append_nil] at through

/-- A source that fails does so with a fault that tells of the files it has come through, and of
no other. Where it arises, the files in progress are those of the statements around it that are
connecting one and those that were in progress when the source began. If there are no more than
the latter, it has no origin and no notes; otherwise its origin is the innermost file in progress,
and there is one note for each of the statements, the innermost first, with the path as it is
written there. -/
theorem a_fault_tells_of_the_files_it_came_through {source : Source}
    (failed : (source.run host fuel st).fault? = some f) :
    ∃ inner around raised mid, source.failing host fuel st = inner :: around ∧
      inner.Raises host raised mid ∧
      mid.includes = (connections host around).map Connection.path ++ source.own host st ∧
      (mid.includes = source.own host st → f.origin = none ∧ f.notes = []) ∧
      (mid.includes ≠ source.own host st →
        ∃ last, mid.includes.head? = some last ∧ f.origin = some last.text) ∧
      f.notes = (connections host around).map Connection.note := by
  obtain ⟨inner, around, raised, mid, hfailing, raises, includes, through⟩ :=
    source.exists_crosses failed
  have origin := through.origin
  have notes := through.notes
  rw [raises.origin, Option.none_or] at origin
  rw [raises.notes, List.nil_append] at notes
  refine ⟨inner, around, raised, mid, hfailing, raises, includes, ?_, ?_, notes⟩
  · intro same
    have none : connections host around = [] := by simpa [same] using includes
    simp [origin, notes, none]
  · intro more
    cases crossed : connections host around with
    | nil => simp [includes, crossed] at more
    | cons c crossed' => exact ⟨c.path, by simp [includes, crossed], by simp [origin, crossed]⟩

/-- Two files one inside of the other, in a joined block that runs on to another file after the
first fault; the function that fails is called in the inner file and stands in the main source. -/
theorem a_call_in_a_file_in_a_file :
    let files := [("a.kq", "connect \"b/c.kq\""), ("b/c.kq", "show f(1)"), ("d.kq", "show 1 +")]
    let host : Host := ⟨Files.holding files, some .root⟩
    let source : Source :=
      ⟨"func f(x) \x7b return x + y \x7d async \x7b connect \"a.kq\" connect \"d.kq\" \x7d",
        some "main.kq"⟩
    let fault : Fault := {
      cause := .undefinedVariable "y"
      span := some ⟨23, 24⟩
      origin := some "/b/c.kq"
      notes := ["while connecting `b/c.kq`", "while connecting `a.kq`"] }
    (source.run host 20 .initial).fault? = some fault ∧
      ∃ inner around raised mid, source.failing host 20 .initial = inner :: around ∧
        inner.Raises host raised mid ∧
        mid.includes = [⟨true, ["b", "c.kq"]⟩, ⟨true, ["a.kq"]⟩, ⟨true, ["main.kq"]⟩] ∧
        fault.notes = (connections host around).map Connection.note := by
  intro files host source fault
  have failed : (source.run host 20 .initial).fault? = some fault := by decide +kernel
  obtain ⟨inner, around, raised, mid, hfailing, raises, includes, -, -, notes⟩ :=
    a_fault_tells_of_the_files_it_came_through failed
  have nodes : (connections host (source.failing host 20 .initial).tail).map Connection.path =
      [⟨true, ["b", "c.kq"]⟩, ⟨true, ["a.kq"]⟩] := by decide +kernel
  have own : source.own host .initial = [⟨true, ["main.kq"]⟩] := by decide +kernel
  rw [hfailing, List.tail_cons] at nodes
  exact ⟨failed, inner, around, raised, mid, hfailing, raises, by rw [includes, nodes, own]; rfl,
    notes⟩

end BraceScript
