-- Which node a fault is about. A fault that a run comes to has the place of
-- one node, and that node belongs to what was in progress where the fault
-- arose: to the body of the function called last, to the file connected last,
-- or to the main source.
import BraceScript.Proofs.Run.Course

namespace BraceScript

variable {host : Host} {ev : Evaluator} {home : Home}

/-- What is being run inside of all this: what was called or connected last. -/
def Home.inside (host : Host) (home : Home) : List Setting → Home
  | [] => home
  | .call f :: _ => .body f.body
  | .file path :: _ =>
    match host.files.find? path with
    | some (.text source) => .text source
    | _ => .body []
  | .loop _ :: settings => home.inside host settings

/-- The file connected last, as faults name it. -/
def originOf : List Setting → Option String
  | [] => none
  | .file path :: _ => some path.text
  | .call _ :: settings => originOf settings
  | .loop _ :: settings => originOf settings

theorem Home.inside_append (host : Host) (home : Home) (settings more : List Setting) :
    home.inside host (settings ++ more) = (home.inside host more).inside host settings := by
  induction settings with
  | nil => rfl
  | cons s settings ih => cases s <;> simp [Home.inside, ih]

/-- The rounds of a loop visit what the loop visits. -/
theorem nodes_inside_rounds (host : Host) (n : Node) (counter : String)
    (settings : List Setting) :
    ((Home.rounds n counter).inside host settings).nodes =
      ((Home.node n).inside host settings).nodes := by
  induction settings with
  | nil => rfl
  | cons s settings ih =>
    cases s with
    | loop => exact ih
    | call | file => rfl

theorem originOf_append (settings more : List Setting) :
    originOf (settings ++ more) = (originOf settings).or (originOf more) := by
  induction settings with
  | nil => rfl
  | cons s settings ih => cases s <;> simp [originOf, ih]

/-- The node belongs there. -/
def Home.Holds (home : Home) (q : Node) : Prop :=
  match home with
  | .node n | .rounds n _ => q.Within n
  | home => ∃ p ∈ home.nodes, q.Within p

/-- What belongs to a node belongs to where the node is run. -/
theorem Home.Holds.outward {p q : Node} {settings : List Setting} (hp : p ∈ home.nodes)
    (h : ((Home.node p).inside host settings).Holds q) : (home.inside host settings).Holds q := by
  induction settings with
  | nil =>
    cases home with
    | node n | rounds n counter => exact h.trans (.part hp)
    | body ss => exact ⟨p, hp, h⟩
    | text source => exact ⟨p, hp, h⟩
  | cons s settings ih =>
    cases s with
    | call f => exact h
    | file path => exact h
    | loop counter => exact ih h

/-! ## One level -/

variable {st st' : State} {vs ws : List Visit} {o : Outcome Unit} {f : Fault}

/-- Tells the visits that fail from the others. -/
def Tells (ev : Evaluator) (fails : Visit → Bool) : Prop :=
  ∀ v, fails v = true ↔ ∃ f st, ev.run v.node v.state = .failed f st

theorem Tells.inside {fails : Visit → Bool} (tells : Tells ev fails) (s : Setting) :
    fails ∘ Visit.inside s = fails := by
  funext v
  have same := (tells (v.inside s)).trans (tells v).symm
  exact Bool.eq_iff_iff.2 same

theorem Outcome.change_eq_ok {g : State → State} (h : o.change g = .ok () st') :
    ∃ st, o = .ok () st := by
  cases o with
  | ok v st => exact ⟨st, rfl⟩
  | failed fault st => cases h
  | broken reason => cases h

theorem Outcome.change_eq_failed {g : State → State} (h : o.change g = .failed f st') :
    ∃ st, o = .failed f st := by
  cases o with
  | ok v st => cases h
  | failed fault st => cases h; exact ⟨st, rfl⟩
  | broken reason => cases h

theorem Outcome.refault_eq_failed {g : Fault → Fault} (h : o.refault g = .failed f st') :
    ∃ f₀, f = g f₀ ∧ o = .failed f₀ st' := by
  cases o with
  | ok v st => cases h
  | failed fault st => cases h; exact ⟨fault, rfl, rfl⟩
  | broken reason => cases h

theorem Outcome.refault_eq_ok {g : Fault → Fault} (h : o.refault g = .ok () st') :
    o = .ok () st' := by
  cases o with
  | ok v st => exact h
  | failed fault st => cases h
  | broken reason => cases h

/-- If all goes well, no visit fails. -/
theorem Threads.find?_of_ok {fails : Visit → Bool} (tells : Tells ev fails)
    (h : Threads host ev home st vs o) (ok : o = .ok () st') : vs.find? fails = none := by
  induction h generalizing st' with
  | done | change | raise | stop => rfl
  | @visit home st n _ =>
    have calm : fails ⟨n, st, []⟩ = false := by
      apply Bool.eq_false_iff.2
      intro hfails
      obtain ⟨f, e, hrun⟩ := (tells _).1 hfails
      rw [ok] at hrun
      cases hrun
    simp [calm]
  | andThen _ _ ih ih' => rw [List.find?_append, ih rfl, ih' ok]; rfl
  | @joined _ _ _ _ _ _ o => cases o <;> cases ok
  | call _ _ _ _ ih ih' =>
    obtain ⟨e, he⟩ := Outcome.change_eq_ok ok
    rw [List.find?_append, ih rfl, List.find?_map, tells.inside, ih' he]
    rfl
  | file _ _ _ _ _ ih =>
    obtain ⟨e, he⟩ := Outcome.change_eq_ok (Outcome.refault_eq_ok ok)
    rw [List.find?_map, tells.inside, ih he]
    rfl
  | loop _ _ ih =>
    obtain ⟨e, he⟩ := Outcome.change_eq_ok ok
    rw [List.find?_map, tells.inside, ih he]
    rfl

/-- The fault is that of the first visit that fails, and the files that this one is in are
told of it. -/
structure Inherits (host : Host) (ev : Evaluator) (home : Home) (fails : Visit → Bool)
    (vs : List Visit) (f : Fault) (v : Visit) (f₀ : Fault) : Prop where
  first : vs.find? fails = some v
  run : ∃ st, ev.run v.node v.state = .failed f₀ st
  mem : v.node ∈ (home.inside host v.settings).nodes
  cause : f.cause = f₀.cause
  span : f.span = f₀.span
  origin : f.origin = f₀.origin.or (originOf v.settings)
  notes : originOf v.settings = none → f.notes = f₀.notes

/-- Behind visits that go well, inside of something. -/
theorem Inherits.inside {fails : Visit → Bool} (s : Setting) (before : List Visit) {v : Visit}
    {f' f₀ : Fault} (tells : Tells ev fails)
    (h : Inherits host ev (home.inside host [s]) fails vs f v f₀)
    (calm : before.find? fails = none) (cause : f'.cause = f.cause) (span : f'.span = f.span)
    (origin : f'.origin = f.origin.or (originOf [s]))
    (notes : originOf [s] = none → f'.notes = f.notes) :
    Inherits host ev home fails (before ++ vs.map (Visit.inside s)) f' (v.inside s) f₀ where
  first := by
    rw [List.find?_append, calm, List.find?_map, tells.inside, h.first]
    rfl
  run := h.run
  mem := by
    have := h.mem
    rwa [← Home.inside_append] at this
  cause := cause.trans h.cause
  span := span.trans h.span
  origin := by
    rw [origin, h.origin, Option.or_assoc, ← originOf_append]
    rfl
  notes := by
    intro apart
    obtain ⟨inner, outer⟩ : originOf v.settings = none ∧ originOf [s] = none := by
      simpa [Visit.inside, originOf_append] using apart
    exact (notes outer).trans (h.notes inner)

/-- What the rounds of a loop inherit, the loop does. -/
theorem Inherits.ofRounds {fails : Visit → Bool} {n : Node} {counter : String} {v : Visit}
    {f₀ : Fault} (h : Inherits host ev (.rounds n counter) fails vs f v f₀) :
    Inherits host ev (.node n) fails vs f v f₀ :=
  { h with mem := nodes_inside_rounds host n counter v.settings ▸ h.mem }

/-- A fault either comes from the first visit that fails, or there is none and it has arisen
in the node itself. -/
theorem Threads.blame {fails : Visit → Bool} (tells : Tells ev fails)
    (h : Threads host ev home st vs o) (failed : o = .failed f st') :
    (∃ v f₀, Inherits host ev home fails vs f v f₀) ∨
      vs.find? fails = none ∧ ∃ n, home.node? = some n ∧ n.Raises f := by
  induction h generalizing f st' with
  | done | change | stop => cases failed
  | raise hn hraise => cases failed; exact Or.inr ⟨rfl, _, hn, hraise⟩
  | @visit home st n hn =>
    have hfails : fails ⟨n, st, []⟩ = true := (tells _).2 ⟨f, st', failed⟩
    exact Or.inl ⟨⟨n, st, []⟩, f, by simp [hfails], ⟨st', failed⟩, hn, rfl, rfl,
      by simp [originOf], fun _ => rfl⟩
  | andThen h _ _ ih' =>
    have calm := h.find?_of_ok tells rfl
    rcases ih' failed with ⟨v, f₀, inner⟩ | ⟨none, own⟩
    · refine Or.inl ⟨v, f₀, { inner with first := ?_ }⟩
      rw [List.find?_append, calm, inner.first]
      rfl
    · exact Or.inr ⟨by rw [List.find?_append, calm, none]; rfl, own⟩
  | @joined home n st mid f₀ vs o hn hrun _ _ =>
    have hfails : fails ⟨n, st, []⟩ = true := (tells _).2 ⟨f₀, mid, hrun⟩
    have same : f = f₀ := by cases o <;> cases failed <;> rfl
    exact Or.inl ⟨⟨n, st, []⟩, f₀, by simp [hfails], ⟨mid, hrun⟩, hn, by rw [same], by rw [same],
      by simp [originOf, same], fun _ => by rw [same]⟩
  | @call home st mid name g values frame vs ws o _ h _ _ _ ih' =>
    have calm := h.find?_of_ok tells rfl
    obtain ⟨e, he⟩ := Outcome.change_eq_failed failed
    rcases ih' he with ⟨v, f₀, inner⟩ | ⟨_, n, hn, _⟩
    · exact Or.inl ⟨_, f₀, Inherits.inside (.call g) _ tells inner calm rfl rfl
        (by simp [originOf]) fun _ => rfl⟩
    · cases hn
  | @file home st name path source vs o _ _ _ hfile _ ih =>
    obtain ⟨f₁, rfl, hf₁⟩ := Outcome.refault_eq_failed failed
    obtain ⟨e, he⟩ := Outcome.change_eq_failed hf₁
    have inText : home.inside host [.file path] = .text source := by
      simp [Home.inside, hfile]
    rcases ih he with ⟨v, f₀, inner⟩ | ⟨_, n, hn, _⟩
    · rw [← inText] at inner
      exact Or.inl ⟨_, f₀, inner.inside (.file path) [] tells rfl rfl rfl rfl nofun⟩
    · cases hn
  | @loop n st counter value env vs o _ _ ih =>
    obtain ⟨e, he⟩ := Outcome.change_eq_failed failed
    rcases ih he with ⟨v, f₀, inner⟩ | ⟨none, own⟩
    · exact Or.inl ⟨_, f₀, Inherits.inside (.loop counter) [] tells inner.ofRounds rfl rfl rfl
        (by simp [originOf]) fun _ => rfl⟩
    · refine Or.inr ⟨?_, own⟩
      rw [List.find?_map, tells.inside, none]
      rfl

/-! ## All levels -/

theorem tells_fails (host : Host) (fuel : Nat) :
    Tells (evaluator host fuel) (Visit.fails host fuel) := by
  intro v
  unfold Visit.fails
  cases (evaluator host fuel).run v.node v.state <;> simp

/-- A fault that a node comes to has the place of a node that belongs where it arose, and its
origin is the file connected last. -/
theorem blame_run (host : Host) (fuel : Nat) {n : Node} {st st' : State} {f : Fault}
    (h : (evaluator host fuel).run n st = .failed f st') :
    ∃ q, ((Home.node n).inside host (trail host fuel n st)).Holds q ∧ f.span = some q.span ∧
      f.origin = originOf (trail host fuel n st) := by
  induction fuel generalizing n st st' f with
  | zero =>
    cases n with
    | text source =>
      cases hp : parse source with
      | ok ss => simp [Evaluator.run, hp] at h
      | error e =>
        simp only [Evaluator.run, hp, Outcome.failed.injEq] at h
        obtain ⟨rfl, -⟩ := h
        exact ⟨.text source, .self, by simp [Fault.ofSyntaxError, Node.span, hp], rfl⟩
    | _ => simp [Evaluator.run, evaluator, evalExpr, runStmt, Exec.bind_apply, Exec.stop] at h
  | succ fuel ih =>
    obtain ⟨o, threads, hrun⟩ := threads_run host fuel n st
    rw [hrun] at h
    obtain ⟨f₁, rfl, ho⟩ := Outcome.refault_eq_failed h
    rcases threads.blame (tells_fails host fuel) ho with ⟨v, f₀, inner⟩ | ⟨none, m, hm, raises⟩
    · obtain ⟨e, hv⟩ := inner.run
      obtain ⟨q, hq, hspan, horigin⟩ := ih hv
      have placed : f₁.within n.span = f₁ := by
        simp [Fault.within, inner.span, hspan]
      have htrail : trail host (fuel + 1) n st = trail host fuel v.node v.state ++ v.settings := by
        rw [trail, inner.first]
      rw [placed, htrail]
      refine ⟨q, ?_, inner.span.trans hspan, ?_⟩
      · rw [Home.inside_append]
        exact Home.Holds.outward inner.mem hq
      · rw [inner.origin, horigin, originOf_append]
    · cases hm
      have htrail : trail host (fuel + 1) n st = [] := by
        rw [trail, none]
      rw [htrail]
      cases hspan : f₁.span with
      | none => exact ⟨n, .self, by simp [Fault.within, hspan, raises.origin],
          by simp [Fault.within, hspan, raises.origin, originOf]⟩
      | some s =>
        have mem := raises.span s hspan
        simp only [Node.places, List.mem_cons, List.mem_map] at mem
        have placed : f₁.within n.span = f₁ := by
          simp [Fault.within, hspan]
        rw [placed, hspan]
        rcases mem with rfl | ⟨q, hq, rfl⟩
        · exact ⟨n, .self, rfl, raises.origin⟩
        · exact ⟨q, .part hq, rfl, raises.origin⟩

/-- The same for a whole source. -/
theorem Source.blame (host : Host) (fuel : Nat) {source : Source} {st st' : State} {f : Fault}
    (h : source.run host fuel st = .failed f st') :
    ∃ q, ((Home.text source.text).inside host (source.trail host fuel st)).Holds q ∧
      f.span = some q.span ∧ f.origin = originOf (source.trail host fuel st) := by
  obtain ⟨o, threads, hrun⟩ := source.threads_run host fuel st
  rw [hrun] at h
  obtain ⟨e, he⟩ := Outcome.change_eq_failed h
  rcases threads.blame (tells_fails host fuel) he with ⟨v, f₀, inner⟩ | ⟨_, m, hm, _⟩
  · obtain ⟨e', hv⟩ := inner.run
    obtain ⟨q, hq, hspan, horigin⟩ := blame_run host fuel hv
    have htrail : source.trail host fuel st =
        BraceScript.trail host fuel v.node v.state ++ v.settings := by
      rw [Source.trail, inner.first]
    rw [htrail]
    refine ⟨q, ?_, inner.span.trans hspan, ?_⟩
    · rw [Home.inside_append]
      exact Home.Holds.outward inner.mem hq
    · rw [inner.origin, horigin, originOf_append]
  · cases hm

end BraceScript
