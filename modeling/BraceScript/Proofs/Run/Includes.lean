-- The files in progress at the moments of a run. Each of them was entered
-- while those behind it were in progress, so none of them is there twice, and
-- all of them have a normal path from the root.
import Mathlib.Data.List.Dedup
import Mathlib.Data.List.Perm.Subperm
import BraceScript.Proofs.Files.Paths
import BraceScript.Proofs.Run.Joined

namespace BraceScript

variable {host : Host} {ev : Evaluator} {home : Home} {fuel : Nat} {st : State}
  {above before : List Path}

/-! ## The stack of files -/

/-- The files that have been connected one inside of the other (the innermost first) since
those before were in progress. -/
inductive Host.Nested (host : Host) (before : List Path) : List Path → Prop where
  | none : Nested host before []
  | file {above path name source} : Nested host before above →
    path = host.resolve (above ++ before) name → path ∉ above ++ before →
    host.files.find? path = some (.text source) → Nested host before (path :: above)

theorem Host.Nested.inside {path : Path} {name source : String}
    (h : host.Nested (path :: before) above) (resolved : path = host.resolve before name)
    (new : path ∉ before) (file : host.files.find? path = some (.text source)) :
    host.Nested before (above ++ [path]) := by
  induction h with
  | none => exact .file .none resolved new file
  | file _ resolved' new' file' ih =>
    have same (above : List Path) : above ++ [path] ++ before = above ++ path :: before := by simp
    exact .file ih (same _ ▸ resolved') (same _ ▸ new') file'

theorem Host.Nested.nodup (h : host.Nested before above) (distinct : before.Nodup) :
    (above ++ before).Nodup := by
  induction h with
  | none => exact distinct
  | file _ _ new _ ih => exact List.nodup_cons.2 ⟨new, ih⟩

theorem Host.Nested.hasText (h : host.Nested before above) {p : Path} (hp : p ∈ above) :
    ∃ source, host.files.find? p = some (.text source) := by
  induction h with
  | none => cases hp
  | file _ _ _ found ih =>
    rcases List.mem_cons.1 hp with rfl | hp
    · exact ⟨_, found⟩
    · exact ih hp

/-! ## Along a run -/

def Setting.file? : Setting → Option Path
  | .file path => some path
  | _ => none

/-- The files that are being connected (the innermost first). -/
def Moment.files (m : Moment) : List Path := m.inProgress.filterMap Setting.file?

/-- The files in progress are those that are being connected and the ones from before. -/
structure Moment.Connects (host : Host) (before : List Path) (m : Moment) : Prop where
  includes : m.state.includes = m.files ++ before
  nested : host.Nested before m.files

theorem Moment.connects_of (h : st.includes = before) : (Moment.of st).Connects host before :=
  ⟨h, .none⟩

theorem Moment.Connects.inside {m : Moment} (h : m.Connects host before) {settings : List Setting}
    (apart : settings.filterMap Setting.file? = []) : (m.inside settings).Connects host before := by
  have same : (m.inside settings).files = m.files := by simp [files, Moment.inside, apart]
  exact ⟨same ▸ h.includes, same ▸ h.nested⟩

theorem Moment.Connects.inFile {m : Moment} {path : Path} {name source : String}
    (h : m.Connects host (path :: before)) (resolved : path = host.resolve before name)
    (new : path ∉ before) (file : host.files.find? path = some (.text source)) :
    (m.inside [.file path]).Connects host before := by
  have entered : (m.inside [.file path]).files = m.files ++ [path] := by
    simp [files, Moment.inside, Setting.file?]
  refine ⟨?_, entered ▸ h.nested.inside resolved new file⟩
  rw [entered, List.append_assoc, List.singleton_append]
  exact h.includes

theorem connects_momentsOf_inside {moments : Node → State → List Moment} {vs : List Visit}
    {s : Setting} (apart : s.file? = none)
    (h : ∀ m ∈ momentsOf moments vs, m.Connects host before) :
    ∀ m ∈ momentsOf moments (vs.map (Visit.inside s)), m.Connects host before := by
  rw [momentsOf_inside]
  exact List.forall_mem_map.2 fun m hm => (h m hm).inside (by simp [apart])

/-- One level of a run. -/
theorem Threads.connects {moments : Node → State → List Moment} {vs : List Visit}
    {o : Outcome Unit}
    (each : ∀ n st, ∀ m ∈ moments n st, m.Connects host st.includes)
    (keeps : ∀ n st, (ev.run n st).KeepsIncludes st) (h : Threads host ev home st vs o) :
    ∀ m ∈ momentsOf moments vs, m.Connects host st.includes := by
  induction h with
  | done | change | raise | stop => simp [momentsOf]
  | visit =>
    rw [momentsOf_single]
    exact each _ _
  | @andThen home st mid vs ws o first _ ih ih' =>
    have same : mid.includes = st.includes := first.keepsIncludes keeps mid rfl
    rw [momentsOf_append]
    exact List.forall_mem_append.2 ⟨ih, same ▸ ih'⟩
  | @joined home n st mid f vs o _ fails _ ih =>
    have same : mid.includes = st.includes := keeps n st mid (by rw [fails]; rfl)
    rw [← List.singleton_append, momentsOf_append, momentsOf_single]
    exact List.forall_mem_append.2 ⟨each n st, same ▸ ih⟩
  | @call home st mid _ _ _ _ _ _ _ _ args _ _ ih ih' =>
    have same : mid.includes = st.includes := args.keepsIncludes keeps mid rfl
    rw [momentsOf_append]
    exact List.forall_mem_append.2 ⟨ih, same ▸ connects_momentsOf_inside rfl ih'⟩
  | file _ resolved new found _ ih =>
    rw [momentsOf_inside]
    exact List.forall_mem_map.2 fun m hm => (ih m hm).inFile resolved new found
  | loop _ _ ih => exact connects_momentsOf_inside rfl ih

theorem connects_ending {o : Outcome Unit} (kept : o.KeepsIncludes st) :
    ∀ m ∈ o.ending, m.Connects host st.includes := by
  cases o with
  | ok v last | failed f last =>
    exact List.forall_mem_singleton.2 (Moment.connects_of (kept last rfl))
  | broken reason => simp [Outcome.ending]

theorem connects_course (host : Host) (fuel : Nat) (n : Node) (st : State) :
    ∀ m ∈ course host fuel n st, m.Connects host st.includes := by
  induction fuel generalizing n st with
  | zero =>
    exact List.forall_mem_cons.2
      ⟨Moment.connects_of rfl, connects_ending (keepsIncludes_run host 0 n st)⟩
  | succ fuel ih =>
    obtain ⟨o, threads, -⟩ := threads_run host fuel n st
    have inner := threads.connects ih (keepsIncludes_run host fuel)
    exact List.forall_mem_append.2 ⟨List.forall_mem_cons.2 ⟨Moment.connects_of rfl, inner⟩,
      connects_ending (keepsIncludes_run host (fuel + 1) n st)⟩

/-- While the statements of a source run, the file that it comes from is in progress, too. -/
theorem Source.connects_visits (host : Host) (fuel : Nat) (source : Source) (st : State) :
    ∀ m ∈ momentsOf (BraceScript.course host fuel) (source.visits host fuel st),
      m.Connects host (source.enter host st).includes := by
  obtain ⟨o, threads, -⟩ := source.threads_run host fuel st
  exact threads.connects (connects_course host fuel) (keepsIncludes_run host fuel)

/-! ## Files in memory -/

/-- Files in memory with these paths and texts. -/
def Files.holding (texts : List (String × String)) : Files :=
  texts.foldl (fun files entry => files.insert entry.1 (.text entry.2)) Files.inMemory

/-- The places that the paths lead to. -/
def Files.places (texts : List (String × String)) : List Path :=
  (texts.map fun entry => Path.root.resolve entry.1).dedup

theorem Files.holding_eq (texts : List (String × String)) :
    Files.holding texts =
      ⟨(texts.map fun entry => (Path.root.resolve entry.1, .text entry.2)).reverse, .memory,
        Path.root⟩ := by
  suffices more : ∀ entries, texts.foldl (fun files entry => files.insert entry.1 (.text entry.2))
      (⟨entries, .memory, Path.root⟩ : Files) =
      ⟨(texts.map fun entry => (Path.root.resolve entry.1, .text entry.2)).reverse ++ entries,
        .memory, Path.root⟩ by
    exact (more []).trans (by rw [List.append_nil])
  induction texts with
  | nil => simp
  | cons entry texts ih =>
    intro entries
    rw [List.foldl_cons, Files.insert, ih]
    simp

theorem Files.lookup_of_find? {files : Files} (memory : files.storage = .memory) {p : Path}
    {source : String} (found : files.find? p = some (.text source)) :
    files.entries.lookup p.normal = some (.text source) := by
  simp only [find?, memory, known?] at found
  cases listed : files.entries.lookup p.normal with
  | none => simp [listed] at found
  | some contents => simpa [listed] using found

theorem Files.mem_places {texts : List (String × String)} {p : Path} {source : String}
    (settled : p.Settled) (found : (Files.holding texts).find? p = some (.text source)) :
    p ∈ Files.places texts := by
  have listed := Files.lookup_of_find? (Files.holding_eq texts ▸ rfl) found
  rw [settled.normal, Files.holding_eq] at listed
  obtain ⟨before, behind, split, -⟩ := List.lookup_eq_some_iff.1 listed
  dsimp only at split
  have member : (p, Contents.text source) ∈
      texts.map fun entry => (Path.root.resolve entry.1, Contents.text entry.2) := by
    rw [← List.mem_reverse, split]
    simp
  obtain ⟨entry, hentry, same⟩ := List.mem_map.1 member
  exact List.mem_dedup.2 (List.mem_map.2 ⟨entry, hentry, congrArg Prod.fst same⟩)

/-- Relative paths start from the root or from a directory below. -/
structure Host.Rooted (host : Host) : Prop where
  base : ∀ dir ∈ host.base, dir.absolute = true ∧ dir.Written
  workingDirectory : host.files.workingDirectory.Settled

section Rooted

variable (rooted : host.Rooted)

include rooted

theorem Host.Rooted.directory {includes : List Path} (settled : ∀ p ∈ includes, p.Settled) :
    (host.directory includes).absolute = true ∧ (host.directory includes).Written := by
  unfold Host.directory
  cases inside : includes.head?.bind Path.parent? with
  | some dir =>
    obtain ⟨p, hp, lies⟩ := Option.bind_eq_some_iff.1 inside
    have parent := (settled p (List.mem_of_mem_head? hp)).parent lies
    exact ⟨parent.absolute, parent.written⟩
  | none =>
    cases base : host.base with
    | some dir => exact rooted.base dir base
    | none => exact ⟨rooted.workingDirectory.absolute, rooted.workingDirectory.written⟩

theorem Host.Rooted.settled_resolve {includes : List Path} (settled : ∀ p ∈ includes, p.Settled)
    (name : String) : (host.resolve includes name).Settled :=
  Path.settled_resolve (rooted.directory settled).1 (rooted.directory settled).2 name

theorem Host.Nested.settled (h : host.Nested before above) (settled : ∀ p ∈ before, p.Settled) :
    ∀ p ∈ above ++ before, p.Settled := by
  induction h with
  | none => exact settled
  | file _ resolved _ _ ih =>
    exact List.forall_mem_cons.2 ⟨resolved ▸ rooted.settled_resolve ih _, ih⟩

/-- A file in progress is not connected again, whatever its path is spelled like. -/
theorem connect_inProgress {name : String} (settled : ∀ p ∈ st.includes, p.Settled)
    (kq : name.endsWith ".kq" = true) {p : Path} (inProgress : p ∈ st.includes)
    (leads : (host.directory st.includes).reached name = p.parts) (span : Span) :
    connect host ev span name st = .failed { cause := .circular name, span := some span } st ∧
      ev.visitConnect host name st = [] := by
  obtain ⟨absolute, written⟩ := rooted.directory settled
  have same : host.resolve st.includes name = p := by
    unfold Host.resolve
    rw [Path.resolve_eq_reached absolute written, leads, ← (settled p inProgress).absolute]
  have old : st.includes.contains (host.resolve st.includes name) = true := by
    simpa [same] using inProgress
  constructor
  · unfold connect
    simp only [kq, Bool.not_true, Bool.false_eq_true, if_false, Exec.get_bind, old, if_true]
    rfl
  · unfold Evaluator.visitConnect
    simp only [old, Bool.or_true, if_true]

end Rooted

theorem Host.rooted_memory (texts : List (String × String)) {dir : Option String}
    (absolute : ∀ d ∈ dir, (Path.ofText d).absolute = true) :
    (Host.mk (Files.holding texts) (dir.map Path.ofText)).Rooted := by
  refine ⟨fun p hp => ?_, ?_⟩
  · obtain ⟨d, hd, rfl⟩ := Option.map_eq_some_iff.1 hp
    exact ⟨absolute d hd, Path.written_ofText d⟩
  · rw [Files.holding_eq]
    exact Path.settled_root

/-- The file that a source comes from is the first one in progress. -/
theorem Source.settled_enter (rooted : host.Rooted) (source : Source) (alone : st.includes = []) :
    (source.enter host st).includes.Nodup ∧ (source.enter host st).includes.length ≤ 1 ∧
      ∀ p ∈ (source.enter host st).includes, p.Settled := by
  unfold enter
  cases source.origin with
  | none => simp [alone]
  | some name =>
    have settled : (host.resolve [] name).Settled := rooted.settled_resolve (by simp) name
    simpa [alone] using settled

/-- At any moment of a run of a source on files in memory, the files in progress are all
different, and they are those being connected and, while statements run, the one that the source
comes from. A path of one of them is its normal path from the root; those being connected are
files in memory, so there are no more of them than there are files. To connect any of the files
in progress once more is refused before anything is run, by whatever path it is named. -/
theorem the_files_in_progress_are_all_different (texts : List (String × String))
    (dir : Option String) (absolute : ∀ d ∈ dir, (Path.ofText d).absolute = true) (fuel : Nat)
    (source : Source) (st : State) (alone : st.includes = []) :
    let host : Host := ⟨Files.holding texts, dir.map Path.ofText⟩
    ∀ m ∈ source.course host fuel st,
      m.state.includes.Nodup ∧
      (∀ p ∈ m.state.includes, p.Settled) ∧
      (m.state.includes = m.files ∨
        m.state.includes = m.files ++ (source.enter host st).includes) ∧
      (∀ p ∈ m.files, p ∈ Files.places texts) ∧
      m.files.length ≤ (Files.places texts).length ∧
      m.state.includes.length ≤ (Files.places texts).length + 1 ∧
      ∀ ev span name, name.endsWith ".kq" = true →
        ∀ p ∈ m.state.includes, (host.directory m.state.includes).reached name = p.parts →
          connect host ev span name m.state =
            .failed { cause := .circular name, span := some span } m.state ∧
          (Fault.Cause.circular name).code.label = "E5003" ∧
          ev.visitConnect host name m.state = [] := by
  intro host m hm
  have rooted : host.Rooted := Host.rooted_memory texts absolute
  obtain ⟨distinct, single, settled⟩ := source.settled_enter rooted alone
  obtain ⟨own, connects, hown⟩ : ∃ own, m.Connects host own ∧
      (own = [] ∨ own = (source.enter host st).includes) := by
    have bound (kept : m.Connects host st.includes) : ∃ own, m.Connects host own ∧
        (own = [] ∨ own = (source.enter host st).includes) := ⟨_, alone ▸ kept, .inl rfl⟩
    rcases List.mem_append.1 hm with hm | hm
    · rcases List.mem_cons.1 hm with rfl | hm
      · exact bound (Moment.connects_of rfl)
      · exact ⟨_, source.connects_visits host fuel st m hm, .inr rfl⟩
    · exact bound (connects_ending (keepsIncludes_runSource host fuel source.text source.origin st)
        m hm)
  have distinctOwn : own.Nodup := by rcases hown with rfl | rfl <;> simp [distinct]
  have settledOwn : ∀ p ∈ own, p.Settled := by
    rcases hown with rfl | rfl
    · simp
    · exact settled
  have singleOwn : own.length ≤ 1 := by rcases hown with rfl | rfl <;> simp [single]
  have nodup := connects.nested.nodup distinctOwn
  have settledAll := connects.nested.settled rooted settledOwn
  have known : ∀ p ∈ m.files, p ∈ Files.places texts := fun p hp => by
    obtain ⟨text, found⟩ := connects.nested.hasText hp
    exact Files.mem_places (settledAll p (List.mem_append_left _ hp)) found
  have few : m.files.length ≤ (Files.places texts).length :=
    (List.Nodup.subperm (List.nodup_append.1 nodup).1 known).length_le
  have includes := connects.includes
  rw [← includes] at nodup settledAll
  refine ⟨nodup, settledAll, ?_, known, few, ?_, fun ev span name kq p hp leads => ?_⟩
  · rw [includes]
    rcases hown with rfl | rfl <;> simp
  · rw [includes, List.length_append]
    omega
  · obtain ⟨refused, nothing⟩ := connect_inProgress rooted settledAll kq hp leads span
    exact ⟨refused, rfl, nothing⟩

/-- Two files that connect each other, each by a roundabout path. -/
theorem two_files_that_connect_each_other :
    let texts := [("a.kq", "connect \"x/.././/b.kq\""), ("/c/../b.kq", "connect \"y/../a.kq\"")]
    let host : Host := ⟨Files.holding texts, (some "/").map Path.ofText⟩
    let source : Source := ⟨"connect \"a.kq\"", none⟩
    (∀ d ∈ some "/", (Path.ofText d).absolute = true) ∧ State.initial.includes = [] ∧
      ∃ m ∈ source.course host 9 .initial,
        m.state.includes = [⟨true, ["b.kq"]⟩, ⟨true, ["a.kq"]⟩] ∧ m.state.includes.Nodup ∧
        connect host (evaluator host 9) ⟨0, 19⟩ "y/../a.kq" m.state =
          .failed { cause := .circular "y/../a.kq", span := some ⟨0, 19⟩ } m.state := by
  intro texts host source
  have absolute : ∀ d ∈ some "/", (Path.ofText d).absolute = true := by decide +kernel
  obtain ⟨m, hm, both⟩ : ∃ m ∈ source.course host 9 .initial,
      m.state.includes = [⟨true, ["b.kq"]⟩, ⟨true, ["a.kq"]⟩] := by decide +kernel
  obtain ⟨distinct, -, -, -, -, -, refused⟩ :=
    the_files_in_progress_are_all_different texts (some "/") absolute 9 source .initial rfl m hm
  have leads : (host.directory [⟨true, ["b.kq"]⟩, ⟨true, ["a.kq"]⟩]).reached "y/../a.kq" =
      ["a.kq"] := by decide +kernel
  exact ⟨absolute, rfl, m, hm, both, distinct,
    (refused (evaluator host 9) ⟨0, 19⟩ "y/../a.kq" (by decide +kernel) ⟨true, ["a.kq"]⟩
      (by simp [both]) (by rw [both]; exact leads)).1⟩

end BraceScript
