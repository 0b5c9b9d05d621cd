-- To connect a file is to have its text in the place of the statement. The
-- file is parsed by itself, run with its path among the files in progress, and
-- told of its faults; nothing but the places, the origins and the notes of
-- faults shows that.
import BraceScript.Proofs.Printing.RoundTrip
import BraceScript.Proofs.Run.Persistence

namespace BraceScript

variable {α β : Type} {path : Path} {name : String}

/-! ## Ends that are alike -/

/-- Both come to the same end from the same state, up to places, but that the file is told of
a fault in the one where it has been connected: its path is the origin, and there is a note. -/
inductive Outcome.InPlace (path : Path) (name : String) : Outcome α → Outcome α → Prop where
  | inStep {o o'} : o.InStep State.SameWithOutput o' → InPlace path name o o'
  | connecting {f f' st st'} : f.placeless = (f'.connecting path.text name).placeless →
    st.SameWithOutput st' → InPlace path name (.failed f st) (.failed f' st')

/-- They do, unless one of the two has run out of fuel: the first one or the second. -/
def Outcome.InPlaceUnless (first : Bool) (path : Path) (name : String) (o o' : Outcome α) : Prop :=
  o.InPlace path name o' ∨ (if first then o else o') = .broken .outOfFuel

theorem Outcome.InStep.refl (o : Outcome α) : o.InStep State.SameWithOutput o := by
  cases o with
  | ok v st => exact .ok (.refl st)
  | failed f st => exact .failed rfl (.refl st)
  | broken reason => exact .broken

variable {first : Bool} {o o' : Outcome α}

theorem Outcome.InPlace.change {k : State → State} (h : o.InPlace path name o')
    (kept : ∀ st st', st.SameWithOutput st' → (k st).SameWithOutput (k st')) :
    (o.change k).InPlace path name (o'.change k) := by
  cases h with
  | inStep both => exact .inStep (both.change kept)
  | connecting same related => exact .connecting same (kept _ _ related)

theorem Outcome.InPlace.void (h : o.InPlace path name o') : o.void.InPlace path name o'.void := by
  cases h with
  | inStep both => exact .inStep both.void
  | connecting same related => exact .connecting same related

theorem Outcome.InPlaceUnless.andThen {f f' : α → Exec β} (h : o.InPlaceUnless first path name o')
    (hf : ∀ v st st', o = .ok v st → o' = .ok v st' → st.SameWithOutput st' →
      (f v st).InPlaceUnless first path name (f' v st')) :
    (o.andThen f).InPlaceUnless first path name (o'.andThen f') := by
  rcases h with alike | spent
  · cases alike with
    | inStep both =>
      cases both with
      | ok related => exact hf _ _ _ rfl rfl related
      | failed same related => exact .inl (.inStep (.failed same related))
      | broken => exact .inl (.inStep .broken)
    | connecting same related => exact .inl (.connecting same related)
  · refine .inr ?_
    cases first <;> simp only [if_true, Bool.false_eq_true, if_false] at spent ⊢ <;> rw [spent] <;>
      rfl

/-! ## The statement -/

/-- A program with another one in its midst, each on lines of its own. -/
def between (before inside behind : String) : String :=
  before ++ "\n" ++ inside ++ "\n" ++ behind

/-- The statement that connects a file. -/
def connection (name : String) : String := "connect \x22" ++ name ++ "\x22"

theorem parse_connection (plain : '"' ∉ name.toList) :
    ∃ span, parse (connection name) = .ok [.at span (.connect name)] := by
  let ss : List Stmt := [.at (Span.point 0) (.connect name)]
  have quote : quoteFor name = '"' := by simp [quoteFor, plain]
  have spelling : Keyword.connect.spelling = "connect" := rfl
  have text : printed ss = connection name := by
    apply String.toList_inj.1
    simp [printed, connection, ss, Token.Kind.written, quote, spelling]
  have writable : ∀ k ∈ kindsOfStmts ss, k.isWritable = true := by
    simp [ss, Token.Kind.isWritable, plain]
  obtain ⟨ts, hts, kinds⟩ := tokens_printed writable (by simp [ss, Token.Kind.ReadsBack])
  simp only [ss, kindsOfStmts, Stmt.kinds, StmtForm.kinds, List.append_nil, map_kind_eq_cons,
    List.map_eq_nil_iff] at kinds
  obtain ⟨p, _, rfl, q, _, rfl, rfl⟩ := kinds
  rw [text] at hts
  exact ⟨_, (parse_eq_ok_iff _ _).2 ⟨_, hts, .cons (.stmt .connect) .nil⟩⟩

/-- The trees of the three texts stand one behind the other, moved. -/
theorem parse_between {before inside behind : String} {ss₁ ss ss₂ : List Stmt}
    (program₁ : parse before = .ok ss₁) (program : parse inside = .ok ss)
    (program₂ : parse behind = .ok ss₂) :
    ∃ g g', parse (between before inside behind) =
      .ok (ss₁ ++ ss.map (Stmt.move g) ++ ss₂.map (Stmt.move g')) :=
  ⟨_, _, parse_join (parse_join program₁ program) program₂⟩

variable {host : Host} {fuel : Nat} {mid st : State} {ss : List Stmt}

theorem block_single (ev : Evaluator) (s : Stmt) (st : State) :
    ev.block [s] st = ev.stmt s st := by
  rw [Evaluator.block, Exec.bind_eq_andThen]
  cases ev.stmt s st with
  | ok flow mid => cases flow <;> rfl
  | failed | broken => rfl

theorem runText_of_program {text : String} (program : parse text = .ok ss)
    (ev : Evaluator) (st : State) : runText ev text st = (ev.block ss st).void := by
  unfold runText
  rw [program]
  change (ev.block ss >>= fun _ => pure ()) st = _
  rw [Exec.bind_apply]
  cases ev.block ss st <;> rfl

/-- The state in which the statements of a connected file begin. -/
def State.inFile (path : Path) (st : State) : State := { st with includes := path :: st.includes }

/-- The file is done with. -/
def State.outOfFile (st : State) : State := { st with includes := st.includes.tail }

theorem State.outOfFile_eq_mapIncludes {files : List Path} (h : st.includes = path :: files) :
    st.outOfFile = st.mapIncludes fun _ => files := by
  unfold outOfFile mapIncludes
  rw [h]
  rfl

/-- With these files in progress, the name leads to another one that holds this program. -/
structure Host.Connects (host : Host) (files : List Path) (name : String) (path : Path)
    (ss : List Stmt) : Prop where
  ending : name.endsWith ".kq" = true
  resolved : host.resolve files name = path
  new : files.contains path = false
  holds : ∃ text, host.files.find? path = some (.text text) ∧ parse text = .ok ss

/-- A statement that connects a file runs the statements of the file, with the path among the
files in progress. -/
theorem connect_of_file {ev : Evaluator} {span : Span}
    (connects : host.Connects mid.includes name path ss) :
    connect host ev span name mid =
      ((ev.block ss (mid.inFile path)).void.change State.outOfFile).connected path name := by
  obtain ⟨kq, rfl, new, text, file, program⟩ := connects
  unfold connect
  simp only [kq, Bool.not_true, Bool.false_eq_true, if_false]
  rw [Exec.get_bind, if_neg (Bool.eq_false_iff.1 new)]
  unfold Host.readFile
  rw [file]
  change (Exec.withFile (host.resolve mid.includes name) (runText ev text) mid).connected _ _ = _
  rw [Exec.withFile_apply, runText_of_program program]
  rfl

/-- The fault of a file is one of the statement, too. -/
theorem block_connect_of_file {span : Span}
    (connects : host.Connects mid.includes name path ss) :
    (evaluator host (fuel + 1)).block [.at span (.connect name)] mid =
      ((((evaluator host fuel).block ss (mid.inFile path)).void.change
        State.outOfFile).connected path name).refault (·.within span) := by
  rw [block_single, ← connect_of_file connects, ← Exec.within_apply]
  rfl

/-- What a statement that connects a file comes to, beside the statements of the file in its
place. -/
theorem connect_inPlace {first : Bool} {span : Span} {inner : List Stmt}
    (connects : host.Connects mid.includes name path ss)
    (bares : inner.map Stmt.bare = ss.map Stmt.bare)
    (calm : ∀ v ∈ (evaluator host fuel).visitBlock ss (mid.inFile path),
      ∀ w ∈ executed host fuel v.node v.state, w.node.usesFiles = false) :
    ((evaluator host (fuel + 1)).block [.at span (.connect name)] mid).InPlaceUnless first path name
      ((evaluator host (fuel + first.toNat)).block inner mid) := by
  have persists : ((evaluator host fuel).block ss (mid.inFile path)).Persists first.toNat
      (fun _ => mid.includes) ((evaluator host (fuel + first.toNat)).block ss mid) :=
    persists_rows host fuel first.toNat (fun _ => mid.includes) fun v hv w hw uses =>
      absurd uses (by simp [calm v hv w hw])
  have kept := keepsIncludes_block host fuel ss (mid.inFile path)
  obtain ⟨text, -, program⟩ := connects.holds
  obtain ⟨ts, -, derived⟩ := (parse_eq_ok_iff text ss).1 program
  have normally : ∀ v last,
      (evaluator host fuel).block ss (mid.inFile path) ≠ .ok (.returned v) last :=
    endsNormally_of_program derived fuel (mid.inFile path)
  have places := block_of_bare host (fuel + first.toNat) (.refl mid) bares.symm
  rw [block_connect_of_file connects]
  generalize (evaluator host fuel).block ss (mid.inFile path) = o at *
  rcases persists with same | ⟨more, spent⟩
  · rw [same] at places
    generalize (evaluator host (fuel + first.toNat)).block inner mid = o' at places
    cases o with
    | ok flow last =>
      cases flow with
      | normal =>
        refine .inl (.inStep ?_)
        change (Outcome.ok Flow.normal last.outOfFile).InStep _ _
        rw [State.outOfFile_eq_mapIncludes (kept last rfl)]
        exact places
      | returned v => exact absurd rfl (normally v last)
    | failed f last =>
      cases places with
      | failed alike related =>
        refine .inl (.connecting ?_ (State.outOfFile_eq_mapIncludes (kept last rfl) ▸ related))
        rw [Fault.placeless_within]
        exact Fault.placeless_connecting alike _ _
    | broken reason =>
      cases places
      exact .inl (.inStep .broken)
  · rw [spent]
    cases first with
    | false => cases more rfl
    | true => exact .inr rfl

/-! ## Rows of statements -/

theorem visitBlock_append (ev : Evaluator) (ss ss' : List Stmt) (st : State) :
    ev.visitBlock (ss ++ ss') st = ev.visitBlock ss st ++ (ev.block ss st).onward fun flow st =>
      match flow with
      | .normal => ev.visitBlock ss' st
      | .returned _ => [] := by
  induction ss generalizing st with
  | nil => rfl
  | cons s ss ih =>
    rw [List.cons_append, Evaluator.visitBlock, Evaluator.visitBlock, Evaluator.block,
      Exec.bind_eq_andThen]
    cases ev.stmt s st with
    | ok flow mid =>
      cases flow with
      | normal => exact congrArg (Visit.stmt s st :: ·) (ih mid)
      | returned v => rfl
    | failed | broken => rfl

/-- The nodes of a connected file are run inside of it. -/
theorem visits_connect {span : Span}
    (connects : host.Connects mid.includes name path ss) :
    visits host (fuel + 1) (.stmt (.at span (.connect name))) mid =
      ((evaluator host fuel).visitBlock ss (mid.inFile path)).map (Visit.inside (.file path)) := by
  obtain ⟨kq, rfl, new, text, file, program⟩ := connects
  change (evaluator host fuel).visitConnect host name mid = _
  unfold Evaluator.visitConnect
  simp only [kq, new, Bool.not_true, Bool.or_false, Bool.false_eq_true, if_false]
  unfold Host.readFile
  rw [file]
  change ((evaluator host fuel).visitText text
    (mid.inFile (host.resolve mid.includes name))).map _ = _
  unfold Evaluator.visitText
  rw [program]

/-- In a row with a statement that connects a file, what is run for that is run inside of it. -/
theorem calm_inFile {span : Span} {ss₁ outer : List Stmt}
    (connects : host.Connects mid.includes name path ss)
    (begins : (evaluator host (fuel + 1)).block ss₁ st = .ok .normal mid)
    (calm : ∀ v ∈ (evaluator host (fuel + 1)).visitBlock
        (ss₁ ++ [.at span (.connect name)] ++ outer) st,
      ∀ w ∈ executed host (fuel + 1) v.node v.state,
        .file path ∈ w.settings → w.node.usesFiles = false) :
    ∀ v ∈ (evaluator host fuel).visitBlock ss (mid.inFile path),
      ∀ w ∈ executed host fuel v.node v.state, w.node.usesFiles = false := by
  intro v hv w hw
  have visited : Visit.stmt (.at span (.connect name)) mid ∈ (evaluator host (fuel + 1)).visitBlock
      (ss₁ ++ [.at span (.connect name)] ++ outer) st := by
    rw [List.append_assoc, visitBlock_append, begins]
    exact List.mem_append_right _ (List.mem_cons_self ..)
  refine calm _ visited (w.within (v.inside (.file path)).settings) ?_ ?_
  · refine List.mem_cons_of_mem _ (List.mem_flatMap.2 ⟨v.inside (.file path), ?_, ?_⟩)
    · change _ ∈ visits host (fuel + 1) (.stmt (.at span (.connect name))) mid
      rw [visits_connect connects]
      exact List.mem_map_of_mem hv
    · exact List.mem_map_of_mem hw
  · simp [Visit.within, Visit.inside]

/-- A row of statements with one among them that connects a file, beside the row that has the
statements of the file in its place. -/
theorem rows_inPlace {first : Bool} {span : Span} {ss₁ inner outer outer' : List Stmt}
    (connects : host.Connects st.includes name path ss)
    (bares : inner.map Stmt.bare = ss.map Stmt.bare)
    (bares' : outer.map Stmt.bare = outer'.map Stmt.bare)
    (calm : ∀ v ∈ (evaluator host (fuel + 1)).visitBlock
        (ss₁ ++ [.at span (.connect name)] ++ outer) st,
      ∀ w ∈ executed host (fuel + 1) v.node v.state,
        .file path ∈ w.settings → w.node.usesFiles = false) :
    ((evaluator host (fuel + 1)).block
        (ss₁ ++ [.at span (.connect name)] ++ outer) st).InPlaceUnless first path name
      ((evaluator host (fuel + first.toNat)).block (ss₁ ++ inner ++ outer') st) := by
  have further (ss : List Stmt) (st : State) : (evaluator host (fuel + 1)).block ss st =
        (evaluator host (fuel + first.toNat)).block ss st ∨
      first = false ∧ (evaluator host (fuel + first.toNat)).block ss st = .broken .outOfFuel := by
    cases first with
    | true => exact .inl rfl
    | false => exact (block_of_more_fuel host fuel 1 ss st).imp id fun spent => ⟨rfl, spent⟩
  have front : ((evaluator host (fuel + 1)).block
        (ss₁ ++ [.at span (.connect name)]) st).InPlaceUnless first path name
      ((evaluator host (fuel + first.toNat)).block (ss₁ ++ inner) st) := by
    rw [block_append, block_append]
    rcases further ss₁ st with same | ⟨rfl, spent⟩
    · rw [← same]
      cases begins : (evaluator host (fuel + 1)).block ss₁ st with
      | ok flow mid =>
        cases flow with
        | normal =>
          have kept : mid.includes = st.includes :=
            keepsIncludes_block host (fuel + 1) ss₁ st mid (by rw [begins]; rfl)
          rw [← kept] at connects
          exact connect_inPlace connects bares (calm_inFile connects begins calm)
        | returned v => exact .inl (.inStep (.refl _))
      | failed | broken => exact .inl (.inStep (.refl _))
    · exact .inr (by rw [spent]; rfl)
  rw [block_append (ss₁ ++ _) outer, block_append (ss₁ ++ inner) outer']
  refine front.andThen fun flow mid mid' _ _ related => ?_
  cases flow with
  | returned v => exact .inl (.inStep (.ok related))
  | normal =>
    have places := block_of_bare host (fuel + 1) related bares'
    rcases further outer' mid' with same | ⟨rfl, spent⟩
    · rw [same] at places
      exact .inl (.inStep places)
    · exact .inr spent

/-! ## Whole sources -/

/-- A program that connects a file, beside the one that has the text of the file in the place of
the statement. The path may not be among the files in progress, and no node that is run for the
file uses files: so it is if nothing else is connected and nothing is read. If the one program
comes to an end, so does the other, and these ends are alike: the same lines are printed, the
same frames, globals, arrays and (up to places) functions are left, and either there is no fault
or the same one on both sides, but for its place, its origin and its note. -/
theorem to_connect_a_file_is_to_have_its_text_there {host : Host} {fuel : Nat} {st : State}
    {before inside behind name : String} {ss₁ ss ss₂ : List Stmt} (origin : Option String)
    (program₁ : parse before = .ok ss₁) (program : parse inside = .ok ss)
    (program₂ : parse behind = .ok ss₂) (kq : name.endsWith ".kq" = true)
    (plain : '"' ∉ name.toList) :
    let connects : Source := ⟨between before (connection name) behind, origin⟩
    let contains : Source := ⟨between before inside behind, origin⟩
    let path := host.resolve (connects.enter host st).includes name
    path ∉ (connects.enter host st).includes →
    host.files.find? path = some (.text inside) →
    (∀ v ∈ connects.executed host (fuel + 1) st,
      .file path ∈ v.settings → v.node.usesFiles = false) →
    (connects.run host (fuel + 1) st ≠ .broken .outOfFuel →
      (connects.run host (fuel + 1) st).InPlace path name (contains.run host (fuel + 1) st)) ∧
    (contains.run host fuel st ≠ .broken .outOfFuel →
      (connects.run host (fuel + 1) st).InPlace path name (contains.run host fuel st)) := by
  intro connects contains path new file calm
  obtain ⟨span, statement⟩ := parse_connection plain
  obtain ⟨g, g', connecting⟩ := parse_between program₁ statement program₂
  obtain ⟨i, i', containing⟩ := parse_between program₁ program program₂
  -- the two rows of statements, and the state that they begin in
  let row := ss₁ ++ [.at (span.move g) (.connect name)] ++ ss₂.map (Stmt.move g')
  let row' := ss₁ ++ ss.map (Stmt.move i) ++ ss₂.map (Stmt.move i')
  let begun := connects.enter host st
  have visited : connects.visits host (fuel + 1) st =
      (evaluator host (fuel + 1)).visitBlock row begun := by
    unfold Source.visits Evaluator.visitText
    rw [connecting]
    rfl
  have found : host.Connects begun.includes name path ss :=
    ⟨kq, rfl, by simpa using new, inside, file, program⟩
  have both (first : Bool) : ((evaluator host (fuel + 1)).block row begun).InPlaceUnless first path
      name ((evaluator host (fuel + first.toNat)).block row' begun) := by
    refine rows_inPlace found (by simp) (by simp) fun v hv w hw inFile => ?_
    refine calm (w.within v.settings) ?_ (List.mem_append_left _ inFile)
    exact List.mem_flatMap.2 ⟨v, visited ▸ hv, List.mem_map_of_mem hw⟩
  have left : connects.run host (fuel + 1) st =
      ((evaluator host (fuel + 1)).block row begun).void.change connects.leave :=
    connects.run_program connecting host (fuel + 1) st
  have right (fuel : Nat) : contains.run host fuel st =
      ((evaluator host fuel).block row' begun).void.change connects.leave :=
    connects.run_program containing host fuel st
  have ends {o o' : Outcome Flow} (h : o.InPlace path name o') :
      (o.void.change connects.leave).InPlace path name (o'.void.change connects.leave) :=
    h.void.change fun _ _ => connects.sameWithOutput_leave
  rw [left, right, right]
  refine ⟨fun enough => ?_, fun enough => ?_⟩
  · refine ends ((both true).resolve_right fun spent => enough ?_)
    rw [show (evaluator host (fuel + 1)).block row begun = .broken .outOfFuel from spent]
    rfl
  · refine ends ((both false).resolve_right fun spent => enough ?_)
    rw [show (evaluator host fuel).block row' begun = .broken .outOfFuel from spent]
    rfl

/-- A file that uses a variable of the program and makes one for it, in a call in progress. -/
theorem a_file_between_two_statements :
    let inside := "let x = y + 1 show x"
    let host : Host := ⟨Files.inMemory.insert "lib.kq" (.text inside), none⟩
    let st : State := { State.initial with env := Environment.empty.pushFrame Scope.empty }
    let connects : Source := ⟨between "let y = 1" (connection "lib.kq") "show x * 10", none⟩
    let contains : Source := ⟨between "let y = 1" inside "show x * 10", none⟩
    (connects.run host 9 st).InPlace ⟨true, ["lib.kq"]⟩ "lib.kq" (contains.run host 9 st) ∧
      (connects.run host 9 st).InPlace ⟨true, ["lib.kq"]⟩ "lib.kq" (contains.run host 8 st) ∧
      (connects.run host 9 st).state?.map State.output = some #[⟨.info, "2"⟩, ⟨.info, "20"⟩] := by
  intro inside host st connects contains
  obtain ⟨ss₁, program₁⟩ : ∃ ss, parse "let y = 1" = .ok ss := exists_of_isOk (by decide +kernel)
  obtain ⟨ss, program⟩ : ∃ ss, parse inside = .ok ss := exists_of_isOk (by decide +kernel)
  obtain ⟨ss₂, program₂⟩ : ∃ ss, parse "show x * 10" = .ok ss :=
    exists_of_isOk (by decide +kernel)
  have own : ∀ v ∈ connects.executed host 9 st,
      v.node.usesFiles = true → v.settings.length = 0 := by decide +kernel
  have calm : ∀ v ∈ connects.executed host 9 st,
      .file ⟨true, ["lib.kq"]⟩ ∈ v.settings → v.node.usesFiles = false := by
    intro v hv inFile
    apply Bool.eq_false_iff.2
    intro uses
    rw [List.length_eq_zero_iff.1 (own v hv uses)] at inFile
    cases inFile
  have resolved : host.resolve (connects.enter host st).includes "lib.kq" = ⟨true, ["lib.kq"]⟩ := by
    decide +kernel
  have ends : (connects.run host 9 st).isOk = true := by decide +kernel
  have ends' : (contains.run host 8 st).isOk = true := by decide +kernel
  have output : (connects.run host 9 st).state?.map State.output =
      some #[⟨.info, "2"⟩, ⟨.info, "20"⟩] := by decide +kernel
  have alike := @to_connect_a_file_is_to_have_its_text_there host 8 st "let y = 1" inside
    "show x * 10" "lib.kq" ss₁ ss ss₂ none program₁ program program₂ (by decide +kernel)
    (by decide +kernel)
  dsimp only at alike
  rw [resolved] at alike
  obtain ⟨forth, back⟩ := alike (by decide +kernel) (by decide +kernel) calm
  exact ⟨forth (fun spent => by rw [spent] at ends; cases ends),
    back (fun spent => by rw [spent] at ends'; cases ends'), output⟩

end BraceScript
