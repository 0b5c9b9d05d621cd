-- A file has one normal path: whatever a path is simplified to, step by step
-- and in any order, it ends in its normal form. So a file in memory is found
-- under every spelling of its path and under no other path.
import Mathlib.Logic.Relation
import BraceScript.Proofs.Files.Paths
import BraceScript.Proofs.Run.Includes

namespace BraceScript

namespace Path

variable {absolute : Bool} {p q b : Path} {passed parts names : List String}

/-! ## Simplifying -/

/-- One double dot fewer: together with the name that it takes back, or at the root, where there
is nothing to take back. -/
inductive Simplifies : Path → Path → Prop where
  | back {absolute before name after} : name ≠ ".." →
    Simplifies ⟨absolute, before ++ name :: ".." :: after⟩ ⟨absolute, before ++ after⟩
  | top {after} : Simplifies ⟨true, ".." :: after⟩ ⟨true, after⟩

theorem pass_name {part : String} (ne : part ≠ "..") : pass absolute passed part = part :: passed :=
  if_neg ne

theorem pass_stays : pass absolute (".." :: passed) ".." = ".." :: ".." :: passed := rfl

theorem pass_back {last : String} (ne : last ≠ "..") :
    pass absolute (last :: passed) ".." = passed := by
  rw [pass, if_pos rfl]
  exact if_neg ne

/-- What has been passed stands in front, the last name first. -/
theorem reflTransGen_foldl_pass (passed parts : List String) :
    Relation.ReflTransGen Simplifies ⟨absolute, passed.reverse ++ parts⟩
      ⟨absolute, (parts.foldl (pass absolute) passed).reverse⟩ := by
  induction parts generalizing passed with
  | nil =>
    rw [List.append_nil]
    exact .refl
  | cons part parts ih =>
    have rest := ih (pass absolute passed part)
    rw [List.foldl_cons]
    by_cases up : part = ".."
    · subst up
      cases passed with
      | nil =>
        cases absolute
        · exact rest
        · exact .head .top rest
      | cons last before =>
        rw [List.reverse_cons, List.append_assoc, List.singleton_append]
        by_cases stays : last = ".."
        · subst stays
          simpa [pass_stays] using rest
        · refine .head (.back stays) ?_
          rwa [pass_back stays] at rest ⊢
    · simpa [pass_name up] using rest

theorem reflTransGen_normal (p : Path) : Relation.ReflTransGen Simplifies p p.normal :=
  reflTransGen_foldl_pass [] p.parts

/-- Simplifying leads to the same normal form. -/
theorem Simplifies.normal_eq (h : Simplifies p q) : p.normal = q.normal := by
  cases h with
  | back ne => simp [normal, pass_name ne, pass_back ne]
  | top => rfl

theorem normal_eq_of_reflTransGen (h : Relation.ReflTransGen Simplifies p q) :
    p.normal = q.normal := by
  induction h with
  | refl => rfl
  | tail _ step ih => exact ih.trans step.normal_eq

/-- The normal form of a normal form is the same. -/
theorem normal_normal (p : Path) : p.normal.normal = p.normal :=
  (normal_eq_of_reflTransGen (reflTransGen_normal p)).symm

theorem pass_sublist (absolute : Bool) (passed : List String) (part : String) :
    (pass absolute passed part).Sublist (part :: passed) := by
  by_cases up : part = ".."
  · subst up
    cases passed with
    | nil =>
      cases absolute
      · exact List.Sublist.refl _
      · exact List.nil_sublist _
    | cons last before =>
      by_cases stays : last = ".."
      · subst stays
        exact List.Sublist.refl _
      · rw [pass_back stays]
        exact (List.sublist_cons_self last before).cons _
  · rw [pass_name up]

/-- Nothing is in a normal form but what is in the path, in the same order. -/
theorem normal_sublist (p : Path) : p.normal.parts.Sublist p.parts := by
  suffices all : ∀ passed, (p.parts.foldl (pass p.absolute) passed).Sublist
      (p.parts.reverse ++ passed) by
    simpa [normal] using (all []).reverse
  induction p.parts with
  | nil => exact fun passed => List.Sublist.refl _
  | cons part parts ih =>
    intro passed
    have one := (pass_sublist p.absolute passed part).append_left parts.reverse
    rw [List.foldl_cons, List.reverse_cons, List.append_assoc]
    exact (ih _).trans one

theorem Written.normal (written : p.Written) : p.normal.Written := fun part hpart =>
  written part ((normal_sublist p).subset hpart)

theorem Simplifies.length_lt (h : Simplifies p q) : q.parts.length < p.parts.length := by
  cases h with
  | back =>
    simp only [List.length_append, List.length_cons]
    omega
  | top => exact Nat.lt_succ_self _

/-- There is nothing to be simplified in a normal form. -/
theorem not_simplifies_normal (p q : Path) : ¬ Simplifies p.normal q := by
  intro step
  have same : q.normal = p.normal := by rw [← step.normal_eq, normal_normal]
  have le := (normal_sublist q).length_le
  rw [same] at le
  exact absurd step.length_lt (by omega)

/-- A path is simplified to its normal form and to no other path that cannot be simplified. -/
theorem eq_normal_iff :
    q = p.normal ↔ Relation.ReflTransGen Simplifies p q ∧ ∀ r, ¬ Simplifies q r := by
  constructor
  · rintro rfl
    exact ⟨reflTransGen_normal p, not_simplifies_normal p⟩
  · rintro ⟨steps, last⟩
    rw [normal_eq_of_reflTransGen steps]
    rcases (reflTransGen_normal q).cases_head with same | ⟨r, step, -⟩
    · exact same
    · exact absurd step (last r)

/-! ## Joining -/

theorem Simplifies.join (h : Simplifies b q) (p : Path) :
    b.join p = q.join p ∨ Simplifies (b.join p) (q.join p) := by
  unfold Path.join
  split
  · exact .inl rfl
  · right
    cases h with
    | back ne =>
      simp only [List.append_assoc, List.cons_append]
      exact .back ne
    | top => exact .top

/-- Seen from a directory, a path leads to the same place as from its normal form. -/
theorem normal_join (b p : Path) : (b.normal.join p).normal = (b.join p).normal := by
  suffices same : ∀ q, Relation.ReflTransGen Simplifies b q →
      (q.join p).normal = (b.join p).normal from same _ (reflTransGen_normal b)
  intro q steps
  induction steps with
  | refl => rfl
  | tail _ step ih =>
    rcases step.join p with same | step
    · rw [← same, ih]
    · rw [← step.normal_eq, ih]

/-! ## Texts of paths -/

/-- Names with slashes between them are read as these names. -/
theorem filter_splitOn_intercalate
    (written : ∀ part ∈ parts, part ≠ "" ∧ part ≠ "." ∧ '/' ∉ part.toList) :
    (((['/'].intercalate (parts.map String.toList)).splitOn '/').map String.ofList).filter
      (fun part => !part.isEmpty && part != ".") = parts := by
  by_cases none : parts = []
  · subst none
    rfl
  · have slashless : ∀ piece ∈ parts.map String.toList, '/' ∉ piece := by
      intro piece hpiece
      obtain ⟨part, hpart, rfl⟩ := List.mem_map.1 hpiece
      exact (written part hpart).2.2
    rw [List.splitOn_intercalate '/' slashless (by simpa using none), List.map_map,
      String.ofList_comp_toList, List.map_id, List.filter_eq_self]
    intro part hpart
    simp [(written part hpart).1, (written part hpart).2.1]

/-- Names with slashes between them do not begin with a slash. -/
theorem head?_intercalate_ne
    (written : ∀ part ∈ parts, part ≠ "" ∧ part ≠ "." ∧ '/' ∉ part.toList) :
    (['/'].intercalate (parts.map String.toList)).head? ≠ some '/' := by
  cases parts with
  | nil => simp
  | cons part parts =>
    obtain ⟨some, -, slashless⟩ := written part List.mem_cons_self
    have chars : part.toList ≠ [] := by simpa using some
    have first : (['/'].intercalate ((part :: parts).map String.toList)).head? =
        part.toList.head? := by
      cases parts with
      | nil => simp
      | cons next parts =>
        rw [List.map_cons, List.intercalate_cons_of_ne_nil (by simp), List.append_assoc,
          List.head?_append_of_ne_nil _ chars]
    rw [first]
    exact fun slash => slashless (List.mem_of_mem_head? slash)

/-- The text of a path spells it. -/
theorem ofText_text (written : p.Written) : ofText p.text = p := by
  obtain ⟨absolute, parts⟩ := p
  have read := filter_splitOn_intercalate written
  have relative := head?_intercalate_ne written
  have whole : (text ⟨absolute, parts⟩).toList =
      (if absolute then ['/'] else []) ++ ['/'].intercalate (parts.map String.toList) := by
    rw [text, String.toList_append, String.toList_intercalate]
    cases absolute <;> simp
  cases absolute
  · simp only [ofText, names, whole, Bool.false_eq_true, if_false, List.nil_append, read]
    simpa using relative
  · simp only [ofText, names, whole, if_true, List.singleton_append, List.head?_cons]
    rw [List.splitOn_cons_eq_if_modifyHead, if_pos (beq_self_eq_true _), List.map_cons,
      List.filter_cons_of_neg (by simp), read]
    simp

end Path

/-! ## Files in memory -/

namespace Files

open BraceScript.Path

variable {texts : List (String × String)} {p : Path}

/-- The last of the files that have been put under the path, in any spelling. -/
def lastAt? (texts : List (String × String)) (p : Path) : Option (String × String) :=
  texts.reverse.find? fun entry => (Path.root.join (Path.ofText entry.1)).normal = p.normal

theorem lookup_reverse (texts : List (String × String)) (p : Path) :
    (Files.holding texts).entries.lookup p.normal =
      (lastAt? texts p).map fun entry => .text entry.2 := by
  rw [Files.holding_eq, ← List.map_reverse, lastAt?]
  generalize texts.reverse = entries
  induction entries with
  | nil => rfl
  | cons entry entries ih =>
    rw [List.map_cons, List.lookup_cons, List.find?_cons, Path.resolve]
    by_cases same : (Path.root.join (Path.ofText entry.1)).normal = p.normal
    · simp [same]
    · simp [beq_false_of_ne (Ne.symm same), same, ih]

/-- In memory, what is known about a path is the text that was put there last. -/
theorem find?_holding (texts : List (String × String)) (p : Path) :
    (Files.holding texts).find? p = some (match lastAt? texts p with
      | some entry => .text entry.2
      | none => .unreadable .missing "no such file") := by
  have memory : (Files.holding texts).storage = .memory := by rw [Files.holding_eq]
  rw [find?, memory]
  simp only [known?, memory, lookup_reverse]
  cases lastAt? texts p <;> rfl

theorem lastAt?_eq_some_iff {name contents : String} :
    lastAt? texts p = some (name, contents) ↔ ∃ before behind,
      texts = before ++ (name, contents) :: behind ∧
        (Path.root.join (Path.ofText name)).normal = p.normal ∧
        ∀ entry ∈ behind, (Path.root.join (Path.ofText entry.1)).normal ≠ p.normal := by
  rw [lastAt?, List.find?_eq_some_iff_append]
  constructor
  · rintro ⟨here, behind, before, split, other⟩
    refine ⟨before.reverse, behind.reverse, ?_, by simpa using here, fun entry hentry => ?_⟩
    · rw [← List.reverse_reverse texts, split]
      simp
    · simpa using other entry (List.mem_reverse.1 hentry)
  · rintro ⟨before, behind, rfl, here, other⟩
    refine ⟨by simpa using here, behind.reverse, before.reverse, by simp, fun entry hentry => ?_⟩
    simpa using other entry (List.mem_reverse.1 hentry)

theorem find?_eq_text_iff {contents : String} :
    (Files.holding texts).find? p = some (.text contents) ↔ ∃ before name behind,
      texts = before ++ (name, contents) :: behind ∧
        (Path.root.join (Path.ofText name)).normal = p.normal ∧
        ∀ entry ∈ behind, (Path.root.join (Path.ofText entry.1)).normal ≠ p.normal := by
  have found : (Files.holding texts).find? p = some (.text contents) ↔
      ∃ name, lastAt? texts p = some (name, contents) := by
    rw [find?_holding]
    cases lastAt? texts p with
    | none => simp
    | some entry => simp [Prod.ext_iff]
  simp only [found, lastAt?_eq_some_iff]
  constructor
  · rintro ⟨name, before, behind, there⟩
    exact ⟨before, name, behind, there⟩
  · rintro ⟨before, name, behind, there⟩
    exact ⟨name, before, behind, there⟩

theorem find?_eq_missing_iff :
    (Files.holding texts).find? p = some (.unreadable .missing "no such file") ↔
      ∀ entry ∈ texts, (Path.root.join (Path.ofText entry.1)).normal ≠ p.normal := by
  have absent : (Files.holding texts).find? p = some (.unreadable .missing "no such file") ↔
      lastAt? texts p = none := by
    rw [find?_holding]
    cases lastAt? texts p <;> simp
  rw [absent, lastAt?, List.find?_eq_none]
  simp

end Files

/-- A path has one normal form, which is its own normal form, is read back from its text and stays
the same if the directory is brought to its normal form before the path is joined to it; from the
root it goes down by names alone. It is what the path comes to when double dots are removed one by
one, in any order, until none can be. So what is read in memory, from any directory and by any
spelling, is the text that was put last where the path leads to, and there is no such file exactly
if none was put there. -/
theorem a_file_has_one_normal_path :
    (∀ p : Path, p.normal.normal = p.normal) ∧
    (∀ b p : Path, (b.normal.join p).normal = (b.join p).normal) ∧
    (∀ p : Path, p.absolute = true → p.Written → p.normal.Settled) ∧
    (∀ text, (Path.ofText text).Written ∧
      Path.ofText (Path.ofText text).normal.text = (Path.ofText text).normal) ∧
    (∀ p q : Path, q = p.normal ↔
      Relation.ReflTransGen Path.Simplifies p q ∧ ∀ r, ¬ Path.Simplifies q r) ∧
    ∀ (texts : List (String × String)) (b : Path) (text : String),
      let leadsHere (name : String) : Prop :=
        (Path.root.join (Path.ofText name)).normal = (b.join (Path.ofText text)).normal
      (∀ contents, (Files.holding texts).find? (b.resolve text) = some (.text contents) ↔
        ∃ before name behind, texts = before ++ (name, contents) :: behind ∧ leadsHere name ∧
          ∀ entry ∈ behind, ¬ leadsHere entry.1) ∧
      ((Files.holding texts).find? (b.resolve text) =
          some (.unreadable .missing "no such file") ↔
        ∀ entry ∈ texts, ¬ leadsHere entry.1) := by
  refine ⟨Path.normal_normal, Path.normal_join, fun p => Path.settled_normal, fun text =>
    ⟨Path.written_ofText text, Path.ofText_text (Path.written_ofText text).normal⟩,
    fun p q => Path.eq_normal_iff, ?_⟩
  intro texts b text leadsHere
  have here : (b.resolve text).normal = (b.join (Path.ofText text)).normal := Path.normal_normal _
  constructor
  · intro contents
    rw [Files.find?_eq_text_iff, here]
  · rw [Files.find?_eq_missing_iff, here]

end BraceScript
