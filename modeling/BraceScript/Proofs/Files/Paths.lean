-- Where a path leads to, name by name, and that the normal form of an
-- absolute path is the only way to write that place down.
import Mathlib.Data.List.Basic
import BraceScript.Path

namespace BraceScript

namespace Path

/-! ## Names -/

/-- What a file or a directory can be called. -/
structure IsName (part : String) : Prop where
  nonempty : part ≠ ""
  ne_here : part ≠ "."
  ne_up : part ≠ ".."
  slashless : '/' ∉ part.toList

theorem slash_not_mem_splitOn {text piece : List Char} (h : piece ∈ text.splitOn '/') :
    '/' ∉ piece := by
  induction text generalizing piece with
  | nil => simp_all
  | cons c text ih =>
    rw [List.splitOn_cons_eq_if_modifyHead] at h
    split at h
    · rcases List.mem_cons.1 h with rfl | h
      · simp
      · exact ih h
    · next other =>
      cases pieces : text.splitOn '/' with
      | nil => exact absurd pieces (List.splitOn_ne_nil _ _)
      | cons first rest =>
        rw [pieces, List.modifyHead_cons] at h
        have firstSlashless : '/' ∉ first := ih (by simp [pieces])
        rcases List.mem_cons.1 h with rfl | h
        · have ne : c ≠ '/' := by simpa using other
          simp [ne.symm, firstSlashless]
        · exact ih (by simp [pieces, h])

theorem slash_not_mem_names {text name : String} (h : name ∈ names text) :
    '/' ∉ name.toList := by
  obtain ⟨piece, hp, rfl⟩ := List.mem_map.1 h
  rw [String.toList_ofList]
  exact slash_not_mem_splitOn hp

/-- The parts are what a text can have between its slashes. -/
def Written (p : Path) : Prop := ∀ part ∈ p.parts, part ≠ "" ∧ part ≠ "." ∧ '/' ∉ part.toList

/-- The path starts at the root and only goes down from there. -/
structure Settled (p : Path) : Prop where
  absolute : p.absolute = true
  names : ∀ part ∈ p.parts, IsName part

theorem written_ofText (text : String) : (ofText text).Written := by
  intro part hpart
  obtain ⟨named, kept⟩ := List.mem_filter.1 hpart
  have slashless := slash_not_mem_names named
  simp only [Bool.and_eq_true, Bool.not_eq_true', String.isEmpty_eq_false_iff, bne_iff_ne] at kept
  exact ⟨kept.1, kept.2, slashless⟩

theorem Settled.written {p : Path} (h : p.Settled) : p.Written := fun part hpart =>
  have name := h.names part hpart
  ⟨name.nonempty, name.ne_here, name.slashless⟩

theorem settled_root : root.Settled := ⟨rfl, by simp [root]⟩

theorem Settled.parent {p dir : Path} (h : p.Settled) (inside : p.parent? = some dir) :
    dir.Settled := by
  unfold parent? at inside
  split at inside
  · cases inside
  · cases inside
    exact ⟨h.absolute, fun part hpart => h.names part (List.dropLast_subset _ hpart)⟩

/-! ## Following a path -/

/-- Where a name leads to from a directory. The root lies in itself. -/
def step (here : List String) (name : String) : List String :=
  if name = "" ∨ name = "." then here
  else if name = ".." then here.dropLast
  else here ++ [name]

def walk (here names : List String) : List String := names.foldl step here

/-- Where a text leads to from a directory, as the names on the way there from the root. -/
def reached (dir : Path) (text : String) : List String :=
  walk (if text.toList.head? = some '/' then [] else walk [] dir.parts) (names text)

theorem walk_append (here names names' : List String) :
    walk here (names ++ names') = walk (walk here names) names' := List.foldl_append

theorem walk_filter (here names : List String) :
    walk here (names.filter fun part => !part.isEmpty && part != ".") = walk here names := by
  unfold walk
  induction names generalizing here with
  | nil => rfl
  | cons name names ih =>
    by_cases idle : name = "" ∨ name = "."
    · have dropped : (!name.isEmpty && name != ".") = false := by
        rcases idle with rfl | rfl <;> rfl
      simp only [List.filter_cons, dropped, List.foldl_cons, step, if_pos idle]
      exact ih here
    · have kept : (!name.isEmpty && name != ".") = true := by
        simpa [not_or] using idle
      simp only [List.filter_cons, kept, if_true, List.foldl_cons]
      exact ih _

theorem isName_of_mem_step {here : List String} {name part : String}
    (all : ∀ part ∈ here, IsName part) (slashless : '/' ∉ name.toList)
    (h : part ∈ step here name) : IsName part := by
  unfold step at h
  split at h
  · exact all part h
  · next busy =>
    split at h
    · exact all part (List.dropLast_subset _ h)
    · next down =>
      rcases List.mem_append.1 h with h | h
      · exact all part h
      · rw [List.mem_singleton.1 h]
        exact ⟨fun e => busy (.inl e), fun e => busy (.inr e), down, slashless⟩

theorem isName_of_mem_walk {here names : List String} (all : ∀ part ∈ here, IsName part)
    (slashless : ∀ name ∈ names, '/' ∉ name.toList) : ∀ part ∈ walk here names, IsName part := by
  unfold walk
  induction names generalizing here with
  | nil => exact all
  | cons name names ih =>
    rw [List.forall_mem_cons] at slashless
    exact ih (fun part => isName_of_mem_step all slashless.1) slashless.2

theorem walk_of_names {here names : List String} (all : ∀ name ∈ names, IsName name) :
    walk here names = here ++ names := by
  unfold walk
  induction names generalizing here with
  | nil => simp
  | cons name names ih =>
    rw [List.forall_mem_cons] at all
    have down : step here name = here ++ [name] := by
      simp [step, all.1.nonempty, all.1.ne_here, all.1.ne_up]
    rw [List.foldl_cons, down, ih all.2, List.append_assoc, List.singleton_append]

/-! ## Normal forms of absolute paths -/

theorem pass_reverse {here : List String} {name : String} (all : ∀ part ∈ here, IsName part)
    (busy : name ≠ "" ∧ name ≠ ".") : pass true here.reverse name = (step here name).reverse := by
  have busy' : ¬ (name = "" ∨ name = ".") := by simp [busy]
  unfold pass step
  rw [if_neg busy']
  split
  · obtain rfl | ⟨before, last, rfl⟩ := List.eq_nil_or_concat' here
    · rfl
    · have name : last ≠ ".." := (all last (by simp)).ne_up
      simp [name]
  · simp

/-- The normal form has the names on the way. -/
theorem normal_eq_walk {p : Path} (absolute : p.absolute = true) (written : p.Written) :
    p.normal = ⟨true, walk [] p.parts⟩ := by
  obtain ⟨_, parts⟩ := p
  cases absolute
  suffices passed : ∀ here : List String, (∀ part ∈ here, IsName part) →
      parts.foldl (pass true) here.reverse = (walk here parts).reverse by
    have := passed [] (by simp)
    simp only [List.reverse_nil] at this
    simp [normal, this]
  induction parts with
  | nil => exact fun _ _ => rfl
  | cons name names ih =>
    intro here all
    obtain ⟨first, rest⟩ := List.forall_mem_cons.1 written
    rw [List.foldl_cons, pass_reverse all ⟨first.1, first.2.1⟩]
    exact ih rest _ fun part => isName_of_mem_step all first.2.2

theorem settled_normal {p : Path} (absolute : p.absolute = true) (written : p.Written) :
    p.normal.Settled := by
  rw [normal_eq_walk absolute written]
  exact ⟨rfl, isName_of_mem_walk (by simp) fun part hpart => (written part hpart).2.2⟩

theorem Settled.normal {p : Path} (h : p.Settled) : p.normal = p := by
  rw [normal_eq_walk h.absolute h.written, walk_of_names h.names, ← h.absolute]
  rfl

/-- Whatever it is spelled like, a place has one normal path. -/
theorem resolve_eq_reached {dir : Path} (absolute : dir.absolute = true) (written : dir.Written)
    (text : String) : dir.resolve text = ⟨true, dir.reached text⟩ := by
  unfold resolve join reached
  have spelled := written_ofText text
  by_cases rooted : text.toList.head? = some '/'
  · have fromRoot : (ofText text).absolute = true := by simp [ofText, rooted]
    rw [if_pos fromRoot, if_pos rooted, normal_eq_walk fromRoot spelled]
    congr 1
    exact walk_filter [] (names text)
  · have fromHere : (ofText text).absolute = false := by simpa [ofText] using rooted
    let joined : Path := ⟨dir.absolute, dir.parts ++ (ofText text).parts⟩
    have both : joined.Written := List.forall_mem_append.2 ⟨written, spelled⟩
    have normal : joined.normal = _ := normal_eq_walk absolute both
    rw [if_neg (by simp [fromHere]), if_neg rooted, normal, walk_append]
    congr 1
    exact walk_filter _ (names text)

theorem settled_resolve {dir : Path} (absolute : dir.absolute = true) (written : dir.Written)
    (text : String) : (dir.resolve text).Settled := by
  have spelled := written_ofText text
  unfold resolve join
  split
  · next fromRoot => exact settled_normal fromRoot spelled
  · exact settled_normal absolute (List.forall_mem_append.2 ⟨written, spelled⟩)

end Path

end BraceScript
