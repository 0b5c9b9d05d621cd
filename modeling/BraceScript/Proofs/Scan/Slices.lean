-- Slices of a text. What is cut off behind an item does not change the items
-- before it, so a slice from the beginning of an item to the end of one has
-- the items that stand there, and no others.
import BraceScript.Proofs.Scan.Coverage

namespace BraceScript

variable {p : Char → Bool} {c : Char} {a b x : List Char}

/-! ## One piece -/

/-- If what is dropped ends with `b`, then as much is taken without `b`. -/
theorem span_of_dropWhile (h : (a ++ b).dropWhile p = x ++ b) :
    a.takeWhile p = (a ++ b).takeWhile p ∧ a.dropWhile p = x := by
  have whole := List.takeWhile_append_dropWhile (p := p) (l := a ++ b)
  rw [h, ← List.append_assoc] at whole
  have front : (a ++ b).takeWhile p ++ x = a := List.append_cancel_right whole
  have all : ∀ c ∈ (a ++ b).takeWhile p, p c = true := List.all_eq_true.1 List.all_takeWhile
  have stops : x.takeWhile p = [] ∧ x.dropWhile p = x := by
    cases x with
    | nil => simp
    | cons d x =>
      have first : d ∈ ((a ++ b).dropWhile p).head? := by simp [h]
      have stop : p d = false := head?_dropWhile_eq_false first
      simp [stop]
  constructor
  · calc a.takeWhile p = ((a ++ b).takeWhile p ++ x).takeWhile p := by rw [front]
      _ = (a ++ b).takeWhile p := by
        rw [List.takeWhile_append_of_pos all, stops.1, List.append_nil]
  · calc a.dropWhile p = ((a ++ b).takeWhile p ++ x).dropWhile p := by rw [front]
      _ = x := by rw [List.dropWhile_append_of_pos all, stops.2]

/-- The piece in front of something else. -/
def Cut.before (front : Cut) (x : List Char) : Cut := { front with rest := x }

theorem cutWord_before (h : (cutWord (a ++ b)).rest = x ++ b) :
    cutWord a = (cutWord (a ++ b)).before x := by
  obtain ⟨taken, rest⟩ := span_of_dropWhile h
  simp only [cutWord, Cut.before, taken, rest]

theorem cutComment_before (h : (cutComment (a ++ b)).rest = x ++ b) :
    cutComment a = (cutComment (a ++ b)).before x := by
  obtain ⟨taken, rest⟩ := span_of_dropWhile h
  simp only [cutComment, Cut.before, taken, rest]

theorem cutNumber_before (h : (cutNumber (a ++ b)).rest = x ++ b) :
    cutNumber a = (cutNumber (a ++ b)).before x := by
  unfold cutNumber at h ⊢
  split at h
  · next rest point =>
    obtain ⟨y, rfl⟩ : ∃ y, rest = y ++ b := by
      refine ⟨rest.takeWhile Number.isDigit ++ x, ?_⟩
      rw [List.append_assoc, ← h]
      exact List.takeWhile_append_dropWhile.symm
    obtain ⟨whole, behind⟩ := span_of_dropWhile (x := '.' :: y) point
    obtain ⟨fraction, rest⟩ := span_of_dropWhile h
    simp only [whole, behind, fraction, rest, Cut.before]
  · next pointless =>
    obtain ⟨taken, behind⟩ := span_of_dropWhile h
    split
    · next y point =>
      obtain rfl := behind.symm.trans point
      exact (pointless (y ++ b) h).elim
    · simp only [taken, behind, Cut.before]

theorem cutText_before (h : (cutText c (a ++ b)).rest = x ++ b) :
    cutText c a = (cutText c (a ++ b)).before x := by
  unfold cutText at h ⊢
  split at h
  · next d rest closed =>
    obtain rfl : rest = x ++ b := h
    obtain ⟨taken, behind⟩ := span_of_dropWhile (x := d :: x) closed
    simp only [taken, behind, Cut.before]
  · next open_ =>
    obtain ⟨rfl, rfl⟩ : x = [] ∧ b = [] := by simpa using h.symm
    rw [List.append_nil] at open_
    simp [Cut.before, open_]

theorem cutSign_before (h : (cutSign c (a ++ b)).rest = x ++ b) :
    cutSign c a = (cutSign c (a ++ b)).before x := by
  have longer (s : Sign) (begins : s.chars.isPrefixOf (c :: a) = true) :
      s.chars.isPrefixOf (c :: (a ++ b)) = true := by
    rw [List.isPrefixOf_iff_prefix] at begins ⊢
    exact begins.trans (List.prefix_append (c :: a) b)
  have whole := cutSign_taken_append_rest c (a ++ b)
  unfold cutSign at h whole ⊢
  split at h
  · next s found =>
    rw [found] at whole
    dsimp only at h whole
    have front : s.chars ++ x = c :: a := by
      rw [h, ← List.append_assoc, ← List.cons_append] at whole
      exact List.append_cancel_right whole
    have begins : s.chars.isPrefixOf (c :: a) = true := by
      rw [← front, List.isPrefixOf_iff_prefix]
      exact List.prefix_append _ _
    obtain ⟨-, before, behind, split, earlier⟩ := List.find?_eq_some_iff_append.1 found
    have same : (Sign.all.find? fun s => s.chars.isPrefixOf (c :: a)) = some s := by
      refine List.find?_eq_some_iff_append.2 ⟨begins, before, behind, split, fun s' hs' => ?_⟩
      have other := earlier s' hs'
      simp only [Bool.not_eq_true'] at other ⊢
      exact Bool.eq_false_iff.2 fun begins' => by simp [longer s' begins'] at other
    have rest : (c :: a).drop s.chars.length = x := by rw [← front, List.drop_left]
    simp only [same, rest, Cut.before]
  · next none =>
    obtain rfl : a = x := List.append_cancel_right h
    have same : (Sign.all.find? fun s => s.chars.isPrefixOf (c :: a)) = Option.none := by
      refine List.find?_eq_none.2 fun s hs begins => ?_
      exact List.find?_eq_none.1 none s hs (longer s begins)
    simp only [same, Cut.before]

/-- One slash is no comment, if another one is left over. -/
theorem begins_comment (h : (cut c (a ++ b)).rest = x ++ b) :
    (c == '/' && (a ++ b).head? == some '/') = (c == '/' && a.head? == some '/') := by
  cases a with
  | cons => rfl
  | nil =>
    refine (Bool.eq_false_iff.2 fun slashes => ?_).trans (by simp)
    obtain ⟨rfl, head⟩ : c = '/' ∧ b.head? = some '/' := by simpa using slashes
    obtain ⟨b, rfl⟩ := List.head?_eq_some_iff.1 head
    have rest : (cut '/' ('/' :: b)).rest = b.dropWhile (· != '\n') := rfl
    rw [List.nil_append, rest] at h
    have short := (List.dropWhile_suffix (· != '\n') (l := b)).length_le
    rw [h, List.length_append, List.length_cons] at short
    omega

/-- A piece is what it is without anything of what stands behind it. -/
theorem cut_before (h : (cut c (a ++ b)).rest = x ++ b) :
    cut c a = (cut c (a ++ b)).before x := by
  have comment := begins_comment h
  revert h
  unfold cut
  rw [comment]
  split
  · intro h
    obtain rfl : a = x := List.append_cancel_right h
    rfl
  split
  · exact cutNumber_before (a := c :: a)
  split
  · exact cutWord_before (a := c :: a)
  split
  · exact cutText_before
  split
  · exact cutComment_before (a := c :: a)
  · exact cutSign_before

/-! ## Whole slices -/

variable {offset : Nat} {cs : List Char} {item : Item} {before behind : List Item}

theorem Piece.items_eq_nil_or (piece : Piece) (span : Span) :
    piece.items span = [] ∨ ∃ item, piece.items span = [item] := by
  cases piece <;> simp [Piece.items]

/-- The first piece with some of what stands behind it. -/
theorem scanFrom_taken (rest : (cut c cs).rest = x ++ b) :
    scanFrom offset ((cut c cs).taken ++ x) =
      (cut c cs).piece.items ⟨offset, offset + byteLength (cut c cs).taken⟩ ++
        scanFrom (offset + byteLength (cut c cs).taken) x := by
  have whole := cut_taken_append_rest c cs
  obtain ⟨d, ds, taken⟩ := List.exists_cons_of_ne_nil (cut_taken_ne_nil c cs)
  have front : (cut c cs).taken ++ x = c :: (ds ++ x) ∧ cs = ds ++ x ++ b := by
    rw [rest, taken] at whole
    obtain ⟨rfl, rfl⟩ := List.cons.inj whole
    exact ⟨by rw [taken, List.cons_append], (List.append_assoc ..).symm⟩
  obtain ⟨front, rfl⟩ := front
  rw [front, scanFrom_cons, cut_before rest]
  rfl

/-- Where an item stands in a text: from there on the text has this item and those behind it, and
up to there those before it and this one. -/
theorem scanFrom_at (h : scanFrom offset cs = before ++ item :: behind) :
    ∃ a t b, cs = a ++ (t ++ b) ∧
      item.span = ⟨offset + byteLength a, offset + byteLength a + byteLength t⟩ ∧
      scanFrom (offset + byteLength a) (t ++ b) = item :: behind ∧
      scanFrom offset (a ++ t) = before ++ [item] := by
  induction hn : cs.length using Nat.strongRecOn generalizing offset cs before with
  | ind _ ih =>
    subst hn
    cases cs with
    | nil => simp [scanFrom] at h
    | cons c cs =>
      let items := (cut c cs).piece.items ⟨offset, offset + byteLength (cut c cs).taken⟩
      have deeper {before' : List Item} (split : before = items ++ before')
          (h : scanFrom (offset + byteLength (cut c cs).taken) (cut c cs).rest =
            before' ++ item :: behind) :
          ∃ a t b, c :: cs = a ++ (t ++ b) ∧
            item.span = ⟨offset + byteLength a, offset + byteLength a + byteLength t⟩ ∧
            scanFrom (offset + byteLength a) (t ++ b) = item :: behind ∧
            scanFrom offset (a ++ t) = before ++ [item] := by
        obtain ⟨a, t, b, rest, span, onward, upTo⟩ := ih _ (cut_rest_length_lt c cs) h rfl
        rw [Nat.add_assoc offset, ← byteLength_append] at span onward
        refine ⟨(cut c cs).taken ++ a, t, b, ?_, span, onward, ?_⟩
        · rw [List.append_assoc, ← rest, cut_taken_append_rest]
        · rw [← List.append_assoc] at rest
          rw [List.append_assoc, scanFrom_taken rest, upTo, split, List.append_assoc]
      have whole := h
      rw [scanFrom_cons] at h
      rcases (cut c cs).piece.items_eq_nil_or ⟨offset, offset + byteLength (cut c cs).taken⟩ with
        none | ⟨first, one⟩
      · rw [none] at h
        exact deeper (by simp only [items, none, List.nil_append]) h
      · have span := Piece.span_of_mem_items (one ▸ List.mem_singleton_self first)
        rw [one, List.singleton_append, eq_comm, List.append_eq_cons_iff] at h
        rcases h with ⟨rfl, first'⟩ | ⟨before, rfl, rest⟩
        · obtain ⟨rfl, -⟩ := List.cons.inj first'
          have alone : scanFrom offset ((cut c cs).taken ++ []) = _ :=
            scanFrom_taken (List.nil_append _).symm
          rw [List.append_nil, one] at alone
          have split := cut_taken_append_rest c cs
          refine ⟨[], (cut c cs).taken, (cut c cs).rest, split.symm, by simp [span], ?_, ?_⟩
          · rw [split]
            exact whole
          · simpa [scanFrom] using alone
        · exact deeper (by simp only [items, one, List.singleton_append]) rest

end BraceScript
