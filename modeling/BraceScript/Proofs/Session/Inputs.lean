-- What a session makes of the lines that it is given. Up to the one that ends
-- it, each line is either passed over or part of exactly one input; an input
-- goes on to the first line that closes its blocks, and is run then.
import BraceScript.Proofs.Session.Lines
import Mathlib.Logic.ExistsUnique

namespace BraceScript

/-! ## Lines put together -/

/-- A line that ends a session while no block is open. -/
def isLeave (line : String) : Bool := Text.trim line = ".exit" || Text.trim line = ".quit"

theorem isAside_of_isLeave {line : String} (h : isLeave line = true) : isAside line = true := by
  simp only [isLeave, Bool.or_eq_true, decide_eq_true_eq] at h
  rcases h with h | h <;> rw [isAside, h] <;> decide +kernel

/-- Some lines as one text. -/
def joinLines (lines : List String) : String := String.join (lines.map (· ++ "\n"))

theorem joinLines_concat (lines : List String) (line : String) :
    joinLines (lines ++ [line]) = joinLines lines ++ line ++ "\n" := by
  simp [joinLines, String.join, List.foldl_append, String.append_assoc]

theorem joinLines_eq_empty {lines : List String} : joinLines lines = "" ↔ lines = [] := by
  constructor
  · intro h
    rcases List.eq_nil_or_concat lines with none | ⟨front, line, rfl⟩
    · exact none
    · rw [List.concat_eq_append, joinLines_concat] at h
      have := congrArg String.length h
      simp at this
  · rintro rfl
    rfl

/-! ## A division of the lines -/

/-- Some lines have opened a block at their first one, which is no aside, and it is still open
behind each of them. -/
structure HeldOpen (lines : List String) : Prop where
  text : ∀ line ∈ lines.head?, isAside line = false
  opened : ∀ front, front <+: lines → front ≠ [] → 0 < openBraces (joinLines front)

/-- Some lines are one input: the first one is no aside, and it is behind the last one that no
block is open, but behind none before. -/
structure IsInput (lines : List String) : Prop where
  some : lines ≠ []
  text : ∀ line ∈ lines.head?, isAside line = false
  closed : openBraces (joinLines lines) ≤ 0
  opened : ∀ front, front <+: lines → front ≠ [] → front ≠ lines → 0 < openBraces (joinLines front)

/-- A part of the lines of a session: one line that is passed over, or an input. -/
inductive Portion where
  | aside (line : String)
  | input (lines : List String)
deriving DecidableEq

def Portion.lines : Portion → List String
  | .aside line => [line]
  | .input lines => lines

def Portion.Proper : Portion → Prop
  | .aside line => isAside line = true ∧ isLeave line = false
  | .input lines => IsInput lines

/-- The lines of a session: the portions that it has dealt with, the lines of a block that is open
where they end, and those that it does not read. -/
structure Division where
  portions : List Portion
  left : List String
  unread : List String
deriving DecidableEq

/-- No line is lost, and none is there twice. The lines are all read but for those from the first
one that ends the session on. -/
structure Division.Of (d : Division) (lines : List String) : Prop where
  whole : lines = d.portions.flatMap Portion.lines ++ d.left ++ d.unread
  proper : ∀ p ∈ d.portions, p.Proper
  left : HeldOpen d.left
  unread : d.unread = [] ∨ d.left = [] ∧ ∃ line ∈ d.unread.head?, isLeave line = true

def Division.cons (p : Portion) (d : Division) : Division := { d with portions := p :: d.portions }

/-- Divides lines behind those that have come in since no block was open. -/
def divide : List String → List String → Division
  | held, [] => ⟨[], held, []⟩
  | held, line :: lines =>
    if held.isEmpty && isLeave line then ⟨[], [], line :: lines⟩
    else if held.isEmpty && isAside line then (divide [] lines).cons (.aside line)
    else if 0 < openBraces (joinLines (held ++ [line])) then divide (held ++ [line]) lines
    else (divide [] lines).cons (.input (held ++ [line]))

/-! ### There is one division -/

variable {held lines : List String} {line : String} {d : Division} {p : Portion}

theorem heldOpen_nil : HeldOpen [] where
  text := by simp
  opened front h some := absurd (List.prefix_nil.1 h) some

theorem Division.Of.cons (h : d.Of lines) (proper : p.Proper) :
    (d.cons p).Of (p.lines ++ lines) where
  whole := by
    rw [h.whole]
    simp [Division.cons, List.append_assoc]
  proper := List.forall_mem_cons.2 ⟨proper, h.proper⟩
  left := h.left
  unread := h.unread

/-- A line that is no aside where it stands. -/
theorem HeldOpen.head_concat (h : HeldOpen held) (text : (held.isEmpty && isAside line) = false) :
    ∀ first ∈ (held ++ [line]).head?, isAside first = false := by
  intro first hfirst
  cases held with
  | nil =>
    obtain rfl : line = first := by simpa using hfirst
    simpa using text
  | cons first' more => exact h.text first (by simpa using hfirst)

theorem prefix_concat_cases {front : List String} (h : front <+: held ++ [line]) :
    front <+: held ∨ front = held ++ [line] :=
  (List.prefix_concat_iff.1 h).symm

theorem HeldOpen.concat (h : HeldOpen held) (text : (held.isEmpty && isAside line) = false)
    (opened : 0 < openBraces (joinLines (held ++ [line]))) : HeldOpen (held ++ [line]) where
  text := h.head_concat text
  opened front hfront some := by
    rcases prefix_concat_cases hfront with before | rfl
    · exact h.opened front before some
    · exact opened

theorem HeldOpen.isInput (h : HeldOpen held) (text : (held.isEmpty && isAside line) = false)
    (closed : ¬ 0 < openBraces (joinLines (held ++ [line]))) : IsInput (held ++ [line]) where
  some := by simp
  text := h.head_concat text
  closed := by omega
  opened front hfront some proper :=
    h.opened front ((prefix_concat_cases hfront).resolve_right proper) some

/-- The lines can be divided. -/
theorem divide_of (h : HeldOpen held) : (divide held lines).Of (held ++ lines) := by
  induction lines generalizing held with
  | nil => exact ⟨by simp [divide], by simp [divide], h, .inl rfl⟩
  | cons line lines ih =>
    unfold divide
    split
    · next leave =>
      rw [Bool.and_eq_true, List.isEmpty_iff] at leave
      obtain ⟨rfl, leave⟩ := leave
      exact ⟨rfl, by simp, heldOpen_nil, .inr ⟨rfl, line, rfl, leave⟩⟩
    split
    · next stays aside =>
      rw [Bool.and_eq_true, List.isEmpty_iff] at aside
      obtain ⟨rfl, aside⟩ := aside
      exact (ih heldOpen_nil).cons (p := .aside line) ⟨aside, by simpa using stays⟩
    next text =>
    rw [Bool.not_eq_true] at text
    have whole : held ++ line :: lines = held ++ [line] ++ lines := List.append_cons ..
    rw [whole]
    split
    · next opened => exact ih (h.concat text opened)
    · next closed =>
      exact (ih heldOpen_nil).cons (p := .input (held ++ [line])) (h.isInput text closed)

/-- An input ends at the first line that closes its blocks, so there is only one at the front. -/
theorem IsInput.unique {a b : List String} (ha : IsInput a) (hb : IsInput b) (front : a <+: lines)
    (front' : b <+: lines) : a = b := by
  apply Classical.byContradiction
  intro other
  rcases List.prefix_or_prefix_of_prefix front front' with before | before
  · have := hb.opened a before ha.some other
    have := ha.closed
    omega
  · have := ha.opened b before hb.some (Ne.symm other)
    have := hb.closed
    omega

/-- A line that is passed over is a portion by itself, or it ends the session. -/
theorem Division.Of.of_aside (h : d.Of (line :: lines)) (aside : isAside line = true) :
    (isLeave line = true ∧ d = ⟨[], [], line :: lines⟩) ∨
      isLeave line = false ∧ ∃ d' : Division, d'.Of lines ∧ d = d'.cons (.aside line) := by
  obtain ⟨portions, left, unread⟩ := d
  obtain ⟨whole, proper, held, ends⟩ := h
  cases portions with
  | nil =>
    cases left with
    | nil =>
      obtain rfl : line :: lines = unread := by simpa using whole
      obtain ⟨-, first, hfirst, leave⟩ := ends.resolve_left (by simp)
      cases hfirst
      exact .inl ⟨leave, rfl⟩
    | cons first more =>
      simp only [List.flatMap_nil, List.nil_append, List.cons_append, List.cons.injEq] at whole
      have text := held.text first rfl
      rw [← whole.1, aside] at text
      cases text
  | cons p ps =>
    obtain ⟨first, others⟩ := List.forall_mem_cons.1 proper
    cases p with
    | aside line' =>
      simp only [List.flatMap_cons, Portion.lines, List.cons_append, List.nil_append,
        List.cons.injEq] at whole
      obtain ⟨rfl, rfl⟩ := whole
      exact .inr ⟨first.2, ⟨ps, left, unread⟩, ⟨rfl, others, held, ends⟩, rfl⟩
    | input ls =>
      cases ls with
      | nil => exact absurd rfl first.some
      | cons line' more =>
        simp only [List.flatMap_cons, Portion.lines, List.cons_append, List.cons.injEq] at whole
        have text := first.text line' rfl
        rw [← whole.1, aside] at text
        cases text

/-- Lines whose first one is no aside begin with an input, or leave a block open. -/
theorem Division.Of.of_text (h : d.Of lines) (text : ∀ first ∈ lines.head?, isAside first = false) :
    (HeldOpen lines ∧ d = ⟨[], lines, []⟩) ∨
      ∃ front behind, ∃ d' : Division, lines = front ++ behind ∧ IsInput front ∧ d'.Of behind ∧
        d = d'.cons (.input front) := by
  obtain ⟨portions, left, unread⟩ := d
  obtain ⟨whole, proper, held, ends⟩ := h
  cases portions with
  | nil =>
    have whole : lines = left ++ unread := by simpa using whole
    cases unread with
    | nil =>
      rw [List.append_nil] at whole
      subst whole
      exact .inl ⟨held, rfl⟩
    | cons line more =>
      obtain ⟨rfl, first, hfirst, leave⟩ := ends.resolve_left (by simp)
      cases hfirst
      have := text line (by rw [whole]; rfl)
      rw [isAside_of_isLeave leave] at this
      cases this
  | cons p ps =>
    obtain ⟨first, others⟩ := List.forall_mem_cons.1 proper
    simp only [List.flatMap_cons, List.append_assoc] at whole
    cases p with
    | aside line =>
      have := text line (by rw [whole]; rfl)
      rw [first.1] at this
      cases this
    | input ls =>
      exact .inr ⟨ls, _, ⟨ps, left, unread⟩, whole, first,
        ⟨(List.append_assoc ..).symm, others, held, ends⟩, rfl⟩

/-- There is no other division. -/
theorem Division.Of.eq_divide (h : HeldOpen held) (of : d.Of (held ++ lines)) :
    d = divide held lines := by
  induction lines generalizing held d with
  | nil =>
    rw [List.append_nil] at of
    rcases of.of_text h.text with ⟨-, rfl⟩ | ⟨front, behind, -, rfl, input, -⟩
    · rfl
    · have := h.opened front (List.prefix_append ..) input.some
      have := input.closed
      omega
  | cons line lines ih =>
    unfold divide
    split
    · next leave =>
      rw [Bool.and_eq_true, List.isEmpty_iff] at leave
      obtain ⟨rfl, leave⟩ := leave
      rcases of.of_aside (isAside_of_isLeave leave) with ⟨-, rfl⟩ | ⟨stays, -⟩
      · rfl
      · rw [leave] at stays
        cases stays
    split
    · next stays aside =>
      rw [Bool.and_eq_true, List.isEmpty_iff] at aside
      obtain ⟨rfl, aside⟩ := aside
      rcases of.of_aside aside with ⟨leave, -⟩ | ⟨-, d', rest, rfl⟩
      · exact absurd leave (by simpa using stays)
      · rw [ih heldOpen_nil rest]
    next text =>
    rw [Bool.not_eq_true] at text
    have whole : held ++ line :: lines = held ++ [line] ++ lines := List.append_cons ..
    rw [whole] at of
    split
    · next opened => exact ih (h.concat text opened) of
    · next closed =>
      have input := h.isInput text closed
      have text' : ∀ first ∈ (held ++ [line] ++ lines).head?, isAside first = false := by
        have first : (held ++ [line] ++ lines).head? = (held ++ [line]).head? := by
          cases held <;> rfl
        rw [first]
        exact h.head_concat text
      rcases of.of_text text' with ⟨opened, -⟩ | ⟨front, behind, d', same, input', rest, rfl⟩
      · exact absurd (opened.opened _ (List.prefix_append ..) (by simp)) closed
      · obtain rfl := input.unique input' (List.prefix_append ..) ⟨behind, same.symm⟩
        obtain rfl := List.append_cancel_left same
        rw [ih heldOpen_nil rest]

theorem Division.of_iff : d.Of lines ↔ d = divide [] lines := by
  have nothing : HeldOpen [] := heldOpen_nil
  constructor
  · exact Division.Of.eq_divide nothing
  · rintro rfl
    exact divide_of nothing

/-! ## What a session does with a division -/

namespace Session

variable {host : Host} {shown : Files} {s next : Session}

/-- What the user is asked with for some lines in a row, of which none but the last one closes
what the first one has opened. -/
def asking (onTerminal : Bool) : Nat → List Chunk
  | 0 => []
  | n + 1 => if onTerminal then .out "kq> " :: List.replicate n (.out "...> ") else []

/-- What is said about a line that is passed over. -/
def answer (line : String) : List Chunk :=
  let command := Text.trim line
  if command.isEmpty then []
  else if command = ".help" then [.out help]
  else [.err ("unknown command `" ++ command ++ "` (try .help)\n")]

/-- Answers a line that is passed over, and runs an input as one text. -/
def take (host : Host) (shown : Files) (s : Session) :
    Portion → Except Break (Session × List Chunk)
  | .aside line => return (s, answer line)
  | .input lines => s.execute host shown (joinLines lines)

/-- Takes the portions in order and then, as one text, the lines of a block that is left open, if
there are any. The user is asked for each line, and once more behind all of them. -/
def conduct (host : Host) (shown : Files) :
    Session → List Portion → List String → Except Break (Session × List Chunk)
  | s, [], left => do
    let (last, chunks) ←
      if left.isEmpty then pure (s, []) else s.execute host shown (joinLines left)
    return (last, asking s.onTerminal (left.length + 1) ++ chunks)
  | s, p :: ps, left => do
    let (next, chunks) ← s.take host shown p
    let (last, more) ← conduct host shown next ps left
    return (last, asking s.onTerminal p.lines.length ++ chunks ++ more)

theorem execute_eq {source : String} {chunks : List Chunk}
    (h : s.execute host shown source = .ok (next, chunks)) :
    next = { s with state := next.state } := by
  unfold execute at h
  cases run : (runSource host patience source none).perform s.state with
  | error reason =>
    rw [run] at h
    cases h
  | ok ran =>
    rw [run] at h
    cases h
    rfl

/-! ### Line by line -/

theorem feed_leave {line : String} (fresh : s.pending = "") (leave : isLeave line = true) :
    s.feed host shown line = .ok (s, [], .exit) := by
  have some : (Text.trim line).isEmpty = false := by
    simp only [isLeave, Bool.or_eq_true, decide_eq_true_eq] at leave
    rcases leave with h | h <;> rw [h] <;> rfl
  unfold feed
  unfold isLeave at leave
  simp only [fresh, some, leave]
  rfl

theorem feed_aside {line : String} (fresh : s.pending = "") (aside : isAside line = true)
    (stays : isLeave line = false) :
    s.feed host shown line = .ok (s, answer line, .done) := by
  have none : s.pending.isEmpty = true := by
    rw [fresh]
    rfl
  unfold isAside at aside
  unfold isLeave at stays
  unfold feed answer
  cases blank : (Text.trim line).isEmpty with
  | true =>
    simp only [none, blank]
    rfl
  | false =>
    rw [blank, Bool.false_or] at aside
    simp only [none, blank, stays, aside, Bool.true_and, decide_eq_true_eq]
    by_cases command : Text.trim line = ".help" <;> simp only [command] <;> rfl

theorem isEmpty_pending (h : s.pending = joinLines held) : s.pending.isEmpty = held.isEmpty := by
  rw [Bool.eq_iff_iff, String.isEmpty_iff, List.isEmpty_iff, h, joinLines_eq_empty]

/-- Behind lines that have left a block open the user is asked to go on, and else as at first. -/
theorem asking_ask (h : s.pending = joinLines held) :
    asking s.onTerminal held.length ++ s.ask = asking s.onTerminal (held.length + 1) := by
  unfold ask prompt asking
  rw [isEmpty_pending h]
  cases s.onTerminal with
  | false => cases held <;> rfl
  | true =>
    cases held with
    | nil => rfl
    | cons => simp [List.replicate_succ']

/-! ### From some line on -/

/-- Takes all lines and ends the input. -/
def toEnd (host : Host) (shown : Files) (s : Session) (lines : List String) :
    Except Break (Session × List Chunk) := do
  let (mid, chunks) ← feedAll host shown s lines
  let (last, more) ← finish host shown mid
  return (last, chunks ++ more)

/-- What comes to be written behind something else. -/
def behind (front : List Chunk) (x : Except Break (Session × List Chunk)) :
    Except Break (Session × List Chunk) :=
  x.map fun (last, chunks) => (last, front ++ chunks)

theorem behind_nil (x : Except Break (Session × List Chunk)) : behind [] x = x := by
  cases x <;> rfl

theorem behind_behind (front more : List Chunk) (x : Except Break (Session × List Chunk)) :
    behind front (behind more x) = behind (front ++ more) x := by
  cases x with
  | error => rfl
  | ok => simp [behind, Except.map]

theorem toEnd_cons {line : String} {chunks : List Chunk} {reply : Reply}
    (fed : s.feed host shown line = .ok (next, chunks, reply)) (goes : reply ≠ .exit) :
    toEnd host shown s (line :: lines) =
      behind (s.ask ++ chunks) (toEnd host shown next lines) := by
  have fed : s.feedAll host shown (line :: lines) =
      (feedAll host shown next lines).map fun (last, more) => (last, s.ask ++ chunks ++ more) := by
    rw [feedAll, fed]
    cases reply with
    | exit => exact absurd rfl goes
    | done | incomplete =>
      change (feedAll host shown next lines >>= _) = _
      cases feedAll host shown next lines <;> rfl
  rw [toEnd, toEnd, fed]
  cases feedAll host shown next lines with
  | error => rfl
  | ok fed =>
    obtain ⟨mid, more⟩ := fed
    change (finish host shown mid >>= _) = behind _ (finish host shown mid >>= _)
    cases finish host shown mid with
    | error => rfl
    | ok ended =>
      obtain ⟨last, rest⟩ := ended
      change Except.ok (last, s.ask ++ chunks ++ more ++ rest) =
        .ok (last, s.ask ++ chunks ++ (more ++ rest))
      rw [List.append_assoc]

theorem conduct_cons {ps : List Portion} {left : List String} {chunks : List Chunk}
    (took : s.take host shown p = .ok (next, chunks)) :
    conduct host shown s (p :: ps) left =
      behind (asking s.onTerminal p.lines.length ++ chunks) (conduct host shown next ps left) := by
  rw [conduct, took]
  change (conduct host shown next ps left >>= _) = _
  cases conduct host shown next ps left <;> rfl

theorem withPending_self (fresh : s.pending = "") : { s with pending := "" } = s := by
  obtain ⟨state, pending, color, onTerminal⟩ := s
  cases fresh
  rfl

/-- Where the input ends, the lines of a block that is still open are run as one text. -/
theorem behind_toEnd_nil (h : s.pending = joinLines held) :
    behind (asking s.onTerminal held.length) (toEnd host shown s []) =
      conduct host shown { s with pending := "" } [] held := by
  have last := asking_ask h
  have fresh := isEmpty_pending h
  rw [conduct]
  change behind _ (finish host shown s >>= fun (last, more) => pure (last, s.ask ++ more)) = _
  rw [finish, fresh, h, ← last]
  cases held with
  | nil =>
    rw [withPending_self h]
    simp [behind, Except.map, pure, Except.pure, bind, Except.bind]
  | cons line held =>
    simp only [List.isEmpty_cons, Bool.false_eq_true, if_false]
    cases execute host shown { s with pending := "" } (joinLines (line :: held)) <;>
      simp [behind, Except.map, pure, Except.pure, bind, Except.bind]

/-- Nothing behind a line that ends the session counts. -/
theorem toEnd_leave (fresh : s.pending = "") (leave : isLeave line = true) :
    toEnd host shown s (line :: lines) = conduct host shown s [] [] := by
  have nothing : s.pending = joinLines [] := fresh
  have asked := asking_ask nothing
  rw [toEnd, feedAll, feed_leave fresh leave, conduct, ← asked]
  simp [bind, Except.bind, pure, Except.pure, finish, fresh, asking]

/-- A line that closes what is open is the last one of an input. -/
theorem behind_toEnd_closed {portions : List Portion} {left : List String}
    (h : s.pending = joinLines held) (text : (held.isEmpty && isAside line) = false)
    (closed : ¬ 0 < openBraces (joinLines (held ++ [line])))
    (rest : ∀ next : Session, next.pending = "" →
      toEnd host shown next lines = conduct host shown next portions left) :
    behind (asking s.onTerminal held.length) (toEnd host shown s (line :: lines)) =
      conduct host shown { s with pending := "" } (.input (held ++ [line]) :: portions) left := by
  have text : (s.pending.isEmpty && isAside line) = false := by
    rwa [isEmpty_pending h]
  have source : s.pending ++ line ++ "\n" = joinLines (held ++ [line]) := by
    rw [joinLines_concat, h]
  have fed : s.feed host shown line = _ := feed_text text
  rw [source, if_neg closed] at fed
  cases run : execute host shown { s with pending := "" } (joinLines (held ++ [line])) with
  | error reason =>
    rw [run] at fed
    rw [conduct, take, run, toEnd, feedAll, fed]
    rfl
  | ok after =>
    obtain ⟨next, chunks⟩ := after
    rw [run] at fed
    have took : take host shown { s with pending := "" } (.input (held ++ [line])) =
      .ok (next, chunks) := run
    have fresh : next.pending = "" := by rw [execute_eq run]
    rw [toEnd_cons fed (by simp), conduct_cons took, ← rest next fresh, behind_behind,
      ← List.append_assoc, asking_ask h]
    simp [Portion.lines]

/-- What is pending are the lines that have come in since no block was open. The session does with
these and the lines to come what it does with their division. -/
theorem behind_toEnd (h : s.pending = joinLines held) :
    behind (asking s.onTerminal held.length) (toEnd host shown s lines) =
      let d := divide held lines
      conduct host shown { s with pending := "" } d.portions d.left := by
  induction lines generalizing held s with
  | nil => exact behind_toEnd_nil h
  | cons line lines ih =>
    -- where nothing is pending, nothing has been asked for
    have afresh (next : Session) (fresh : next.pending = "") : toEnd host shown next lines =
        conduct host shown next (divide [] lines).portions (divide [] lines).left := by
      have nothing : next.pending = joinLines [] := fresh
      have rest := ih nothing
      rwa [withPending_self fresh, List.length_nil, asking, behind_nil] at rest
    unfold divide
    split
    · next leave =>
      rw [Bool.and_eq_true, List.isEmpty_iff] at leave
      obtain ⟨rfl, leave⟩ := leave
      have fresh : s.pending = "" := h
      rw [withPending_self fresh, toEnd_leave fresh leave, List.length_nil, asking, behind_nil]
    split
    · next stays aside =>
      rw [Bool.and_eq_true, List.isEmpty_iff] at aside
      obtain ⟨rfl, aside⟩ := aside
      have fresh : s.pending = "" := h
      have took : s.take host shown (.aside line) = .ok (s, answer line) := rfl
      have asked : s.ask = asking s.onTerminal [line].length := asking_ask h
      rw [toEnd_cons (feed_aside fresh aside (by simpa using stays)) (by simp), afresh s fresh,
        withPending_self fresh, List.length_nil, asking, behind_nil, asked, Division.cons,
        conduct_cons took]
      rfl
    next text =>
    rw [Bool.not_eq_true] at text
    split
    · next opened =>
      have fed : s.feed host shown line = _ := feed_text (by rwa [isEmpty_pending h])
      have source : s.pending ++ line ++ "\n" = joinLines (held ++ [line]) := by
        rw [joinLines_concat, h]
      have asked : asking s.onTerminal held.length ++ s.ask =
          asking s.onTerminal (held ++ [line]).length := by
        rw [asking_ask h, List.length_append, List.length_singleton]
      rw [source, if_pos opened] at fed
      rw [toEnd_cons fed (by simp), behind_behind, List.append_nil, asked]
      exact ih (s := { s with pending := joinLines (held ++ [line]) }) rfl
    · next closed => exact behind_toEnd_closed h text closed afresh

/-! ### What is pending -/

/-- A line leaves something pending if and only if the reply is that it is not complete. -/
theorem pending_of_feed {line : String} {chunks : List Chunk} {reply : Reply}
    (fed : s.feed host shown line = .ok (next, chunks, reply)) :
    next.pending ≠ "" ↔ reply = .incomplete := by
  cases text : s.pending.isEmpty && isAside line with
  | true =>
    rw [Bool.and_eq_true] at text
    have fresh : s.pending = "" := String.isEmpty_iff.1 text.1
    cases leave : isLeave line with
    | true =>
      rw [feed_leave fresh leave] at fed
      cases fed
      simp [fresh]
    | false =>
      rw [feed_aside fresh text.2 leave] at fed
      cases fed
      simp [fresh]
  | false =>
    rw [feed_text text] at fed
    split at fed
    · cases fed
      have some : s.pending ++ line ++ "\n" ≠ "" := fun none => by
        have := congrArg String.length none
        simp at this
      simp [some]
    · cases run : execute host shown { s with pending := "" } (s.pending ++ line ++ "\n") with
      | error reason =>
        rw [run] at fed
        cases fed
      | ok after =>
        rw [run] at fed
        cases fed
        have fresh : after.1.pending = "" := by rw [execute_eq run]
        simp [fresh]

theorem prompt_eq : s.prompt = "...> " ↔ s.pending ≠ "" := by
  unfold prompt
  rw [ne_eq, ← String.isEmpty_iff]
  cases s.pending.isEmpty <;> decide

/-- Whatever is pending where the input ends, nothing is afterwards. -/
theorem pending_of_finish {chunks : List Chunk}
    (ended : s.finish host shown = .ok (next, chunks)) : next.pending = "" := by
  unfold finish at ended
  split at ended
  · next fresh =>
    cases ended
    exact String.isEmpty_iff.1 fresh
  · rw [execute_eq ended]

theorem pending_of_toEnd {chunks : List Chunk}
    (ended : s.toEnd host shown lines = .ok (next, chunks)) : next.pending = "" := by
  unfold toEnd at ended
  cases fed : feedAll host shown s lines with
  | error reason =>
    rw [fed] at ended
    cases ended
  | ok fed' =>
    obtain ⟨mid, front⟩ := fed'
    rw [fed] at ended
    cases atEnd : finish host shown mid with
    | error reason =>
      simp [bind, Except.bind, atEnd] at ended
    | ok last =>
      simp only [bind, Except.bind, atEnd, pure, Except.pure, Except.ok.injEq,
        Prod.mk.injEq] at ended
      rw [← ended.1]
      exact pending_of_finish atEnd

end Session

/-- A session loses none of the lines that it is given, and takes none of them twice. There is one
way to divide them: those before the first one that ends the session are passed over one by one
(blanks and commands where no block is open), or they are part of one input. An input goes on to
the first line behind which no block is open; only behind the last of all lines a block may still
be open. The session answers the lines that it passes over and runs each input as one text, in
this order, and at the end what is left open. A line leaves something pending, so that the user is
asked to go on, if and only if the reply is that the input is not complete; whatever the inputs
have come to, nothing is pending in the end. -/
theorem a_session_takes_every_line_once (host : Host) (shown : Files) (state : State)
    (color : ColorMode) (interactive : Bool) (input : String) :
    (∃! d : Division, d.Of (Session.linesOf input)) ∧
    (∀ d : Division, d.Of (Session.linesOf input) →
      (Session.start state color).run host shown interactive input =
        { Session.start state color with onTerminal := interactive }.conduct host shown
          d.portions d.left) ∧
    (∀ s last chunks, Session.run host shown s interactive input = .ok (last, chunks) →
      last.pending = "") ∧
    ∀ s line next chunks reply, Session.feed host shown s line = .ok (next, chunks, reply) →
      (next.pending ≠ "" ↔ reply = .incomplete) ∧
        (next.prompt = "...> " ↔ reply = .incomplete) := by
  refine ⟨⟨_, Division.of_iff.2 rfl, fun d of => Division.of_iff.1 of⟩, fun d of => ?_,
    fun s last chunks ran => Session.pending_of_toEnd ran,
    fun s line next chunks reply fed => ?_⟩
  · obtain rfl := Division.of_iff.1 of
    let s : Session := { Session.start state color with onTerminal := interactive }
    have nothing : s.pending = joinLines [] := rfl
    have whole : Session.behind [] (s.toEnd host shown (Session.linesOf input)) = _ :=
      Session.behind_toEnd nothing
    rw [Session.behind_nil] at whole
    exact whole
  · have pending := Session.pending_of_feed fed
    exact ⟨pending, Session.prompt_eq.trans pending⟩

/-- A command in a block is part of an input, and so the session goes on to the one behind it. That
the second input fails does not matter. -/
theorem a_session_with_a_command_in_a_block :
    let host : Host := ⟨Files.inMemory, none⟩
    let input := "\nfunc f() \x7b\n.exit\n\x7d\nshow x\n.quit\nf()\n"
    let s := Session.start .initial .never
    let d : Division :=
      ⟨[.aside "", .input ["func f() \x7b", ".exit", "\x7d"], .input ["show x"]], [],
        [".quit", "f()"]⟩
    d.Of (Session.linesOf input) ∧
      (∃ last chunks, s.run host Files.inMemory true input = .ok (last, chunks) ∧
        { s with onTerminal := true }.conduct host Files.inMemory d.portions d.left =
          .ok (last, chunks) ∧ last.pending = "") ∧
      ∃ next, s.feed host Files.inMemory "func f() \x7b" = .ok (next, [], .incomplete) ∧
        next.prompt = "...> " := by
  intro host input s d
  obtain ⟨-, conducts, ends, asks⟩ :=
    a_session_takes_every_line_once host Files.inMemory .initial .never true input
  have of : d.Of (Session.linesOf input) := Division.of_iff.2 (by decide +kernel)
  have fed : s.feed host Files.inMemory "func f() \x7b" =
      .ok ({ s with pending := "func f() \x7b\n" }, [], .incomplete) := by
    rw [Session.feed_text (by decide +kernel), if_pos (by decide +kernel)]
    rfl
  refine ⟨of, ?_, _, fed, ((asks s _ _ _ _ fed).2).2 rfl⟩
  have goes : (Session.conduct host Files.inMemory { s with onTerminal := true } d.portions
      d.left).isOk = true := by decide +kernel
  cases result : Session.conduct host Files.inMemory { s with onTerminal := true } d.portions
      d.left with
  | error reason =>
    rw [result] at goes
    cases goes
  | ok after =>
    have ran := (conducts d of).trans result
    exact ⟨after.1, after.2, ran, rfl, ends s _ _ ran⟩

end BraceScript
