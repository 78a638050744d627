/-
Character classes of an automaton engine.

A class is a list of members, cut by the set operators `&&`, `--` and `~~`, which
bind alike and from the left. A member is a character, a range, an escape for a
set, a named class such as `[:alpha:]`, or a class in brackets.
-/
import PatternAudit.Dialect.Re2.Escape

set_option autoImplicit false

namespace PatternAudit.Re2

/-! ## Named classes -/

/-- The names of the named classes. -/
def asciiNames : List String :=
  ["alnum", "alpha", "ascii", "blank", "cntrl", "digit", "graph", "lower", "print", "punct",
    "space", "upper", "word", "xdigit"]

/-- A named class, from its bracket; none where the text is no such name, and is then
read as an ordinary class. -/
def named? (c : Cursor) : Option (Member × Cursor) :=
  match c.rest with
  | '[' :: ':' :: tail =>
    let negated := tail.head? == some '^'
    let tail := if negated then tail.drop 1 else tail
    let name := tail.takeWhile (· != ':')
    match tail.drop name.length with
    | ':' :: ']' :: _ =>
      if String.ofList name ∈ asciiNames then
        some (.ascii c.index (String.ofList name) negated,
          c.skip (name.length + (if negated then 5 else 4)))
      else none
    | _ => none
  | _ => none

/-! ## Ranges -/

/-- One end of a range, or a member by itself. -/
def classPrimitive (c : Cursor) : Reading (Primitive × Cursor) :=
  match c.rest with
  | '\\' :: _ => escape c
  | x :: _ => .ok (.literal ⟨c.index, x, false⟩, c.bump)
  | [] => refuse .classUnclosed c.index

/-- A primitive as a member. -/
def Primitive.toMember : Primitive → Reading Member
  | literal l => .ok (.literal l)
  | perl p => .ok (.perl p)
  | property p => .ok (.property p)
  | p => refuse .classEscapeInvalid p.start

/-- A primitive as an end of a range. -/
def Primitive.toEnd : Primitive → Reading Literal
  | literal l => .ok l
  | p => refuse .classRangeLiteral p.start

/-- A member that is no class, or a range. A dash before the closing bracket or before
another dash makes no range. `opened` is the place of the bracket around it. -/
def rangeOrMember (opened : Nat) (c : Cursor) : Reading (Member × Cursor) := do
  let (low, c) ← classPrimitive c
  let c := c.skipGap
  if c.atEnd then refuse .classUnclosed opened
  else if !c.starts '-' || c.peekPastGap? = some ']' || c.peekPastGap? = some '-' then
    let m ← low.toMember
    .ok (m, c)
  else
    let c := c.next
    if c.atEnd then refuse .classUnclosed opened
    else
      let (high, c) ← classPrimitive c
      let a ← low.toEnd
      let b ← high.toEnd
      if b.char < a.char then refuse .classRangeInvalid a.start else .ok (.range a b, c)

/-! ## Brackets -/

/-- The dashes at the front of a class, which stand for themselves. The fuel bounds
their number. -/
def frontDashes (opened : Nat) : Nat → List Member → Cursor → Reading (List Member × Cursor)
  | 0, members, c => .ok (members, c)
  | fuel + 1, members, c =>
    if c.starts '-' then
      let m := Member.literal ⟨c.index, '-', false⟩
      if c.next.atEnd then refuse .classUnclosed opened
      else frontDashes opened fuel (m :: members) c.next
    else .ok (members, c)

/-- The front of a class: whether it is negated, and the members that are read there,
backwards. A closing bracket that comes first stands for itself. -/
def classFront (c : Cursor) : Reading ((Bool × List Member) × Cursor) := do
  let opened := c.index
  let c := c.next
  if c.atEnd then refuse .classUnclosed opened
  else
    let negated := c.starts '^'
    let c := if negated then c.next else c
    if c.atEnd then refuse .classUnclosed opened
    else
      let (members, c) ← frontDashes opened c.rest.length [] c
      if members.isEmpty && c.starts ']' then
        let m := Member.literal ⟨c.index, ']', false⟩
        if c.next.atEnd then refuse .classUnclosed opened else .ok ((negated, [m]), c.next)
      else .ok ((negated, members), c)

/-- The operator that is next, if one is. -/
def setOp? (c : Cursor) : Option SetOp :=
  match c.rest with
  | '&' :: '&' :: _ => some .intersection
  | '-' :: '-' :: _ => some .difference
  | '~' :: '~' :: _ => some .symmetricDifference
  | _ => none

/-- What was read of a class: the operator that waits for its right side, with its left
side, and the members since, backwards. `gap` is where the members begin. -/
structure Partial where
  opened : Nat
  negated : Bool
  pending : Option (SetOp × ClassSet)
  gap : Nat
  members : List Member

/-- What was read of a class, as a set. -/
def Partial.toSet (p : Partial) : ClassSet :=
  let right := ClassSet.member (Member.ofList p.gap p.members.reverse)
  match p.pending with
  | none => right
  | some (kind, left) => .op left.start kind left right

/-- Reads the rest of a class, up to and with its closing bracket. `outer` holds the
classes around it, the innermost first. The fuel bounds the number of tokens. -/
def classRest : Nat → List Partial → Partial → Cursor →
    Reading ((Nat × Bool × ClassSet) × Cursor)
  | 0, _, p, _ => refuse .classUnclosed p.opened
  | fuel + 1, outer, p, c =>
    let c := c.skipGap
    match c.rest with
    | [] => refuse .classUnclosed p.opened
    | '[' :: _ =>
      match named? c with
      | some (m, after) => classRest fuel outer { p with members := m :: p.members } after
      | none =>
        match classFront c with
        | .error e => .error e
        | .ok ((negated, members), after) =>
          classRest fuel (p :: outer) ⟨c.index, negated, none, c.index, members⟩ after
    | ']' :: _ =>
      match outer with
      | [] => .ok ((p.opened, p.negated, p.toSet), c.bump)
      | q :: outer =>
        let m := Member.bracket p.opened p.negated p.toSet
        classRest fuel outer { q with members := m :: q.members } c.bump
    | _ =>
      match setOp? c with
      | some kind =>
        classRest fuel outer { p with pending := some (kind, p.toSet), gap := c.index + 2, members := [] }
          (c.skip 2)
      | none =>
        match rangeOrMember p.opened c with
        | .error e => .error e
        | .ok (m, after) => classRest fuel outer { p with members := m :: p.members } after

/-- A class, from its opening bracket. -/
def bracketClass (c : Cursor) : Reading ((Nat × Bool × ClassSet) × Cursor) := do
  let ((negated, members), after) ← classFront c
  classRest (c.rest.length + 1) [] ⟨c.index, negated, none, c.index, members⟩ after

end PatternAudit.Re2
