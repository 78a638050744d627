/-
Reading a pattern into its tree.

Groups that are still open are kept on a list, the innermost first. A quantifier
takes the part before it, which must be there and must not be a change of flags.
The tree is refused when it nests too deep.
-/
import PatternAudit.Dialect.Re2.Class
import PatternAudit.Dialect.Re2.Group

set_option autoImplicit false

namespace PatternAudit.Re2

/-! ## What was read -/

/-- What was read of a group: its finished branches and the parts of the one that is
being read, both backwards. `begun` is where the first branch begins, `branchBegun`
where this one does. -/
structure Branches where
  begun : Nat
  branchBegun : Nat
  finished : List Node
  parts : List Node

namespace Branches

/-- Nothing was read. -/
def start (index : Nat) : Branches := ⟨index, index, [], []⟩

/-- Adds a part. -/
def push (b : Branches) (n : Node) : Branches := { b with parts := n :: b.parts }

/-- The branch that is being read. -/
def branch (b : Branches) : Node := Node.ofParts b.branchBegun b.parts.reverse

/-- Begins another branch. -/
def split (b : Branches) (index : Nat) : Branches :=
  { b with branchBegun := index, finished := b.branch :: b.finished, parts := [] }

/-- All that was read. -/
def toNode (b : Branches) : Node := Node.ofBranches b.begun (b.branch :: b.finished).reverse

end Branches

/-- A group that is open: where, of what kind, what was read before it, and whether
the flag `x` was on there. -/
structure OpenGroup where
  start : Nat
  kind : GroupKind
  before : Branches
  verbose : Bool

/-! ## Quantifiers -/

/-- What a quantifier takes, and what was read before that. -/
def target (b : Branches) (index : Nat) : Reading (Node × Branches) :=
  match b.parts with
  | [] => refuse .repetitionMissing index
  | .flags _ _ :: _ => refuse .repetitionMissing index
  | n :: parts => .ok (n, { b with parts })

/-- The digits of a count, between which the flag `x` allows gaps. The fuel bounds the
number of digits. -/
def countDigits : Nat → List Char → Cursor → List Char × Cursor
  | 0, ds, c => (ds.reverse, c)
  | fuel + 1, ds, c =>
    match c.rest with
    | d :: _ => if Text.isDigit d then countDigits fuel (d :: ds) c.next else (ds.reverse, c)
    | [] => (ds.reverse, c)

/-- The largest count. -/
def maxCount : Nat := 0xFFFFFFFF

/-- A count with blanks around it. What follows is given back also when there is no
count. -/
def countNumber (c : Cursor) : Reading Nat × Cursor :=
  let c := c.skipBlanks
  let (ds, after) := countDigits c.rest.length [] c
  let after := (after.skipBlanks).skipGap
  if ds.isEmpty then (refuse .repetitionCountEmpty c.index, after)
  else if maxCount < Text.decimalNumber ds then (refuse .decimalInvalid c.index, after)
  else (.ok (Text.decimalNumber ds), after)

/-- A counted quantifier, from its opening brace: its bounds, of which none above means
no bound. -/
def counted (c : Cursor) : Reading ((Nat × Option Nat) × Cursor) := do
  let start := c.index
  let c := c.next
  if c.atEnd then refuse .repetitionCountUnclosed start
  else
    let (low, c) := countNumber c
    if c.atEnd then refuse .repetitionCountUnclosed start
    else
      let (bounds, c) ← (do
        if c.starts ',' then
          let c := c.next
          if c.atEnd then refuse .repetitionCountUnclosed start
          else
            let n ← low
            if c.starts '\x7d' then .ok ((n, none), c)
            else
              let (high, c) := countNumber c
              let m ← high
              .ok ((n, some m), c)
        else
          let n ← low
          .ok ((n, some n), c) : Reading ((Nat × Option Nat) × Cursor))
      if !c.starts '\x7d' then refuse .repetitionCountUnclosed start
      else
        let c := c.next
        let c := if c.starts '?' then c.bump else c
        if bounds.2.any (· < bounds.1) then refuse .repetitionCountInvalid start
        else .ok (bounds, c)

/-- The bounds of a quantifier of one character. -/
def simpleBounds? : Char → Option (Nat × Option Nat)
  | '?' => some (0, some 1)
  | '*' => some (0, none)
  | '+' => some (1, none)
  | _ => none

/-! ## Patterns -/

/-- Reads the rest of a pattern. `known` holds the names of the groups so far. The
fuel bounds the number of tokens. -/
def nodeFrom : Nat → List String → List OpenGroup → Branches → Cursor → Reading Node
  | 0, _, _, b, _ => .ok b.toNode
  | fuel + 1, known, opened, b, c =>
    let c := c.skipGap
    match c.rest with
    | [] =>
      match opened with
      | [] => .ok b.toNode
      | g :: _ => refuse .groupUnclosed g.start
    | x :: _ =>
      match x with
      | '(' =>
        match opening known c with
        | .error e => .error e
        | .ok (.flags fs, after) =>
          nodeFrom fuel known opened (b.push (.flags c.index fs))
            { after with verbose := (fs.state? .verbose).getD c.verbose }
        | .ok (.plain fs, after) =>
          nodeFrom fuel known (⟨c.index, .plain fs, b, c.verbose⟩ :: opened)
            (Branches.start after.index)
            { after with verbose := (fs.state? .verbose).getD c.verbose }
        | .ok (.capture name, after) =>
          nodeFrom fuel (name.toList ++ known) (⟨c.index, .capture, b, c.verbose⟩ :: opened)
            (Branches.start after.index) after
      | ')' =>
        match opened with
        | [] => refuse .groupUnopened c.index
        | g :: opened =>
          nodeFrom fuel known opened (g.before.push (.group g.start g.kind b.toNode))
            { c.bump with verbose := g.verbose }
      | '|' => nodeFrom fuel known opened (b.split (c.index + 1)) c.bump
      | '[' =>
        match bracketClass c with
        | .error e => .error e
        | .ok ((start, negated, set), after) =>
          nodeFrom fuel known opened (b.push (.bracket start negated set)) after
      | '\x7b' =>
        match (do
          let (n, b) ← target b c.index
          let ((min, max), after) ← counted c
          .ok (b.push (.repetition n.start min max n), after) : Reading (Branches × Cursor)) with
        | .error e => .error e
        | .ok (b, after) => nodeFrom fuel known opened b after
      | _ =>
        match simpleBounds? x with
        | some (min, max) =>
          match target b c.index with
          | .error e => .error e
          | .ok (n, b) =>
            let after := c.bump
            nodeFrom fuel known opened (b.push (.repetition n.start min max n))
              (if after.starts '?' then after.bump else after)
        | none =>
          match primitive c with
          | .error e => .error e
          | .ok (p, after) => nodeFrom fuel known opened (b.push (.primitive p)) after

/-- How deep a pattern may nest. -/
def nestLimit : Nat := 250

/-- The tree of a pattern. -/
def Node.ofPattern (pattern : String) : Reading Node := do
  let n ← nodeFrom (pattern.length + 1) [] [] (Branches.start 0) (Cursor.ofPattern pattern)
  match n.tooDeep? nestLimit with
  | none => .ok n
  | some index => refuse (.nestedTooDeep nestLimit) index

end PatternAudit.Re2
