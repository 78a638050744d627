/-
The automaton of a pattern, as far as its size goes.

Counted repetitions are written out, so a short pattern can have a huge automaton;
`Shape.bytes` foretells the memory that it takes without building it. A state takes 32
bytes, a branch of a choice 4 more and a byte range of a set 8 more. Sets with
characters outside ASCII are counted as they are when text is read backwards, which is
the larger of the two automata that an engine builds.
-/
import PatternAudit.Dialect.Re2.ByteRanges

set_option autoImplicit false

namespace PatternAudit.Re2

open Text (Ranges)

/-- What a pattern matches, without what does not change its size. -/
inductive Shape where
  | empty
  | look
  | char (n : Nat)
  | set (rs : Ranges)
  | repetition (min : Nat) (max : Option Nat) (sub : Shape)
  | capture (sub : Shape)
  | concat (parts : List Shape)
  | alternation (branches : List Shape)

namespace Shape

/-! ## What a pattern can match -/

mutual

/-- Whether the pattern can match the empty text. -/
def canBeEmpty : Shape → Bool
  | empty => true
  | look => true
  | char _ => false
  | set _ => false
  | repetition min _ sub => min = 0 || sub.canBeEmpty
  | capture sub => sub.canBeEmpty
  | concat parts => allCanBeEmpty parts
  | alternation branches => anyCanBeEmpty branches

/-- Whether all of the patterns can. -/
def allCanBeEmpty : List Shape → Bool
  | [] => true
  | s :: rest => s.canBeEmpty && allCanBeEmpty rest

/-- Whether one of the patterns can. -/
def anyCanBeEmpty : List Shape → Bool
  | [] => false
  | s :: rest => s.canBeEmpty || anyCanBeEmpty rest

end

mutual

/-- Whether the pattern can match nothing but the empty text. -/
def isEmptyOnly : Shape → Bool
  | empty => true
  | look => true
  | char _ => false
  | set _ => false
  | repetition _ max sub => max = some 0 || sub.isEmptyOnly
  | capture sub => sub.isEmptyOnly
  | concat parts => allEmptyOnly parts
  | alternation branches => allEmptyOnly branches

/-- Whether that holds of all of the patterns. -/
def allEmptyOnly : List Shape → Bool
  | [] => true
  | s :: rest => s.isEmptyOnly && allEmptyOnly rest

end

/-! ## Building -/

/-- A set; a set of one character is that character. -/
def ofSet (rs : Ranges) : Shape :=
  match rs with
  | [(a, b)] => if a = b then char a else set rs
  | _ => set rs

/-- A repetition. Repeating what only matches the empty text is the same as once. -/
def repeated (min : Nat) (max : Option Nat) (sub : Shape) : Shape :=
  let (min, max) := if sub.isEmptyOnly then (Nat.min min 1, some ((max.getD 1).min 1)) else (min, max)
  if min = 0 && max = some 0 then empty
  else if min = 1 && max = some 1 then sub
  else repetition min max sub

/-- The characters of a pattern that matches just one. -/
def singles? : Shape → Option Ranges
  | char n => some [(n, n)]
  | set rs => some rs
  | _ => none

/-- Alternatives; single characters make one set. -/
def ofBranches (branches : List Shape) : Shape :=
  match branches.mapM singles? with
  | some sets => ofSet (Ranges.ofList sets.flatten)
  | none => alternation branches

/-! ## Size -/

/-- The memory of a state. -/
def stateBytes : Nat := 32

/-- The memory of a branch. -/
def branchBytes : Nat := 4

/-- The memory of a byte range. -/
def rangeBytes : Nat := 8

/-- The memory of a set. -/
def setBytes (rs : Ranges) : Nat :=
  if rs.all fun r => r.2 ≤ 0x7F then
    2 * stateBytes + (if rs.length ≤ 1 then 0 else rangeBytes * rs.length)
  else
    let ps := setPieces rs
    2 * stateBytes + branchBytes * ps.length + stateBytes * distinctRanges [] ps

/-- The memory of a choice between going on and stopping. -/
def choiceBytes : Nat := stateBytes + 2 * branchBytes

/-- The memory of a repetition of what takes `n` bytes. -/
def repetitionBytes (min : Nat) (max : Option Nat) (canBeEmpty : Bool) (n : Nat) : Nat :=
  match max with
  | none =>
    if min = 0 && canBeEmpty then n + 2 * choiceBytes + stateBytes
    else Nat.max min 1 * n + choiceBytes
  | some max =>
    if min = max then min * n
    else min * n + (max - min) * (n + choiceBytes) + 2 * stateBytes

mutual

/-- The memory of the automaton of a pattern. -/
def bytes : Shape → Nat
  | empty => stateBytes
  | look => stateBytes
  | char n => stateBytes * (utf8Bytes n).length
  | set rs => setBytes rs
  | repetition min max sub => repetitionBytes min max sub.canBeEmpty sub.bytes
  | capture sub => sub.bytes + 2 * stateBytes
  | concat parts => listBytes parts
  | alternation branches =>
    listBytes branches + branchBytes * branches.length + 2 * stateBytes

/-- The memory of several patterns. -/
def listBytes : List Shape → Nat
  | [] => 0
  | s :: rest => s.bytes + listBytes rest

end

end Shape

/-- The memory that an automaton may take. -/
def sizeLimit : Nat := 10485760

end PatternAudit.Re2
