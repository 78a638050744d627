/-
Patterns of an automaton engine, as they are read: what is written, and where each
part begins.

The tree keeps what the later stages ask for. A backreference or a look-around is
refused while it is read, so none of them has a node.
-/
import PatternAudit.Dialect.Re2.Refusal

set_option autoImplicit false

namespace PatternAudit.Re2

/-! ## Leaves -/

/-- A flag of a group. -/
inductive Flag where
  | ignoreCase
  | multiLine
  | dotAll
  | swapGreed
  | unicode
  | carriageReturns
  | verbose
  deriving DecidableEq

/-- Flags in the order in which they are written, and whether each is switched on. -/
abbrev FlagList := List (Flag × Bool)

/-- One character. `isByte` holds of the two-digit escape `\x`, which stands for a byte
where Unicode is switched off. -/
structure Literal where
  start : Nat
  char : Char
  isByte : Bool

/-- The three sets of `\d`, `\s` and `\w`. -/
inductive PerlKind where
  | digit
  | space
  | word

/-- One of the sets `\d`, `\s`, `\w`, `\D`, `\S`, `\W`. -/
structure Perl where
  start : Nat
  kind : PerlKind
  negated : Bool

/-- What a Unicode property escape asks for. -/
inductive PropertyName where
  | single (name : String)
  | withValue (name value : String)

/-- A Unicode property escape. -/
structure Property where
  start : Nat
  name : PropertyName
  negated : Bool

/-- What an atom outside a class, or a member of a class, may be. -/
inductive Primitive where
  | literal (l : Literal)
  | assertion (start : Nat)
  | dot (start : Nat)
  | perl (p : Perl)
  | property (p : Property)

/-- Where a primitive begins. -/
def Primitive.start : Primitive → Nat
  | literal l => l.start
  | assertion start => start
  | dot start => start
  | perl p => p.start
  | property p => p.start

/-! ## Classes -/

/-- An operation on sets of characters. -/
inductive SetOp where
  | intersection
  | difference
  | symmetricDifference

mutual

/-- A member of a class. -/
inductive Member where
  | empty (start : Nat)
  | literal (l : Literal)
  | range (low high : Literal)
  | ascii (start : Nat) (name : String) (negated : Bool)
  | perl (p : Perl)
  | property (p : Property)
  | bracket (start : Nat) (negated : Bool) (set : ClassSet)
  | union (start : Nat) (members : List Member)

/-- What a class holds. -/
inductive ClassSet where
  | member (m : Member)
  | op (start : Nat) (kind : SetOp) (left right : ClassSet)

end

/-- Where a member begins. -/
def Member.start : Member → Nat
  | empty start => start
  | literal l => l.start
  | range low _ => low.start
  | ascii start _ _ => start
  | perl p => p.start
  | property p => p.start
  | bracket start _ _ => start
  | union start _ => start

/-- Where a set begins. -/
def ClassSet.start : ClassSet → Nat
  | member m => m.start
  | op start _ _ _ => start

/-- Several members as one: none, the only one, or a union. `gap` is where members
would begin if there are none. -/
def Member.ofList (gap : Nat) : List Member → Member
  | [] => .empty gap
  | [m] => m
  | m :: rest => .union m.start (m :: rest)

/-! ## Patterns -/

/-- What a group is for. -/
inductive GroupKind where
  | capture
  | plain (flags : FlagList)

/-- A pattern. -/
inductive Node where
  | empty (start : Nat)
  | flags (start : Nat) (flags : FlagList)
  | primitive (p : Primitive)
  | bracket (start : Nat) (negated : Bool) (set : ClassSet)
  | repetition (start : Nat) (min : Nat) (max : Option Nat) (node : Node)
  | group (start : Nat) (kind : GroupKind) (node : Node)
  | alternation (start : Nat) (branches : List Node)
  | concat (start : Nat) (parts : List Node)

namespace Node

/-- Where a pattern begins. -/
def start : Node → Nat
  | empty start => start
  | flags start _ => start
  | primitive p => p.start
  | bracket start _ _ => start
  | repetition start _ _ _ => start
  | group start _ _ => start
  | alternation start _ => start
  | concat start _ => start

/-- Parts side by side. -/
def ofParts (start : Nat) : List Node → Node
  | [] => .empty start
  | [n] => n
  | parts => .concat start parts

/-- Branches that are alternatives. -/
def ofBranches (start : Nat) : List Node → Node
  | [] => .empty start
  | [n] => n
  | branches => .alternation start branches

end Node

/-! ## Depth -/

mutual

/-- Where a member first nests deeper than `room` more levels, if it does. -/
def Member.tooDeep? (room : Nat) : Member → Option Nat
  | .bracket start _ set => if room = 0 then some start else set.tooDeep? (room - 1)
  | .union start members => if room = 0 then some start else membersTooDeep? (room - 1) members
  | .empty _ => none
  | .literal _ => none
  | .range _ _ => none
  | .ascii _ _ _ => none
  | .perl _ => none
  | .property _ => none

/-- The same for a set. -/
def ClassSet.tooDeep? (room : Nat) : ClassSet → Option Nat
  | .member m => m.tooDeep? room
  | .op start _ left right =>
    if room = 0 then some start
    else (left.tooDeep? (room - 1)).or (right.tooDeep? (room - 1))

/-- The same for members, the first that does. -/
def membersTooDeep? (room : Nat) : List Member → Option Nat
  | [] => none
  | m :: rest => (m.tooDeep? room).or (membersTooDeep? room rest)

end

mutual

/-- Where a pattern first nests deeper than `room` more levels, if it does. Classes,
repetitions, groups, alternations and concatenations each take a level. -/
def Node.tooDeep? (room : Nat) : Node → Option Nat
  | .empty _ => none
  | .flags _ _ => none
  | .primitive _ => none
  | .bracket start _ set => if room = 0 then some start else set.tooDeep? (room - 1)
  | .repetition start _ _ node => if room = 0 then some start else node.tooDeep? (room - 1)
  | .group start _ node => if room = 0 then some start else node.tooDeep? (room - 1)
  | .alternation start branches =>
    if room = 0 then some start else nodesTooDeep? (room - 1) branches
  | .concat start parts => if room = 0 then some start else nodesTooDeep? (room - 1) parts

/-- The same for several patterns, the first that does. -/
def nodesTooDeep? (room : Nat) : List Node → Option Nat
  | [] => none
  | n :: rest => (n.tooDeep? room).or (nodesTooDeep? room rest)

end

end PatternAudit.Re2
