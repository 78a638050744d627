/-
What a pattern means: the characters of its sets under the flags in force, and the
shape of its automaton.

With Unicode on, everything that can be read has a meaning except properties that do
not exist. With Unicode off a set is a set of bytes, and a pattern that could match
half a character is refused: that is any negated set, the dot, and a byte above
ASCII. Flags hold from where they are set to the end of the group, across its
alternatives.
-/
import PatternAudit.Dialect.Re2.Property
import PatternAudit.Dialect.Re2.Shape
import PatternAudit.Dialect.Re2.Group

set_option autoImplicit false

namespace PatternAudit.Re2

open Text (Ranges)

/-! ## Flags -/

/-- The flags that change what sets mean. -/
structure Flags where
  ignoreCase : Bool
  dotAll : Bool
  carriageReturns : Bool
  unicode : Bool

namespace Flags

/-- The flags at the start of a pattern. -/
def start : Flags := ⟨false, false, false, true⟩

/-- The flags after a list of changes. -/
def apply (f : Flags) (fs : FlagList) : Flags where
  ignoreCase := (fs.state? .ignoreCase).getD f.ignoreCase
  dotAll := (fs.state? .dotAll).getD f.dotAll
  carriageReturns := (fs.state? .carriageReturns).getD f.carriageReturns
  unicode := (fs.state? .unicode).getD f.unicode

end Flags

/-! ## Case -/

/-- The letters of ASCII in a set, moved by the distance of the two cases. -/
def otherCase (rs : Ranges) : Ranges :=
  Ranges.union
    ((Ranges.intersection rs [(0x41, 0x5A)]).map fun r => (r.1 + 32, r.2 + 32))
    ((Ranges.intersection rs [(0x61, 0x7A)]).map fun r => (r.1 - 32, r.2 - 32))

/-- The long s and the Kelvin sign, where their letters are in the set. -/
def lookalikes (rs : Ranges) : Ranges :=
  (if rs.contains 0x73 then [(0x17F, 0x17F)] else [])
    ++ (if rs.contains 0x6B then [(0x212A, 0x212A)] else [])

/-- A set without regard to the case of ASCII letters, as far as the flags ask for it. -/
def folded (f : Flags) (rs : Ranges) : Ranges :=
  if !f.ignoreCase then rs
  else
    let both := Ranges.union rs (otherCase rs)
    if f.unicode then Ranges.union both (lookalikes both) else both

/-! ## Sets -/

/-- A set under its negation. A negated set of bytes is refused. -/
def negatedIf (f : Flags) (start : Nat) (negated : Bool) (rs : Ranges) : Reading Ranges :=
  if !negated then .ok rs
  else if f.unicode then .ok (Ranges.complement rs)
  else refuse .invalidUtf8 start

/-- The named classes. -/
def asciiRanges (name : String) : Ranges :=
  match name with
  | "alnum" => [(0x30, 0x39), (0x41, 0x5A), (0x61, 0x7A)]
  | "alpha" => [(0x41, 0x5A), (0x61, 0x7A)]
  | "ascii" => [(0x00, 0x7F)]
  | "blank" => [(0x09, 0x09), (0x20, 0x20)]
  | "cntrl" => [(0x00, 0x1F), (0x7F, 0x7F)]
  | "digit" => [(0x30, 0x39)]
  | "graph" => [(0x21, 0x7E)]
  | "lower" => [(0x61, 0x7A)]
  | "print" => [(0x20, 0x7E)]
  | "punct" => [(0x21, 0x2F), (0x3A, 0x40), (0x5B, 0x60), (0x7B, 0x7E)]
  | "space" => [(0x09, 0x0D), (0x20, 0x20)]
  | "upper" => [(0x41, 0x5A)]
  | "word" => [(0x30, 0x39), (0x41, 0x5A), (0x5F, 0x5F), (0x61, 0x7A)]
  | _ => [(0x30, 0x39), (0x41, 0x46), (0x61, 0x66)]

/-- The characters of `\d`, `\s` and `\w`, which are those of ASCII without Unicode. -/
def PerlKind.ranges (f : Flags) : PerlKind → Ranges
  | .digit => if f.unicode then digitRanges else asciiRanges "digit"
  | .space => if f.unicode then spaceRanges else asciiRanges "space"
  | .word => if f.unicode then wordRanges else asciiRanges "word"

/-- The characters of one of those escapes. -/
def Perl.ranges (f : Flags) (p : Perl) : Reading Ranges :=
  negatedIf f p.start p.negated (p.kind.ranges f)

/-- The characters of a property. -/
def Property.ranges (f : Flags) (p : Property) : Reading Ranges :=
  if !f.unicode then refuse .unicodeNotAllowed p.start
  else match p.name.ranges with
  | .error e => refuse e p.start
  | .ok rs => negatedIf f p.start p.negated (folded f rs)

/-- A character as a member of a class. -/
def Literal.member (f : Flags) (l : Literal) : Reading Nat :=
  let n := l.char.toNat
  if f.unicode || n ≤ 0x7F then .ok n
  else refuse (if l.isByte then .invalidUtf8 else .unicodeNotAllowed) l.start

mutual

/-- The characters of a member. -/
def Member.ranges (f : Flags) : Member → Reading Ranges
  | .empty _ => .ok []
  | .literal l => (l.member f).map fun n => [(n, n)]
  | .range low high => do
    let a ← low.member f
    let b ← high.member f
    .ok [(a, b)]
  | .ascii start name negated => negatedIf f start negated (folded f (asciiRanges name))
  | .perl p => p.ranges f
  | .property p => p.ranges f
  | .bracket start negated set => do
    let rs ← set.ranges f
    negatedIf f start negated (folded f rs)
  | .union _ members => membersRanges f members

/-- The characters of a set. -/
def ClassSet.ranges (f : Flags) : ClassSet → Reading Ranges
  | .member m => m.ranges f
  | .op _ kind left right => do
    let as ← left.ranges f
    let bs ← right.ranges f
    let as := folded f as
    let bs := folded f bs
    .ok (match kind with
      | .intersection => Ranges.intersection as bs
      | .difference => Ranges.difference as bs
      | .symmetricDifference => Ranges.union (Ranges.difference as bs) (Ranges.difference bs as))

/-- The characters of several members. -/
def membersRanges (f : Flags) : List Member → Reading Ranges
  | [] => .ok []
  | m :: rest => do
    let as ← m.ranges f
    let bs ← membersRanges f rest
    .ok (Ranges.union as bs)

end

/-! ## Patterns -/

/-- The shape of one token. -/
def Primitive.shape (f : Flags) : Primitive → Reading Shape
  | literal l =>
    let n := l.char.toNat
    if !f.unicode && l.isByte && 0x7F < n then refuse .invalidUtf8 l.start
    else .ok (Shape.ofSet (folded f [(n, n)]))
  | assertion _ => .ok .look
  | dot start =>
    if !f.unicode then refuse .invalidUtf8 start
    else if f.dotAll then .ok (.set anyRanges)
    else if f.carriageReturns then
      .ok (.set (Ranges.complement [(0x0A, 0x0A), (0x0D, 0x0D)]))
    else .ok (.set (Ranges.complement [(0x0A, 0x0A)]))
  | perl p => (p.ranges f).map Shape.ofSet
  | property p => (p.ranges f).map Shape.ofSet

mutual

/-- The shape of a pattern, and the flags behind it. -/
def Node.shape (f : Flags) : Node → Reading (Shape × Flags)
  | .empty _ => .ok (.empty, f)
  | .flags _ fs => .ok (.empty, f.apply fs)
  | .primitive p => (p.shape f).map fun s => (s, f)
  | .bracket start negated set => do
    let rs ← set.ranges f
    let rs ← negatedIf f start negated (folded f rs)
    .ok (Shape.ofSet rs, f)
  | .repetition _ min max node => do
    let (s, f) ← node.shape f
    .ok (Shape.repeated min max s, f)
  | .group _ kind node =>
    match kind with
    | .capture => (node.shape f).map fun (s, _) => (.capture s, f)
    | .plain fs => (node.shape (f.apply fs)).map fun (s, _) => (s, f)
  | .alternation _ branches => (nodesShapes f branches).map fun (ss, f) => (Shape.ofBranches ss, f)
  | .concat _ parts => (nodesShapes f parts).map fun (ss, f) => (.concat ss, f)

/-- The shapes of patterns one after the other, and the flags behind the last. -/
def nodesShapes (f : Flags) : List Node → Reading (List Shape × Flags)
  | [] => .ok ([], f)
  | n :: rest => do
    let (s, f) ← n.shape f
    let (ss, f) ← nodesShapes f rest
    .ok (s :: ss, f)

end

end PatternAudit.Re2
