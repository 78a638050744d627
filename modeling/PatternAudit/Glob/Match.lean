/-
Matching locations against globs.

A glob is matched byte by byte against the UTF-8 text of a location, slashes
included: a star crosses them. What is kept is the set of cuts of the location
that the parts so far can reach, one flag before each byte and one after the
last. A part turns one such set into the next; a glob matches if the cut at the
end is reached.
-/
import PatternAudit.Glob.Read
import PatternAudit.Text.Utf8

set_option autoImplicit false

namespace PatternAudit.Glob

/-- The cuts of a text that can be reached: a flag before each byte, and one at the end. -/
abbrev Reach := List Bool

/-- Takes one byte that passes a test. -/
def Reach.byte (test : UInt8 → Bool) (bytes : List UInt8) (r : Reach) : Reach :=
  false :: List.zipWith (fun reached b => reached && test b) r bytes

/-- Takes the bytes of a text. -/
def Reach.text (bytes : List UInt8) (text : List UInt8) (r : Reach) : Reach :=
  text.foldl (fun r x => r.byte (· = x) bytes) r

/-- Takes any bytes, or none. The flag tells that an earlier cut is reached. -/
def Reach.any : Bool → Reach → Reach
  | _, [] => []
  | before, r :: rs => (before || r) :: Reach.any (before || r) rs

/-- Takes a slash. -/
def Reach.slash (bytes : List UInt8) (r : Reach) : Reach := r.byte (· = 47) bytes

/-- The cuts of either set. -/
def Reach.or (r s : Reach) : Reach := List.zipWith (· || ·) r s

/-- The ranges of bytes that a class of characters stands for: the bytes of each end, with
a range between the last byte of the one and the first of the other. -/
def byteRanges (ranges : List (Char × Char)) : List (UInt8 × UInt8) :=
  ranges.flatMap fun r =>
    let low := Text.bytes (String.singleton r.1)
    let high := Text.bytes (String.singleton r.2)
    let single (bs : List UInt8) : List (UInt8 × UInt8) := bs.map fun b => (b, b)
    if r.1 = r.2 then single low
    else single low.dropLast ++ [(low.getLast?.getD 0, high.head?.getD 0)] ++ single (high.drop 1)

/-- Whether a byte is in one of the ranges. -/
def inRanges (ranges : List (UInt8 × UInt8)) (b : UInt8) : Bool :=
  ranges.any fun r => r.1 ≤ b && b ≤ r.2

mutual

/-- Whether a part stands for no test at all: a group of nothing but empty alternatives. -/
def isVoid : GlobPart → Bool
  | .anyOf branches => allVoidBranches branches
  | _ => false

/-- Whether all parts are void. -/
def allVoid : List GlobPart → Bool
  | [] => true
  | p :: ps => isVoid p && allVoid ps

/-- Whether all alternatives are void. -/
def allVoidBranches : List (List GlobPart) → Bool
  | [] => true
  | ps :: rest => allVoid ps && allVoidBranches rest

end

mutual

/-- The cuts that a part can reach from others. -/
def advance (bytes : List UInt8) : GlobPart → Reach → Reach
  | .char c, r => r.text bytes (Text.bytes (String.singleton c))
  | .one, r => r.byte (fun _ => true) bytes
  | .many, r => r.any false
  | .anyDirsBefore, r => r.or ((r.any false).slash bytes)
  | .anythingBelow, r => (r.slash bytes).any false
  | .anyDirsBetween, r => (r.slash bytes).or (((r.slash bytes).any false).slash bytes)
  | .oneOf negated ranges, r =>
    let ranges := byteRanges ranges
    r.byte (fun b => inRanges ranges b != negated) bytes
  | .anyOf branches, r =>
    if allVoidBranches branches then r else advanceBranches bytes branches r

/-- The cuts that parts, one after the other, can reach from others. -/
def advanceAll (bytes : List UInt8) : List GlobPart → Reach → Reach
  | [], r => r
  | p :: ps, r => advanceAll bytes ps (advance bytes p r)

/-- The cuts that the alternatives can reach; a void one does not count. -/
def advanceBranches (bytes : List UInt8) : List (List GlobPart) → Reach → Reach
  | [], r => r.map fun _ => false
  | ps :: rest, r =>
    let others := advanceBranches bytes rest r
    if allVoid ps then others else (advanceAll bytes ps r).or others

end

/-- Whether a glob matches a location. Two stars alone match everything. -/
def isMatch (glob : List GlobPart) (location : String) : Bool :=
  match glob with
  | [.anyDirsBefore] => true
  | _ =>
    let bytes := Text.bytes location
    (advanceAll bytes glob (true :: bytes.map fun _ => false)).getLast?.getD false

end PatternAudit.Glob
