/-
Reading globs.

A glob is read from left to right with a stack of open groups. Two stars mean
whole directories when slashes or the ends of the glob, or of an alternative,
stand on both sides of them; elsewhere they are two single stars. In a class, a
`]` that comes first stands for itself, and so does a `-` that comes first or
last.
-/
import PatternAudit.Glob.Basic

set_option autoImplicit false

namespace PatternAudit.Glob

/-! ## Classes -/

/-- Ends the range that was begun last. -/
def endRange (c : Char) : List (Char × Char) → Except GlobFault (List (Char × Char))
  | (low, _) :: rest =>
    if c < low then .error (.invalidRange low c) else .ok ((low, c) :: rest)
  | [] => .ok [(c, c)]

/-- Reads the ranges of a class, which are collected backwards, up to its end. `open_`
tells that a `-` asks for the end of the last range. -/
def classRanges (first open_ : Bool) (ranges : List (Char × Char)) :
    List Char → Except GlobFault (List (Char × Char) × List Char)
  | [] => .error .unclosedClass
  | c :: cs =>
    if c = ']' && !first then
      .ok ((if open_ then ('-', '-') :: ranges else ranges).reverse, cs)
    else if c = '-' && !first && !open_ then classRanges false true ranges cs
    else if open_ && c != ']' then do
      let ranges ← endRange c ranges
      classRanges false false ranges cs
    else classRanges false false ((c, c) :: ranges) cs

/-- Reads a class, from after its `[`. -/
def readClass (cs : List Char) : Except GlobFault (GlobPart × List Char) := do
  let (negated, cs) := match cs with
    | '!' :: rest => (true, rest)
    | '^' :: rest => (true, rest)
    | rest => (false, rest)
  let (ranges, rest) ← classRanges true false [] cs
  .ok (.oneOf negated ranges, rest)

/-! ## Groups -/

/-- A group that is open: the parts before it, and its finished alternatives, backwards. -/
structure OpenGroup where
  before : List GlobPart
  branches : List (List GlobPart)

/-- The state of the reading: the parts of the current alternative, backwards, and the
open groups around it, innermost first. -/
structure Reader where
  parts : List GlobPart
  groups : List OpenGroup

namespace Reader

/-- Nothing read. -/
def fresh : Reader := ⟨[], []⟩

/-- Adds a part. -/
def push (r : Reader) (p : GlobPart) : Reader := { r with parts := p :: r.parts }

/-- Adds two single stars. -/
def pushStars (r : Reader) : Reader := (r.push .many).push .many

/-- Opens a group. -/
def openGroup (r : Reader) : Reader := ⟨[], ⟨r.parts, []⟩ :: r.groups⟩

/-- Goes on with the next alternative; outside of groups a comma stands for itself. -/
def comma (r : Reader) : Reader :=
  match r.groups with
  | [] => r.push (.char ',')
  | g :: rest => ⟨[], { g with branches := r.parts.reverse :: g.branches } :: rest⟩

/-- Closes a group. -/
def closeGroup (r : Reader) : Except GlobFault Reader :=
  match r.groups with
  | [] => .error .unopenedAlternates
  | g :: rest =>
    .ok ⟨.anyOf (r.parts.reverse :: g.branches).reverse :: g.before, rest⟩

/-- Puts whole directories in the place of the last part, which is the slash before them;
directories that stand there already go on. -/
def wholeDirs (r : Reader) (p : GlobPart) : Reader :=
  match r.parts with
  | .anyDirsBefore :: _ => r
  | .anythingBelow :: _ => r
  | _ :: rest => { r with parts := p :: rest }
  | [] => { r with parts := [p] }

/-- Reads what follows the second of two stars. `before` is the character before the
first. The answer leaves out a slash that belongs to the stars. -/
def twoStars (r : Reader) (before : Option Char) (cs : List Char) : Reader × List Char :=
  if r.parts.isEmpty then
    match cs with
    | [] => (r.push .anyDirsBefore, [])
    | '/' :: rest => (r.push .anyDirsBefore, rest)
    | _ => (r.pushStars, cs)
  else if before != some '/' && (r.groups.isEmpty || (before != some ',' && before != some '{')) then
    (r.pushStars, cs)
  else match cs with
    | [] => (r.wholeDirs .anythingBelow, [])
    | '/' :: rest => (r.wholeDirs .anyDirsBetween, rest)
    | c :: _ =>
      if (c = ',' || c = '}') && !r.groups.isEmpty then (r.wholeDirs .anythingBelow, cs)
      else (r.pushStars, cs)

end Reader

/-- Reads the parts of a glob. `before` is the character that was taken last; the fuel is
the length of the glob, of which every round takes some. -/
def readParts : Nat → Option Char → Reader → List Char → Except GlobFault Reader
  | 0, _, r, _ => .ok r
  | _, _, r, [] => .ok r
  | fuel + 1, before, r, c :: cs =>
    if c = '?' then readParts fuel (some c) (r.push .one) cs
    else if c = '*' then
      match cs with
      | '*' :: rest =>
        let (r, left) := r.twoStars before rest
        readParts fuel (if left.length < rest.length then some '/' else some '*') r left
      | _ => readParts fuel (some c) (r.push .many) cs
    else if c = '[' then do
      let (p, rest) ← readClass cs
      readParts fuel (some ']') (r.push p) rest
    else if c = '{' then readParts fuel (some c) r.openGroup cs
    else if c = '}' then do
      let r ← r.closeGroup
      readParts fuel (some c) r cs
    else if c = ',' then readParts fuel (some c) r.comma cs
    else if c = '\\' then
      match cs with
      | [] => .error .danglingEscape
      | e :: rest => readParts fuel (some e) (r.push (.char e)) rest
    else readParts fuel (some c) (r.push (.char c)) cs

/-- Reads a glob. -/
def read (glob : String) : Except GlobFault (List GlobPart) := do
  let r ← readParts glob.length none Reader.fresh glob.toList
  if r.groups.isEmpty then .ok r.parts.reverse else .error .unclosedAlternates

end PatternAudit.Glob
