/-
The openings of groups: names, flags, and the constructs that the syntax knows but
automata cannot follow.
-/
import PatternAudit.Text.Category
import PatternAudit.Dialect.Re2.Escape

set_option autoImplicit false

namespace PatternAudit.Re2

/-! ## Names -/

/-- Whether a name may begin with the character. -/
def beginsName (c : Char) : Bool := c = '_' || Text.isAlphabetic c

/-- Whether a name may go on with the character. -/
def continuesName (c : Char) : Bool :=
  c = '_' || c = '.' || c = '[' || c = ']' || Text.isAlphanumeric c

/-- The characters that a name may have, as far as they go. -/
def nameRun : List Char → List Char
  | [] => []
  | c :: cs => if beginsName c then c :: cs.takeWhile continuesName else []

/-- The place of the first character that a name may not have. -/
def badNameChar? (index : Nat) (name : List Char) : Option Nat :=
  let run := nameRun name
  if run.length = name.length then none else some (index + Text.byteSize run)

/-- A group name up to its `>`, which none of `known` may be. A bad character counts
before a missing end. -/
def groupName (known : List String) (c : Cursor) : Reading (String × Cursor) :=
  let name := c.rest.takeWhile (· != '>')
  match badNameChar? c.index name with
  | some i => refuse .groupNameInvalid i
  | none =>
    let after := c.skip name.length
    if after.atEnd then refuse .groupNameUnexpectedEnd after.index
    else if name.isEmpty then refuse .groupNameEmpty c.index
    else if String.ofList name ∈ known then refuse .groupNameDuplicate c.index
    else .ok (String.ofList name, after.bump)

/-! ## Flags -/

/-- The flag of a letter. -/
def flag? : Char → Option Flag
  | 'i' => some .ignoreCase
  | 'm' => some .multiLine
  | 's' => some .dotAll
  | 'U' => some .swapGreed
  | 'u' => some .unicode
  | 'R' => some .carriageReturns
  | 'x' => some .verbose
  | _ => none

/-- The state of a flag in a list, if the list sets it. -/
def FlagList.state? (fs : FlagList) (f : Flag) : Option Bool := fs.lookup f

/-- Reads flags up to a colon or a closing parenthesis, which is left. `dash` is the
place of the dash that switches flags off, once it was read; `dangling` says that it is
the last thing read. -/
def flagList (read : FlagList) (dash : Option Nat) (dangling : Bool) (index : Nat) :
    List Char → Reading (FlagList × Nat)
  | [] => refuse .flagUnexpectedEnd index
  | c :: cs =>
    if c = ':' || c = ')' then
      match dash, dangling with
      | some i, true => refuse .flagDanglingNegation i
      | _, _ => .ok (read.reverse, index)
    else if c = '-' then
      if dash.isSome then refuse .flagRepeatedNegation index
      else flagList read (some index) true (index + 1) cs
    else
      match flag? c with
      | none => refuse .flagUnrecognized index
      | some f =>
        if (read.lookup f).isSome then refuse .flagDuplicate index
        else flagList ((f, dash.isNone) :: read) dash false (index + 1) cs

/-! ## Openings -/

/-- What a parenthesis opens. -/
inductive Opening where
  /-- flags for the rest of the group around it; nothing is opened -/
  | flags (fs : FlagList)
  | plain (fs : FlagList)
  | capture (name : Option String)

/-- Whether a look-ahead or a look-behind begins. -/
def opensLook (c : Cursor) : Bool :=
  ["?=", "?!", "?<=", "?<!"].any fun text => (c.skipText? text).isSome

/-- What a parenthesis opens, from that parenthesis. -/
def opening (known : List String) (c : Cursor) : Reading (Opening × Cursor) :=
  let start := c.index
  let c := c.next
  if opensLook c then refuse .lookAround start
  else match (c.skipText? "?P<").or (c.skipText? "?<") with
  | some c =>
    if c.atEnd then refuse .groupNameUnexpectedEnd c.index
    else (groupName known c).map fun (name, c) => (.capture (some name), c)
  | none =>
    match c.skipText? "?" with
    | none => .ok (.capture none, c)
    | some inner =>
      if inner.atEnd then refuse .groupUnclosed start
      else match flagList [] none false inner.index inner.rest with
      | .error e => .error e
      | .ok (fs, index) =>
        let stop := inner.skip (index - inner.index)
        if stop.starts ':' then .ok (.plain fs, stop.bump)
        else if fs.isEmpty then refuse .repetitionMissing c.index
        else .ok (.flags fs, stop.bump)

end PatternAudit.Re2
