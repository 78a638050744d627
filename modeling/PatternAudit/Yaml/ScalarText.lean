/-
The text of a scalar token, in its four written forms.

Between the lines of a quoted or plain scalar, one line end counts as a space
and each further one as a line feed (`Fold.join`). A block scalar keeps its
line ends, or folds them the same way where neither line is indented further.
Every form is read by a loop over what is left of the text; the fuel handed to
the loops is the length of the whole text, and every round takes a character.
-/
import PatternAudit.Yaml.Token

set_option autoImplicit false

namespace PatternAudit.Yaml.ScalarText

/-- A problem met while reading something that began at `since`. -/
def fault {α : Type} (problem : Problem) (at_ : Cursor) (activity : Activity) (since : Mark) :
    Except Fault α :=
  .error (.at problem at_.mark (some (activity, since)))

/-! ## Folding -/

/-- The blank space between two pieces of a scalar: the blanks of a line, or the end
of a line and the ends of the empty lines after it. -/
structure Fold where
  blanks : List Char
  broken : Bool
  first : List Char
  later : List Char

/-- No blank space. -/
def Fold.empty : Fold := ⟨[], false, [], []⟩

/-- What the blank space counts for. -/
def Fold.join (f : Fold) : List Char :=
  if f.broken then
    if f.first.head? == some '\n' then
      if f.later.isEmpty then [' '] else f.later
    else f.first ++ f.later
  else f.blanks

/-- Reads blank space. `guard` says where a tab may not stand once a line has ended. -/
def Fold.read (guard : Cursor → Option Fault) : Nat → Fold → Cursor → Except Fault (Fold × Cursor)
  | 0, f, c => .ok (f, c)
  | fuel + 1, f, c =>
    match c.rest with
    | [] => .ok (f, c)
    | x :: _ =>
      if isBlank x then
        match (if f.broken then guard c else none) with
        | some e => .error e
        | none =>
          Fold.read guard fuel (if f.broken then f else { f with blanks := f.blanks ++ [x] }) (c.skip 1)
      else if isBreak x then
        let f' : Fold :=
          if f.broken then { f with later := f.later ++ c.breakText }
          else { f with blanks := [], broken := true, first := c.breakText }
        Fold.read guard fuel f' c.skipBreak
      else .ok (f, c)

/-! ## Quoted scalars -/

/-- The character of a one-letter escape. -/
def shortEscape? (c : Char) : Option Char :=
  match c with
  | '0' => some '\x00'
  | 'a' => some '\x07'
  | 'b' => some '\x08'
  | 't' => some '\t'
  | '\t' => some '\t'
  | 'n' => some '\n'
  | 'v' => some '\x0b'
  | 'f' => some '\x0c'
  | 'r' => some '\r'
  | 'e' => some '\x1b'
  | ' ' => some ' '
  | '"' => some '"'
  | '/' => some '/'
  | '\\' => some '\\'
  | 'N' => some '\u0085'
  | '_' => some '\u00a0'
  | 'L' => some '\u2028'
  | 'P' => some '\u2029'
  | _ => none

/-- The number of digits of a numeric escape. -/
def escapeDigits? (c : Char) : Option Nat :=
  match c with
  | 'x' => some 2
  | 'u' => some 4
  | 'U' => some 8
  | _ => none

/-- Reads exactly `n` hexadecimal digits. -/
def hexNumber? : Nat → Nat → List Char → Option Nat
  | 0, acc, _ => some acc
  | n + 1, acc, c :: cs => (Text.hexValue? c).bind fun d => hexNumber? n (acc * 16 + d) cs
  | _ + 1, _, [] => none

/-- Reads the unbroken part of a quoted scalar, up to its quote, blank space or an
escaped line end. The flag of the answer says that a line end was escaped. -/
def quotedPart (single : Bool) (since : Mark) :
    Nat → List Char → Cursor → Except Fault (List Char × Bool × Cursor)
  | 0, acc, c => .ok (acc, false, c)
  | fuel + 1, acc, c =>
    match c.rest with
    | [] => .ok (acc, false, c)
    | x :: tail =>
      if isBlank x || isBreak x then .ok (acc, false, c)
      else if single then
        if x = '\'' then
          match tail with
          | '\'' :: _ => quotedPart single since fuel ('\'' :: acc) (c.skip 2)
          | _ => .ok (acc, false, c)
        else quotedPart single since fuel (x :: acc) (c.skip 1)
      else if x = '"' then .ok (acc, false, c)
      else if x = '\\' then
        match tail with
        | [] => fault .unknownEscape c .quotedScalarParts since
        | y :: digits =>
          if isBreak y then .ok (acc, true, (c.skip 1).skipBreak)
          else match shortEscape? y, escapeDigits? y with
            | some z, _ => quotedPart single since fuel (z :: acc) (c.skip 2)
            | none, some n =>
              match hexNumber? n 0 digits with
              | none => fault .noHexNumber (c.skip 2) .quotedScalarParts since
              | some value =>
                if (0xD800 ≤ value && value ≤ 0xDFFF) || 0x10FFFF < value then
                  fault .notAScalarValue (c.skip 2) .quotedScalarParts since
                else quotedPart single since fuel (Char.ofNat value :: acc) (c.skip (2 + n))
            | none, none => fault .unknownEscape c .quotedScalarParts since
      else quotedPart single since fuel (x :: acc) (c.skip 1)

/-- Reads a quoted scalar from after its first quote. The accumulator is backwards. -/
def quotedLoop (single : Bool) (since : Mark) :
    Nat → List Char → Cursor → Except Fault (List Char × Cursor)
  | 0, acc, c => .ok (acc.reverse, c)
  | fuel + 1, acc, c =>
    if c.atDocumentIndicator then fault .documentIndicator c .quotedScalar since
    else if c.rest.isEmpty then fault .endOfStream c .quotedScalar since
    else do
      let (acc, escaped, c) ← quotedPart single since (c.size + 1) acc c
      if c.starts (if single then '\'' else '"') then .ok (acc.reverse, c.skip 1)
      else do
        let (f, c) ← Fold.read (fun _ => none) (c.size + 1)
          { Fold.empty with broken := escaped } c
        quotedLoop single since fuel (f.join.reverse ++ acc) c

/-- Reads a quoted scalar, from its first quote. -/
def quoted (single : Bool) (c : Cursor) : Except Fault (Placed × Cursor) := do
  let (text, rest) ← quotedLoop single c.mark (c.size + 1) [] (c.skip 1)
  .ok (⟨.scalar (String.ofList text) (if single then .single else .double), c.mark, rest.mark⟩, rest)

/-! ## Plain scalars -/

/-- The characters that bound a flow collection. -/
def isFlowIndicator (c : Char) : Bool := c = ',' || c = '[' || c = ']' || c = '{' || c = '}'

/-- Reads the unbroken part of a plain scalar. -/
def plainPart (flow : Bool) (since : Mark) :
    Nat → List Char → Cursor → Except Fault (List Char × Cursor)
  | 0, acc, c => .ok (acc, c)
  | fuel + 1, acc, c =>
    match c.rest with
    | [] => .ok (acc, c)
    | x :: tail =>
      if isBlank x || isBreak x then .ok (acc, c)
      else if flow && x = ':' && tail.head?.any (fun y => y = '?' || isFlowIndicator y) then
        fault .colonInFlow c .plainScalar since
      else if (x = ':' && c.isGapAt 1) || (flow && isFlowIndicator x) then .ok (acc, c)
      else plainPart flow since fuel (x :: acc) (c.skip 1)

/-- Reads a plain scalar whose continuation lines stand at column `indent` or further
right. The blank space seen last is kept until something follows it. Answers the
text, where it ends, whether a line had ended, and where reading stopped. -/
def plainLoop (flow : Bool) (indent : Int) (since : Mark) :
    Nat → List Char → Fold → Mark → Cursor → Except Fault (List Char × Mark × Bool × Cursor)
  | 0, acc, f, stop, c => .ok (acc.reverse, stop, f.broken, c)
  | fuel + 1, acc, f, stop, c =>
    if c.atDocumentIndicator || c.starts '#' then .ok (acc.reverse, stop, f.broken, c)
    else do
      let (part, next) ← plainPart flow since (c.size + 1) [] c
      let taken := !part.isEmpty
      let acc := if taken then part ++ (f.join.reverse ++ acc) else acc
      let stop := if taken then next.mark else stop
      let f := if taken then Fold.empty else f
      if next.rest.head?.any (fun x => isBlank x || isBreak x) then do
        let guard (c : Cursor) : Option Fault :=
          if (c.mark.column : Int) < indent && c.starts '\t' then
            some (.at .tabBelowIndentation c.mark (some (.plainScalar, since)))
          else none
        let (f, next) ← Fold.read guard (next.size + 1) f next
        if !flow && (next.mark.column : Int) < indent then .ok (acc.reverse, stop, f.broken, next)
        else plainLoop flow indent since fuel acc f stop next
      else .ok (acc.reverse, stop, f.broken, next)

/-- Reads a plain scalar; the flag of the answer says that a line ended after it. -/
def plain (flow : Bool) (indent : Int) (c : Cursor) : Except Fault (Placed × Bool × Cursor) := do
  let (text, stop, broken, rest) ←
    plainLoop flow (indent + 1) c.mark (c.size + 1) [] Fold.empty c.mark c
  .ok (⟨.scalar (String.ofList text) .plain, c.mark, stop⟩, broken, rest)

/-! ## Block scalars -/

/-- What happens to the line ends at the end of a block scalar. -/
inductive Chomp where
  | strip
  | clip
  | keep
  deriving DecidableEq

/-- Reads the empty lines before a line of a block scalar. An indentation of zero is not
known yet, and is then the column of the first line that is not empty. -/
def blockBreaks (since : Mark) (parent : Int) :
    Nat → Nat → Nat → List Char → Mark → Cursor → Except Fault (Nat × List Char × Mark × Cursor)
  | 0, indent, _, acc, stop, c => .ok (indent, acc, stop, c)
  | fuel + 1, indent, widest, acc, stop, c =>
    let spaces := c.rest.takeWhile (· = ' ')
    let wanted := if indent = 0 then spaces.length else min spaces.length (indent - c.mark.column)
    let c := c.skip wanted
    let widest := max widest c.mark.column
    if (indent = 0 || c.mark.column < indent) && c.starts '\t' then
      fault .tabInIndentation c .blockScalar since
    else if c.rest.head?.any isBreak then
      let next := c.skipBreak
      blockBreaks since parent fuel indent widest (acc ++ c.breakText) next.mark next
    else
      let found := if indent = 0 then max (max widest (parent + 1).toNat) 1 else indent
      .ok (found, acc, stop, c)

/-- Reads the lines of a block scalar. -/
def blockLines (literal : Bool) (since : Mark) (parent : Int) (indent : Nat) :
    Nat → List Char → Bool → List Char → List Char → Mark → Cursor →
    Except Fault (List Char × List Char × List Char × Mark × Cursor)
  | 0, acc, _, lead, trail, stop, c => .ok (acc, lead, trail, stop, c)
  | fuel + 1, acc, leadBlank, lead, trail, stop, c =>
    if c.mark.column = indent && !c.rest.isEmpty then do
      let blank := c.rest.head?.any isBlank
      let between :=
        if !literal && lead.head? == some '\n' && !leadBlank && !blank then
          if trail.isEmpty then [' '] else trail
        else lead ++ trail
      let (line, c) := c.takeWhile fun x => !isBreak x
      let next := c.skipBreak
      let lead := c.breakText
      let (_, trail, stop, c) ←
        blockBreaks since parent (next.size + 1) indent 0 [] next.mark next
      blockLines literal since parent indent fuel (line.reverse ++ (between.reverse ++ acc))
        blank lead trail stop c
    else .ok (acc, lead, trail, stop, c)

/-- The value of a decimal digit. -/
def digit? (c : Char) : Option Nat :=
  if '0' ≤ c && c ≤ '9' then some (c.toNat - '0'.toNat) else none

/-- The chomping sign at the front, if there is one. -/
def chomp? (c : Cursor) : Option Chomp :=
  match c.rest with
  | '+' :: _ => some .keep
  | '-' :: _ => some .strip
  | _ => none

/-- Reads the head of a block scalar: a chomping sign and an indentation, in any order. -/
def blockHead (since : Mark) (c : Cursor) : Except Fault (Chomp × Nat × Cursor) :=
  let step (c : Cursor) : Except Fault (Nat × Cursor) :=
    match c.rest.head?.bind digit? with
    | some 0 => fault .zeroIndentation c .blockScalar since
    | some n => .ok (n, c.skip 1)
    | none => .ok (0, c)
  match chomp? c with
  | some ch => do
    let (n, c) ← step (c.skip 1)
    .ok (ch, n, c)
  | none => do
    let (n, c) ← step c
    if n = 0 then .ok (.clip, n, c)
    else match chomp? c with
      | some ch => .ok (ch, n, c.skip 1)
      | none => .ok (.clip, n, c)

/-- Reads a block scalar, from its indicator. -/
def block (literal : Bool) (parent : Int) (c : Cursor) : Except Fault (Placed × Cursor) := do
  let since := c.mark
  let (chomp, step, c) ← blockHead since (c.skip 1)
  let c := c.dropWhile isBlank
  let c := if c.starts '#' then c.dropWhile fun x => !isBreak x else c
  if !c.rest.isEmpty && !c.rest.head?.any isBreak then fault .noCommentOrBreak c .blockScalar since
  else do
    let c := c.skipBreak
    let indent := if step = 0 then 0 else if 0 ≤ parent then parent.toNat + step else step
    let (indent, trail, stop, c) ←
      blockBreaks since parent (c.size + 1) indent 0 [] c.mark c
    let (acc, lead, trail, stop, c) ←
      blockLines literal since parent indent (c.size + 1) [] false [] trail stop c
    let text := acc.reverse ++ (if chomp = .strip then [] else lead)
      ++ (if chomp = .keep then trail else [])
    .ok (⟨.scalar (String.ofList text) (if literal then .literal else .folded), since, stop⟩, c)

end PatternAudit.Yaml.ScalarText
