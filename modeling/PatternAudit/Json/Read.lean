/-
Reading JSON text, by shape.

The reader walks the text once and checks the shape as it goes, so of two
faults the one that stands first in the text is reported. Every reading
function answers what it read and what is left of the text. A failure is a
`Stop`: the fault, the text that was left, and how many bytes past that point
the fault lies (one, when the next byte was looked at and not taken); line and
column are counted only at the end, from the bytes before the stop.

Two limits belong to the format. Arrays and objects nest at most 127 deep. A
number keeps its significant digits as long as they fit 64 bits, later digits
only move the point, and the power of ten is applied in floating point, so a
long decimal is not always rounded to nearest.

A member that a record does not know is skimmed: checked as text, without the
nesting limit, without the rules on surrogates, and without a value.
-/
import PatternAudit.Json.Shape
import PatternAudit.Text.Utf8
import PatternAudit.Word

set_option autoImplicit false

namespace PatternAudit.Json.Read

/-! ## Faults -/

/-- Why a text is no JSON text of the expected shape. -/
inductive Fault where
  | endInList
  | endInObject
  | endInString
  | endInValue
  | expectedColon
  | expectedListEnd
  | expectedObjectEnd
  | expectedIdent
  | expectedValue
  | invalidEscape
  | invalidNumber
  | numberOutOfRange
  | controlCharacter
  | keyNotString
  | loneSurrogate
  | endOfHexEscape
  | trailingComma
  | trailingCharacters
  | tooDeep
  | mismatch (m : Mismatch)

/-- The message of a fault. -/
def Fault.message : Fault → String
  | endInList => "EOF while parsing a list"
  | endInObject => "EOF while parsing an object"
  | endInString => "EOF while parsing a string"
  | endInValue => "EOF while parsing a value"
  | expectedColon => "expected `:`"
  | expectedListEnd => "expected `,` or `]`"
  | expectedObjectEnd => "expected `,` or `\x7d`"
  | expectedIdent => "expected ident"
  | expectedValue => "expected value"
  | invalidEscape => "invalid escape"
  | invalidNumber => "invalid number"
  | numberOutOfRange => "number out of range"
  | controlCharacter => "control character (\\u0000-\\u001F) found while parsing a string"
  | keyNotString => "key must be a string"
  | loneSurrogate => "lone leading surrogate in hex escape"
  | endOfHexEscape => "unexpected end of hex escape"
  | trailingComma => "trailing comma"
  | trailingCharacters => "trailing characters"
  | tooDeep => "recursion limit exceeded"
  | mismatch m => m.message .json

/-- Where and why the reader stopped. -/
structure Stop where
  fault : Fault
  left : List Char
  ahead : Nat

/-- Stops right after what was taken. -/
def stop {α : Type} (fault : Fault) (left : List Char) : Except Stop (α × List Char) := .error ⟨fault, left, 0⟩

/-- Stops on the next byte, which was looked at. -/
def stopAhead {α : Type} (fault : Fault) (left : List Char) : Except Stop (α × List Char) := .error ⟨fault, left, 1⟩

/-- Counts lines and columns over bytes: one line more after a line feed, one
column more after any other byte. -/
def position : Nat × Nat → List UInt8 → Nat × Nat
  | at_, [] => at_
  | (line, column), b :: bs => position (if b = 10 then (line + 1, 0) else (line, column + 1)) bs

/-- The line and column of a stop in a text. -/
def Stop.position (s : Stop) (text : List Char) : Nat × Nat :=
  let bytes := Text.bytes (String.ofList text)
  let taken := bytes.length - Text.byteSize s.left
  Read.position (1, 0) (bytes.take (taken + s.ahead))

/-- The message of a stop in a text. -/
def Stop.message (s : Stop) (text : List Char) : String :=
  let (line, column) := s.position text
  s.fault.message ++ " at line " ++ toString line ++ " column " ++ toString column

/-! ## Lexical pieces -/

/-- Drops the blanks of the format: space, tab, line feed, carriage return. -/
def skipBlanks : List Char → List Char
  | ' ' :: cs => skipBlanks cs
  | '\n' :: cs => skipBlanks cs
  | '\t' :: cs => skipBlanks cs
  | '\r' :: cs => skipBlanks cs
  | cs => cs

/-- Reads the rest of a literal name. -/
def ident {α : Type} (value : α) : List Char → List Char → Except Stop (α × List Char)
  | [], cs => .ok (value, cs)
  | _ :: _, [] => stop .endInValue []
  | e :: es, c :: cs => if e = c then ident value es cs else stop .expectedIdent cs

/-- The value of a hexadecimal digit. -/
def hexDigit? (c : Char) : Option Nat :=
  if '0' ≤ c && c ≤ '9' then some (c.toNat - '0'.toNat)
  else if 'a' ≤ c && c ≤ 'f' then some (c.toNat - 'a'.toNat + 10)
  else if 'A' ≤ c && c ≤ 'F' then some (c.toNat - 'A'.toNat + 10)
  else none

/-- Reads the four digits of an escape. With fewer than four bytes left the text
ends inside the string; otherwise four bytes are taken before they are judged. -/
def hexFour (cs : List Char) : Except Stop (Nat × List Char) :=
  match cs with
  | a :: b :: c :: d :: rest =>
    match hexDigit? a, hexDigit? b, hexDigit? c, hexDigit? d with
    | some a, some b, some c, some d => .ok (((a * 16 + b) * 16 + c) * 16 + d, rest)
    | _, _, _, _ => .error ⟨.invalidEscape, cs, 4⟩
  | _ => if 4 ≤ Text.byteSize cs then .error ⟨.invalidEscape, cs, 4⟩ else stop .endInString []

/-- Reads an escape of the form `\uXXXX`, from the digits on. Two escapes make one
character outside the first plane; a surrogate on its own is refused, unless
the string is only skimmed. -/
def unicodeEscape (skim : Bool) (cs : List Char) : Except Stop (Char × List Char) := do
  let (n, cs) ← hexFour cs
  if skim then .ok ('\uFFFD', cs)
  else if 0xDC00 ≤ n && n ≤ 0xDFFF then stop .loneSurrogate cs
  else if n < 0xD800 || 0xDBFF < n then .ok (Char.ofNat n, cs)
  else match cs with
    | [] => stop .endInString []
    | '\\' :: rest => match rest with
      | [] => stop .endInString []
      | 'u' :: rest => do
        let (m, rest) ← hexFour rest
        if m < 0xDC00 || 0xDFFF < m then stop .loneSurrogate rest
        else .ok (Char.ofNat ((n - 0xD800) * 1024 + (m - 0xDC00) + 0x10000), rest)
      | _ :: _ => stopAhead .endOfHexEscape rest
    | _ :: _ => stopAhead .endOfHexEscape cs

/-- Reads one escape, from the character after the backslash. -/
def escape (skim : Bool) : List Char → Except Stop (Char × List Char)
  | [] => stop .endInString []
  | '"' :: cs => .ok ('"', cs)
  | '\\' :: cs => .ok ('\\', cs)
  | '/' :: cs => .ok ('/', cs)
  | 'b' :: cs => .ok ('\x08', cs)
  | 'f' :: cs => .ok ('\x0c', cs)
  | 'n' :: cs => .ok ('\n', cs)
  | 'r' :: cs => .ok ('\r', cs)
  | 't' :: cs => .ok ('\t', cs)
  | 'u' :: cs => unicodeEscape skim cs
  | cs => stopAhead .invalidEscape cs

/-- Reads a string, from after its opening quote. The fuel is the length of the
text; the accumulator holds the characters read, backwards. -/
def stringBody (skim : Bool) : Nat → List Char → List Char → Except Stop ((List Char) × List Char)
  | 0, _, cs => stop .endInString cs
  | _, _, [] => stop .endInString []
  | fuel + 1, acc, c :: cs =>
    if c = '"' then .ok (acc.reverse, cs)
    else if c = '\\' then do
      let (e, cs) ← escape skim cs
      stringBody skim fuel (e :: acc) cs
    else if c.toNat < 0x20 then stop .controlCharacter cs
    else stringBody skim fuel (c :: acc) cs

/-- Reads a string, from after its opening quote. -/
def string (skim : Bool) (cs : List Char) : Except Stop (String × List Char) := do
  let (chars, rest) ← stringBody skim (cs.length + 1) [] cs
  .ok (String.ofList chars, rest)

/-! ## Numbers -/

/-- A decimal as it is read: a significand of at most 64 bits and a power of ten. -/
structure Decimal where
  negative : Bool
  significand : Nat
  exponent : Int

/-- Divides by `10^308` until the exponent is in the range of powers of ten. -/
def scaleDown : Nat → Float → Int → Float
  | 0, f, _ => f
  | fuel + 1, f, e =>
    if -308 ≤ e then f / Float.ofScientific 1 false e.natAbs
    else if f == 0.0 then f
    else scaleDown fuel (f / Float.ofScientific 1 false 308) (e + 308)

/-- The double of a decimal; `none` when it is out of range. -/
def Decimal.toFloat? (d : Decimal) : Option Float :=
  let f := d.significand.toUInt64.toFloat
  let magnitude :=
    if 0 ≤ d.exponent then
      if d.exponent ≤ 308 then
        let scaled := f * Float.ofScientific 1 false d.exponent.toNat
        if scaled.isInf then none else some scaled
      else if f == 0.0 then some f else none
    else some (scaleDown 8 f d.exponent)
  magnitude.map fun m => if d.negative then -m else m

/-- Whether a character is a decimal digit. -/
def isDigit (c : Char) : Bool := '0' ≤ c && c ≤ '9'

/-- The value of a decimal digit. -/
def digit (c : Char) : Nat := c.toNat - '0'.toNat

/-- Reads digits into a significand, as long as it fits 64 bits. -/
def significand : Nat → List Char → Nat × List Char
  | n, [] => (n, [])
  | n, c :: cs =>
    if isDigit c && Word.fits 64 (n * 10 + digit c) then significand (n * 10 + digit c) cs
    else (n, c :: cs)

/-- Ends a number that is a double. -/
def double (d : Decimal) (left : List Char) : Except Stop (Number × List Char) :=
  match d.toFloat? with
  | some f => .ok (.float f, left)
  | none => stop .numberOutOfRange left

/-- Reads the digits of an exponent, whose absolute value stays below `2^31`; `none`
when it does not. -/
def exponentDigits : Nat → List Char → Option Nat × List Char
  | n, [] => (some n, [])
  | n, c :: cs =>
    if isDigit c then
      if Word.fits 31 (n * 10 + digit c) then exponentDigits (n * 10 + digit c) cs
      else (none, cs.dropWhile isDigit)
    else (some n, c :: cs)

/-- Reads an exponent, from after its letter. -/
def exponent (d : Decimal) (cs : List Char) : Except Stop (Number × List Char) :=
  let (positive, cs) := match cs with
    | '+' :: r => (true, r)
    | '-' :: r => (false, r)
    | r => (true, r)
  match cs with
  | [] => stop .endInValue []
  | c :: rest =>
    if isDigit c then
      match exponentDigits (digit c) rest with
      | (some e, left) =>
        double { d with exponent := if positive then d.exponent + e else d.exponent - e } left
      | (none, left) =>
        if d.significand != 0 && positive then
          -- the fault lies where the digits stopped fitting
          stop .numberOutOfRange left
        else .ok (.float (if d.negative then -0.0 else 0.0), left)
    else stop .invalidNumber rest

/-- Reads what may follow the digits of a decimal: an exponent. -/
def afterFraction (d : Decimal) : List Char → Except Stop (Number × List Char)
  | 'e' :: cs => exponent d cs
  | 'E' :: cs => exponent d cs
  | cs => double d cs

/-- Reads the digits after a point. -/
def fraction (d : Decimal) (cs : List Char) : Except Stop (Number × List Char) :=
  let (n, rest) := significand d.significand cs
  let taken := cs.length - rest.length
  if taken = 0 && !(rest.head?.any isDigit) then
    match rest with
    | [] => stopAhead .endInValue []
    | _ => stopAhead .invalidNumber rest
  else
    afterFraction { d with significand := n, exponent := d.exponent - taken } (rest.dropWhile isDigit)

/-- Reads what follows the integer digits of a number. -/
def afterInteger (negative : Bool) (n : Nat) (rest : List Char) : Except Stop (Number × List Char) :=
  match rest with
  | '.' :: cs => fraction ⟨negative, n, 0⟩ cs
  | 'e' :: cs => exponent ⟨negative, n, 0⟩ cs
  | 'E' :: cs => exponent ⟨negative, n, 0⟩ cs
  | cs =>
    if negative then
      -- minus zero and what 64 bits with a sign cannot hold are doubles
      if n = 0 || Word.count 63 < n then double ⟨true, n, 0⟩ cs else .ok (.int (-n), cs)
    else .ok (.int n, cs)

/-- Reads a number, from its first digit. -/
def number (negative : Bool) (cs : List Char) : Except Stop (Number × List Char) :=
  match cs with
  | [] => stop .endInValue []
  | '0' :: rest =>
    if rest.head?.any isDigit then stopAhead .invalidNumber rest else afterInteger negative 0 rest
  | c :: rest =>
    if isDigit c then
      let (n, rest) := significand (digit c) rest
      if rest.head?.any isDigit then
        -- the digits that do not fit only move the point
        let more := rest.takeWhile isDigit
        let d : Decimal := ⟨negative, n, more.length⟩
        match rest.dropWhile isDigit with
        | '.' :: cs => fraction d cs
        | cs => afterFraction d cs
      else afterInteger negative n rest
    else stop .invalidNumber rest

/-- Checks the text of a number whose value nobody needs. -/
def skimNumber (cs : List Char) : Except Stop (Unit × List Char) :=
  let exponentPart (cs : List Char) : Except Stop (Unit × List Char) :=
    let cs := match cs with
      | '+' :: r => r
      | '-' :: r => r
      | r => r
    match cs with
    | [] => stop .endInValue []
    | c :: rest => if isDigit c then .ok ((), rest.dropWhile isDigit) else stop .invalidNumber rest
  let tail (cs : List Char) : Except Stop (Unit × List Char) := match cs with
    | 'e' :: r => exponentPart r
    | 'E' :: r => exponentPart r
    | r => .ok ((), r)
  let afterDigits (cs : List Char) : Except Stop (Unit × List Char) := match cs with
    | '.' :: r => if r.head?.any isDigit then tail (r.dropWhile isDigit) else stopAhead .invalidNumber r
    | r => tail r
  match cs with
  | [] => stop .endInValue []
  | '0' :: rest => if rest.head?.any isDigit then stopAhead .invalidNumber rest else afterDigits rest
  | c :: rest => if isDigit c then afterDigits (rest.dropWhile isDigit) else stop .invalidNumber rest

/-! ## Closing

When a record or a sequence fails for a reason that has no place of its own, the
closing bracket is still looked for, and the fault is placed after it. -/

/-- What is left once a closing brace was looked for. -/
def pastObject (cs : List Char) : List Char :=
  match skipBlanks cs with
  | '}' :: rest => rest
  | rest => rest

/-- What is left once a closing bracket was looked for. -/
def pastList (cs : List Char) : List Char :=
  match skipBlanks cs with
  | ']' :: rest => rest
  | ',' :: rest => skipBlanks rest
  | rest => rest

/-- Closes a sequence that was read up to its last expected item. -/
def closeList {α : Type} (value : α) (cs : List Char) : Except Stop (α × List Char) :=
  match skipBlanks cs with
  | ']' :: rest => .ok (value, rest)
  | ',' :: rest => match skipBlanks rest with
    | ']' :: r => stopAhead .trailingComma (']' :: r)
    | r => stopAhead .trailingCharacters r
  | [] => stopAhead .endInList []
  | r => stopAhead .trailingCharacters r

/-! ## Values -/

/-- A value that has not the expected form: it is read as far as it has to be to name
it, and refused. -/
def refuse {α : Type} (expected : String) (cs : List Char) : Except Stop (α × List Char) :=
  match cs with
  | 'n' :: rest => do
    let (_, left) ← ident () ['u', 'l', 'l'] rest
    stop (.mismatch (.type .null expected)) left
  | 't' :: rest => do
    let (_, left) ← ident () ['r', 'u', 'e'] rest
    stop (.mismatch (.type (.bool true) expected)) left
  | 'f' :: rest => do
    let (_, left) ← ident () ['a', 'l', 's', 'e'] rest
    stop (.mismatch (.type (.bool false) expected)) left
  | '"' :: rest => do
    let (s, left) ← string false rest
    stop (.mismatch (.type (.str s) expected)) left
  | '[' :: _ => stop (.mismatch (.type .sequence expected)) cs
  | '{' :: _ => stop (.mismatch (.type .mapping expected)) cs
  | '-' :: rest => do
    let (n, left) ← number true rest
    stop (.mismatch (.type (Json.num n).found expected)) left
  | c :: _ =>
    if isDigit c then do
      let (n, left) ← number false cs
      stop (.mismatch (.type (Json.num n).found expected)) left
    else stopAhead .expectedValue cs
  | [] => stopAhead .expectedValue cs

/-- Looks for the next key of an object; `none` at the end of the object. The closing
brace is left in place. -/
def nextKey (skim first : Bool) (cs : List Char) : Except Stop ((Option String) × List Char) :=
  match skipBlanks cs with
  | [] => stopAhead .endInObject []
  | '}' :: rest => .ok (none, '}' :: rest)
  | ',' :: rest =>
    if first then stopAhead .keyNotString (',' :: rest)
    else match skipBlanks rest with
      | '"' :: r => do
        let (k, left) ← string skim r
        .ok (some k, left)
      | '}' :: r => stopAhead (if skim then .keyNotString else .trailingComma) ('}' :: r)
      | [] => stopAhead (if skim then .endInObject else .endInValue) []
      | r => stopAhead .keyNotString r
  | '"' :: rest =>
    if first then do
      let (k, left) ← string skim rest
      .ok (some k, left)
    else stopAhead .expectedObjectEnd ('"' :: rest)
  | r => stopAhead (if first then .keyNotString else .expectedObjectEnd) r

/-- Looks for the next item of a sequence; `false` at its end, with the closing bracket
left in place. -/
def nextItem (skim first : Bool) (cs : List Char) : Except Stop (Bool × List Char) :=
  match skipBlanks cs with
  | [] => stopAhead .endInList []
  | ']' :: rest => .ok (false, ']' :: rest)
  | ',' :: rest =>
    if first then .ok (true, ',' :: rest)
    else match skipBlanks rest with
      | ']' :: r => stopAhead (if skim then .expectedValue else .trailingComma) (']' :: r)
      | [] => stopAhead .endInValue []
      | r => .ok (true, r)
  | r => if first then .ok (true, r) else stopAhead .expectedListEnd r

/-- Reads the colon after a key. -/
def colon (cs : List Char) : Except Stop (Unit × List Char) :=
  match skipBlanks cs with
  | ':' :: rest => .ok ((), rest)
  | [] => stopAhead .endInObject []
  | r => stopAhead .expectedColon r

/-- The field of a record under a key. -/
def fieldOf (key : String) : List (String × Presence × Shape) → Option (Presence × Shape) :=
  Json.lookup key

/-- The first required field that was not found. -/
def absent : List (String × Presence × Shape) → List (String × Json) → Option String
  | [], _ => none
  | (key, presence, _) :: rest, found =>
    if presence = .required && (Json.lookup key found).isNone then some key else absent rest found

/-- The fields that were found, in declared order. -/
def inOrder : List (String × Presence × Shape) → List (String × Json) → List (String × Json)
  | [], _ => []
  | (key, _, _) :: rest, found =>
    match Json.lookup key found with
    | some v => (key, v) :: inOrder rest found
    | none => inOrder rest found

mutual

/-- Reads a value of the given shape. The fuel is the length of the text, of which every
call takes some; `depth` is how many more levels may be opened. -/
def value (skim : Bool) : Nat → Nat → Shape → List Char → Except Stop (Json × List Char)
  | 0, _, _, cs => stop .endInValue cs
  | fuel + 1, depth, shape, text =>
    let cs := skipBlanks text
    match shape, cs with
    | _, [] => stopAhead .endInValue []
    | .any, c :: rest =>
      if c = 'n' then ident .null ['u', 'l', 'l'] rest
      else if c = 't' then ident (.bool true) ['r', 'u', 'e'] rest
      else if c = 'f' then ident (.bool false) ['a', 'l', 's', 'e'] rest
      else if c = '"' then do
        let (s, left) ← string skim rest
        .ok (.str s, left)
      else if c = '-' || isDigit c then
        let digits := if c = '-' then rest else cs
        if skim then do
          let ((), left) ← skimNumber digits
          .ok (.null, left)
        else do
          let (n, left) ← number (c == '-') digits
          .ok (.num n, left)
      else if c = '[' then
        if depth ≤ 1 && !skim then stopAhead .tooDeep cs
        else do
          let (items, left) ← items skim fuel (depth - 1) .any true rest
          .ok (.arr items, left)
      else if c = '{' then
        if depth ≤ 1 && !skim then stopAhead .tooDeep cs
        else do
          let (members, left) ← members skim fuel (depth - 1) .any true [] rest
          .ok (.obj members, left)
      else stopAhead .expectedValue cs
    | .string, c :: rest =>
      if c = '"' then do
        let (s, left) ← string false rest
        .ok (.str s, left)
      else refuse "a string" cs
    | .refined accepts complaint, c :: rest =>
      if c = '"' then do
        let (s, left) ← string false rest
        if accepts s then .ok (.str s, left)
        -- the complaint is placed by the record around the value
        else .error ⟨.mismatch (.refused (complaint s)), pastObject left, 0⟩
      else refuse "a string" cs
    | .boolean, c :: rest =>
      if c = 't' then ident (.bool true) ['r', 'u', 'e'] rest
      else if c = 'f' then ident (.bool false) ['a', 'l', 's', 'e'] rest
      else refuse "a boolean" cs
    | .natural name, c :: rest =>
      if c = '-' || isDigit c then do
        let (n, left) ← number (c == '-') (if c = '-' then rest else cs)
        match n with
        | .int i =>
          if i < 0 then stop (.mismatch (.value (.int i) name)) left else .ok (.num n, left)
        | .float x => stop (.mismatch (.type (.float x) name)) left
      else refuse name cs
    | .nullable inner, c :: rest =>
      if c = 'n' then ident .null ['u', 'l', 'l'] rest else value skim fuel depth inner cs
    | .sequence item, c :: rest =>
      if c = '[' then
        if depth ≤ 1 then stopAhead .tooDeep cs
        else do
          let (items, left) ← items skim fuel (depth - 1) item true rest
          .ok (.arr items, left)
      else refuse "a sequence" cs
    | .mapping entry, c :: rest =>
      if c = '{' then
        if depth ≤ 1 then stopAhead .tooDeep cs
        else do
          let (members, left) ← members skim fuel (depth - 1) entry true [] rest
          .ok (.obj members, left)
      else refuse "a map" cs
    | .variant names, c :: rest =>
      let named (s : String) (left : List Char) : Except Stop (String × List Char) :=
        if s ∈ names then .ok (s, left) else stop (.mismatch (.unknownVariant s names)) left
      if c = '"' then do
        let (s, left) ← string false rest
        let (s, left) ← named s left
        .ok (.str s, left)
      else if c = '{' then
        if depth ≤ 1 then stopAhead .tooDeep cs
        else match skipBlanks rest with
          | '"' :: rest => do
            let (s, left) ← string false rest
            let (s, left) ← named s left
            let ((), left) ← colon left
            let (_, left) ← match skipBlanks left with
              | 'n' :: rest => ident () ['u', 'l', 'l'] rest
              | [] => stopAhead .endInValue []
              | other => refuse "unit" other
            match skipBlanks left with
            | '}' :: left => .ok (.str s, left)
            | [] => stop .endInObject []
            | left => stop .expectedValue left
          | [] => stopAhead .endInValue []
          | other => refuse "variant identifier" other
      else stopAhead .expectedValue cs
    | .record name fields, c :: rest =>
      if c = '{' then
        if depth ≤ 1 then stopAhead .tooDeep cs
        else do
          let (found, left) ← fieldMembers fuel (depth - 1) fields true [] rest
          match absent fields found with
          | some key => stop (.mismatch (.missingField key)) left
          | none => .ok (.obj (inOrder fields found), left)
      else if c = '[' then
        if depth ≤ 1 then stopAhead .tooDeep cs
        else do
          let (found, left) ← elements name fields.length 0 fuel (depth - 1) fields true rest
          closeList (.obj found) left
      else refuse ("struct " ++ name) cs
termination_by structural fuel => fuel

/-- Reads the items of a sequence and its closing bracket. -/
def items (skim : Bool) : Nat → Nat → Shape → Bool → List Char → Except Stop ((List Json) × List Char)
  | 0, _, _, _, cs => stop .endInList cs
  | fuel + 1, depth, shape, first, cs => do
    let (more, cs) ← nextItem skim first cs
    if more then do
      let (v, cs) ← value skim fuel depth shape cs
      let (rest, cs) ← items skim fuel depth shape false cs
      .ok (v :: rest, cs)
    else .ok ([], cs.drop 1)
termination_by structural fuel => fuel

/-- Reads the members of an object and its closing brace, on top of those read before. -/
def members (skim : Bool) : Nat → Nat → Shape → Bool → List (String × Json) → List Char →
    Except Stop ((List (String × Json)) × List Char)
  | 0, _, _, _, _, cs => stop .endInObject cs
  | fuel + 1, depth, shape, first, done, cs => do
    let (key, cs) ← nextKey skim first cs
    match key with
    | none => .ok (done, cs.drop 1)
    | some key => do
      let ((), cs) ← colon cs
      let (v, cs) ← value skim fuel depth shape cs
      members skim fuel depth shape false (if skim then [] else Json.insert key v done) cs
termination_by structural fuel => fuel

/-- Reads the members of a record and its closing brace. -/
def fieldMembers : Nat → Nat → List (String × Presence × Shape) → Bool → List (String × Json) →
    List Char → Except Stop ((List (String × Json)) × List Char)
  | 0, _, _, _, _, cs => stop .endInObject cs
  | fuel + 1, depth, fields, first, done, cs => do
    let (key, cs) ← nextKey false first cs
    match key with
    | none => .ok (done, cs.drop 1)
    | some key =>
      match fieldOf key fields with
      | none => do
        let ((), cs) ← colon cs
        let (_, cs) ← value true fuel depth .any cs
        fieldMembers fuel depth fields false done cs
      | some (_, shape) =>
        if (Json.lookup key done).isSome then
          stop (.mismatch (.duplicateField key)) (pastObject cs)
        else do
          let ((), cs) ← colon cs
          let (v, cs) ← value false fuel depth shape cs
          fieldMembers fuel depth fields false ((key, v) :: done) cs
termination_by structural fuel => fuel

/-- Reads the items of a record that is written as a sequence, without the closing
bracket. -/
def elements (name : String) (count i : Nat) : Nat → Nat → List (String × Presence × Shape) →
    Bool → List Char → Except Stop ((List (String × Json)) × List Char)
  | 0, _, _, _, cs => stop .endInList cs
  | _, _, [], _, cs => .ok ([], cs)
  | fuel + 1, depth, (key, presence, shape) :: rest, first, cs => do
    let (more, cs) ← nextItem false first cs
    if more then do
      let (v, cs) ← value false fuel depth shape cs
      let (tail, cs) ← elements name count (i + 1) fuel depth rest false cs
      .ok ((key, v) :: tail, cs)
    else match presence with
      | .required =>
        stop (.mismatch (.length i (recordElements name count))) (pastList cs)
      | .optional => elements name count (i + 1) fuel depth rest first cs
termination_by structural fuel => fuel

end

/-! ## Whole texts -/

/-- How many levels of arrays and objects a text may open, and one more. -/
def maxDepth : Nat := 128

/-- Reads a whole text of the given shape. -/
def document (shape : Shape) (text : List Char) : Except Stop Json := do
  let (v, left) ← value false (2 * text.length + 8) maxDepth shape text
  match skipBlanks left with
  | [] => .ok v
  | rest => .error ⟨.trailingCharacters, rest, 1⟩

/-- Reads a whole text of the given shape; the error is the message with its place. -/
def parseAs (shape : Shape) (text : String) : Except String Json :=
  match document shape text.toList with
  | .ok v => .ok v
  | .error s => .error (s.message text.toList)

/-- Reads a JSON text; the error is the message with its place. -/
def parse (text : String) : Except String Json := parseAs .any text

end PatternAudit.Json.Read
