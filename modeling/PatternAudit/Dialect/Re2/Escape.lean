/-
Escapes, and the other single tokens of a pattern.

Every reader takes the cursor at the first character of what it reads and gives
back what was read and the cursor behind it. `start` is the place of the backslash.
-/
import PatternAudit.Text.Hex
import PatternAudit.Text.Lower
import PatternAudit.Dialect.Re2.Cursor

set_option autoImplicit false

namespace PatternAudit.Re2

/-! ## Which characters may be escaped -/

/-- The characters that the syntax gives a meaning to. -/
def isMeta (c : Char) : Bool := c ∈ "\\.+*?()|[]\x7b\x7d^$#&-~".toList

/-- The characters that may follow a backslash and then stand for themselves: the
signs of ASCII other than the two that mark the edges of words. -/
def isEscapable (c : Char) : Bool :=
  isMeta c || (c.toNat ≤ 0x7F && !Text.isLetterAscii c && !Text.isDigit c && c != '<' && c != '>')

/-! ## Code points -/

/-- The literal of a code point, which must be a scalar value. -/
def codePoint (start place : Nat) (digits : List Char) (isByte : Bool) (c : Cursor) :
    Reading (Literal × Cursor) :=
  let n := Text.hexNumber digits
  if n.isValidChar then .ok (⟨start, Char.ofNat n, isByte⟩, c) else refuse .escapeHexInvalid place

/-- Exactly `n` more hexadecimal digits; the accumulator holds the ones before,
backwards. -/
def hexDigits : Nat → List Char → Cursor → Reading (List Char × Cursor)
  | 0, ds, c => .ok (ds.reverse, c)
  | n + 1, ds, c =>
    match c.rest with
    | [] => refuse .escapeUnexpectedEnd c.index
    | d :: _ =>
      if Text.isHex d then hexDigits n (d :: ds) c.next else refuse .escapeHexInvalidDigit c.index

/-- Hexadecimal digits up to a closing brace, which is left. `brace` is the place of
the opening one. The fuel bounds the number of characters. -/
def hexDigitsInBraces (brace : Nat) : Nat → List Char → Cursor → Reading (List Char × Cursor)
  | 0, _, _ => refuse .escapeUnexpectedEnd brace
  | fuel + 1, ds, c =>
    match c.rest with
    | [] => refuse .escapeUnexpectedEnd brace
    | d :: _ =>
      if d = '\x7d' then .ok (ds.reverse, c)
      else if Text.isHex d then hexDigitsInBraces brace fuel (d :: ds) c.next
      else refuse .escapeHexInvalidDigit c.index

/-- The escapes `\x`, `\u` and `\U`, from their letter, which is followed by `width`
digits or by digits in braces. -/
def hexEscape (start width : Nat) (c : Cursor) : Reading (Literal × Cursor) := do
  let isX := c.starts 'x'
  let c := c.next
  if c.atEnd then refuse .escapeUnexpectedEnd c.index
  else if c.starts '\x7b' then
    let (ds, after) ← hexDigitsInBraces c.index c.rest.length [] c.next
    if ds.isEmpty then refuse .escapeHexEmpty c.index
    else codePoint start (c.index + 1) ds false after.next
  else
    let (ds, after) ← hexDigits width [] c
    codePoint start c.index ds isX after

/-! ## Properties -/

/-- The text up to a closing brace, which is left. The fuel bounds the number of
characters. -/
def bracedName : Nat → List Char → Cursor → Reading (List Char × Cursor)
  | 0, _, c => refuse .escapeUnexpectedEnd c.index
  | fuel + 1, name, c =>
    match c.rest with
    | [] => refuse .escapeUnexpectedEnd c.index
    | x :: _ => if x = '\x7d' then .ok (name.reverse, c) else bracedName fuel (x :: name) c.next

/-- Cuts a text at the first place where a separator stands. -/
def cutAt? (sep : List Char) : List Char → Option (List Char × List Char)
  | [] => none
  | c :: cs =>
    if sep.isPrefixOf (c :: cs) then some ([], (c :: cs).drop sep.length)
    else (cutAt? sep cs).map fun (a, b) => (c :: a, b)

/-- What the text in the braces of a property asks for, and whether the sign between
name and value negates it. -/
def propertyName (text : List Char) : PropertyName × Bool :=
  let withValue (a b : List Char) : PropertyName := .withValue (String.ofList a) (String.ofList b)
  match cutAt? ['!', '='] text with
  | some (a, b) => (withValue a b, true)
  | none =>
    match (cutAt? [':'] text).or (cutAt? ['='] text) with
    | some (a, b) => (withValue a b, false)
    | none => (.single (String.ofList text), false)

/-- The escapes `\p` and `\P`, from their letter. -/
def propertyEscape (start : Nat) (c : Cursor) : Reading (Property × Cursor) := do
  let negated := c.starts 'P'
  let c := c.next
  match c.rest with
  | [] => refuse .escapeUnexpectedEnd c.index
  | '\\' :: _ => refuse .propertyInvalid c.index
  | '\x7b' :: _ =>
    let (text, after) ← bracedName c.rest.length [] c.next
    let (name, unequal) := propertyName text
    .ok (⟨start, name, negated != unequal⟩, after.bump)
  | x :: _ => .ok (⟨start, .single (String.singleton x), negated⟩, c.next)

/-! ## Edges of words -/

/-- The names of the special edges of words. -/
def boundaryNames : List String := ["start", "end", "start-half", "end-half"]

/-- A letter or a dash, of which those names are made. -/
def isBoundaryChar (c : Char) : Bool := Text.isLetterAscii c || c = '-'

/-- Letters and dashes, as far as they go. The fuel bounds the number of characters. -/
def boundaryName : Nat → List Char → Cursor → List Char × Cursor
  | 0, name, c => (name.reverse, c)
  | fuel + 1, name, c =>
    match c.rest with
    | x :: _ => if isBoundaryChar x then boundaryName fuel (x :: name) c.next else (name.reverse, c)
    | [] => (name.reverse, c)

/-- What may follow `\b`: a name in braces. Braces that do not begin with a letter or a
dash are a count, and are left. `c` stands at the opening brace. -/
def skipBoundaryName (start : Nat) (c : Cursor) : Reading Cursor :=
  let inner := c.next
  match inner.rest with
  | [] => refuse .boundaryOrCountUnexpectedEnd start
  | x :: _ =>
    if !isBoundaryChar x then .ok c
    else
      let (name, after) := boundaryName inner.rest.length [] inner
      if !after.starts '\x7d' then refuse .boundaryUnclosed c.index
      else if String.ofList name ∈ boundaryNames then .ok after.bump
      else refuse .boundaryUnrecognized inner.index

/-! ## Escapes -/

/-- The control characters that have a letter. -/
def controlLetter? : Char → Option Char
  | 'a' => some '\x07'
  | 'f' => some '\x0C'
  | 't' => some '\t'
  | 'n' => some '\n'
  | 'r' => some '\r'
  | 'v' => some '\x0B'
  | _ => none

/-- The sets that have a letter. -/
def perlKind? : Char → Option (PerlKind × Bool)
  | 'd' => some (.digit, false)
  | 'D' => some (.digit, true)
  | 's' => some (.space, false)
  | 'S' => some (.space, true)
  | 'w' => some (.word, false)
  | 'W' => some (.word, true)
  | _ => none

/-- An escape, from its backslash. -/
def escape (c : Cursor) : Reading (Primitive × Cursor) :=
  let start := c.index
  let c := c.bump
  match c.rest with
  | [] => refuse .escapeUnexpectedEnd start
  | x :: _ =>
    if Text.isDigit x then refuse .backreference start
    else if x = 'x' then (hexEscape start 2 c).map fun (l, c) => (.literal l, c)
    else if x = 'u' then (hexEscape start 4 c).map fun (l, c) => (.literal l, c)
    else if x = 'U' then (hexEscape start 8 c).map fun (l, c) => (.literal l, c)
    else if x = 'p' || x = 'P' then (propertyEscape start c).map fun (p, c) => (.property p, c)
    else match perlKind? x with
    | some (kind, negated) => .ok (.perl ⟨start, kind, negated⟩, c.bump)
    | none =>
      let after := c.bump
      if isEscapable x then .ok (.literal ⟨start, x, false⟩, after)
      else match controlLetter? x with
      | some y => .ok (.literal ⟨start, y, false⟩, after)
      | none =>
        if x = 'b' && after.starts '\x7b' then
          (skipBoundaryName start after).map fun c => (.assertion start, c)
        else if x ∈ ['A', 'z', 'b', 'B', '<', '>'] then .ok (.assertion start, after)
        else refuse .escapeUnrecognized start

/-- A token outside a class, which is there. -/
def primitive (c : Cursor) : Reading (Primitive × Cursor) :=
  match c.rest with
  | '\\' :: _ => escape c
  | '.' :: _ => .ok (.dot c.index, c.bump)
  | '^' :: _ => .ok (.assertion c.index, c.bump)
  | '$' :: _ => .ok (.assertion c.index, c.bump)
  | x :: _ => .ok (.literal ⟨c.index, x, false⟩, c.bump)
  | [] => refuse .escapeUnexpectedEnd c.index

end PatternAudit.Re2
