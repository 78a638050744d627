/-
The small parts of JavaScript's pattern syntax: escapes, group names and counted
quantifiers.

Each reader is a function on what is left of the pattern and gives back the rest.
Without the flag `u` an escape never fails once a character follows the
backslash: what does not read as one of the forms stands for itself.
-/
import PatternAudit.Text.Category
import PatternAudit.Text.Hex

set_option autoImplicit false

namespace PatternAudit.Ecma

/-! ## Escapes -/

/-- Exactly `n` hexadecimal digits, and the rest. -/
def hexDigits? (n : Nat) (cs : List Char) : Option (Nat × List Char) :=
  let ds := cs.take n
  if ds.length = n && ds.all Text.isHex then some (Text.hexNumber ds, cs.drop n) else none

/-- Whether a number is the first half of a surrogate pair. -/
def isHighSurrogate (n : Nat) : Bool := 0xD800 ≤ n && n ≤ 0xDBFF

/-- Whether a number is the second half of a surrogate pair. -/
def isLowSurrogate (n : Nat) : Bool := 0xDC00 ≤ n && n ≤ 0xDFFF

/-- The code point after `\u`: any number of digits in braces, or four digits; two
escapes that are the halves of a surrogate pair are one code point. -/
def unicodeEscape? : List Char → Option (Nat × List Char)
  | '\x7b' :: cs =>
    let ds := cs.takeWhile (· != '\x7d')
    let n := Text.hexNumber ds
    match cs.drop ds.length with
    | _ :: rest => if !ds.isEmpty && ds.all Text.isHex && n ≤ 0x10FFFF then some (n, rest) else none
    | [] => none
  | cs =>
    match hexDigits? 4 cs with
    | none => none
    | some (high, rest) =>
      match rest with
      | '\\' :: 'u' :: more =>
        match hexDigits? 4 more with
        | some (low, rest') =>
          if isHighSurrogate high && isLowSurrogate low then
            some ((high - 0xD800) * 0x400 + (low - 0xDC00) + 0x10000, rest')
          else some (high, rest)
        | none => some (high, rest)
      | _ => some (high, rest)

/-- Whether a character is an octal digit. -/
def isOctal (c : Char) : Bool := '0' ≤ c && c ≤ '7'

/-- The number of digits that an octal escape takes: three from `0` to `3`, two from
`4` to `7`. -/
def octalWidth (c : Char) : Nat := if c ≤ '3' then 3 else 2

/-- The code point that an escape stands for: `c` is the character after the
backslash, `cs` what follows it. -/
def escaped (c : Char) (cs : List Char) : Nat × List Char :=
  match c with
  | 'f' => (0x0C, cs)
  | 'n' => (0x0A, cs)
  | 'r' => (0x0D, cs)
  | 't' => (0x09, cs)
  | 'v' => (0x0B, cs)
  | 'x' => (hexDigits? 2 cs).getD ('x'.toNat, cs)
  | 'u' => (unicodeEscape? cs).getD ('u'.toNat, cs)
  | 'c' =>
    match cs with
    | d :: rest => if Text.isLetterAscii d then (d.toNat % 32, rest) else ('\\'.toNat, c :: cs)
    | [] => ('\\'.toNat, c :: cs)
  | _ =>
    if isOctal c then
      let ds := ((c :: cs).take (octalWidth c)).takeWhile isOctal
      (ds.foldl (fun n d => n * 8 + (d.toNat - '0'.toNat)) 0, (c :: cs).drop ds.length)
    else (c.toNat, cs)

/-! ## Group names -/

/-- A character of a name, which may be written as a Unicode escape; with it, whether
it was. -/
def nameChar? : List Char → Option (Char × Bool × List Char)
  | '\\' :: 'u' :: cs =>
    match unicodeEscape? cs with
    | some (n, rest) => if n.isValidChar then some (Char.ofNat n, true, rest) else none
    | none => none
  | c :: cs => some (c, false, cs)
  | [] => none

/-- Whether a name may begin with the character. -/
def beginsName (c : Char) : Bool :=
  c = '$' || c = '_' || Text.isLetterAscii c
    || (0x7F < c.toNat && Text.identifierStart.contains c.toNat)

/-- Whether a name may go on with the character. -/
def continuesName (c : Char) : Bool :=
  c = '$' || c = '_' || Text.isLetterAscii c || Text.isDigit c
    || (0x7F < c.toNat && Text.identifierContinue.contains c.toNat)

/-- The rest of a name up to its `>`; `name` holds what was read, backwards. The fuel
bounds the number of characters. -/
def nameTail? : Nat → List Char → List Char → Option (String × List Char)
  | 0, _, _ => none
  | fuel + 1, name, cs =>
    match nameChar? cs with
    | none => none
    | some (c, _, rest) =>
      if c = '>' then some (String.ofList name.reverse, rest)
      else if continuesName c then nameTail? fuel (c :: name) rest
      else none

/-- A group name in angle brackets, and the rest. -/
def groupName? : List Char → Option (String × List Char)
  | '<' :: cs =>
    match nameChar? cs with
    | some (c, _, rest) => if beginsName c then nameTail? rest.length [c] rest else none
    | none => none
  | _ => none

/-! ## Counted quantifiers -/

/-- The bounds of a counted quantifier: none above means no bound. -/
structure Count where
  min : Nat
  max : Option Nat

/-- A count of digits and what follows; none without a digit. -/
def digits? (cs : List Char) : Option (Nat × List Char) :=
  let ds := cs.takeWhile Text.isDigit
  if ds.isEmpty then none else some (Text.decimalNumber ds, cs.drop ds.length)

/-- A counted quantifier, after its opening brace. -/
def count? (cs : List Char) : Option (Count × List Char) :=
  match digits? cs with
  | none => none
  | some (min, rest) =>
    match rest with
    | '\x7d' :: rest => some (⟨min, some min⟩, rest)
    | ',' :: rest =>
      match digits? rest with
      | none =>
        match rest with
        | '\x7d' :: rest => some (⟨min, none⟩, rest)
        | _ => none
      | some (max, '\x7d' :: rest) => some (⟨min, some max⟩, rest)
      | some _ => none
    | _ => none

end PatternAudit.Ecma
