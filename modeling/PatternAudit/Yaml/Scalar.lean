/-
What a plain scalar stands for.

The text of a plain scalar decides its kind: nothing, `~` and `null` are null,
`true` and `false` are booleans, then come integers in four bases and decimals
with a fraction or an exponent; everything else is a string. A number with a
zero in front of further digits is a string as well.
-/
import PatternAudit.Decimal.Nearest
import PatternAudit.Json.Basic
import PatternAudit.Word

set_option autoImplicit false

namespace PatternAudit.Yaml

/-- What a scalar stands for. -/
inductive Scalar where
  | null
  | bool (value : Bool)
  | num (value : Number)
  /-- an integer that 64 bits cannot hold, and whether it has a sign to keep -/
  | wide (value : Int) (signed : Bool)
  | str (text : String)

namespace Scalar

/-- Reads null. -/
def isNull (s : String) : Bool := s == "null" || s == "Null" || s == "NULL" || s == "~"

/-- Reads a boolean. -/
def bool? (s : String) : Option Bool :=
  if s == "true" || s == "True" || s == "TRUE" then some true
  else if s == "false" || s == "False" || s == "FALSE" then some false
  else none

/-! ## Integers -/

/-- The value of a digit, up to base 16. -/
def digit? (base : Nat) (c : Char) : Option Nat :=
  let d :=
    if '0' ≤ c && c ≤ '9' then c.toNat - '0'.toNat
    else if 'a' ≤ c && c ≤ 'f' then c.toNat - 'a'.toNat + 10
    else if 'A' ≤ c && c ≤ 'F' then c.toNat - 'A'.toNat + 10
    else 16
  if d < base then some d else none

/-- Reads digits of a base; there has to be one. -/
def natural? (base : Nat) (cs : List Char) : Option Nat :=
  if cs.isEmpty then none
  else cs.foldlM (fun n c => (digit? base c).map (n * base + ·)) 0

/-- Whether digits follow a leading zero, the sign apart. -/
def hasLeadingZero (cs : List Char) : Bool :=
  let digits := match cs with
    | '-' :: r => r
    | '+' :: r => r
    | r => r
  match digits with
  | '0' :: c :: rest => (c :: rest).all Decimal.isDigit
  | _ => false

/-- The magnitude of an integer written after its sign. -/
def magnitude? (cs : List Char) : Option Nat :=
  match cs with
  | '0' :: 'x' :: rest => natural? 16 rest
  | '0' :: 'o' :: rest => natural? 8 rest
  | '0' :: 'b' :: rest => natural? 2 rest
  | digits => if hasLeadingZero digits then none else natural? 10 digits

/-- Reads an integer: in 64 bits without a sign if it is not negative, with one if it
is, and in twice as many bits if those do not hold it. -/
def int? (cs : List Char) : Option Scalar :=
  match cs with
  | '-' :: rest => (magnitude? rest).bind fun n =>
    if n ≤ Word.count 63 then some (num (.int (-n)))
    else if n ≤ Word.count 127 then some (wide (-n) true)
    else none
  | _ =>
    let digits := match cs with
      | '+' :: rest => rest
      | rest => rest
    (magnitude? digits).bind fun n =>
      if Word.fits 64 n then some (num (.int n))
      else if Word.fits 128 n then some (wide n false)
      else none

/-! ## Decimals -/

/-- Reads a decimal, an infinity or the number that is none. A decimal past the largest
double is no number. -/
def float? (s : String) : Option Float :=
  let cs := s.toList
  let body := match cs with
    | '+' :: rest => String.ofList rest
    | _ => s
  if body == ".inf" || body == ".Inf" || body == ".INF" then some (1.0 / 0.0)
  else if s == "-.inf" || s == "-.Inf" || s == "-.INF" then some (-1.0 / 0.0)
  else if s == ".nan" || s == ".NaN" || s == ".NAN" then some (0.0 / 0.0)
  else match cs with
    | '+' :: '+' :: _ => none
    | '+' :: '-' :: _ => none
    | _ => (Decimal.ofChars? cs).bind fun x => if x.isFinite then some x else none

/-! ## Kinds -/

/-- What the text of a plain scalar stands for. -/
def ofPlain (s : String) : Scalar :=
  if s.isEmpty || isNull s then null
  else match bool? s with
    | some b => bool b
    | none => match int? s.toList with
      | some n => n
      | none =>
        if hasLeadingZero s.toList then str s
        else match float? s with
          | some x => num (.float x)
          | none => str s

end Scalar

end PatternAudit.Yaml
