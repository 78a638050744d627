/-
The ids of kept results.

An id is also the name of a file, so only short ASCII words are ids. A new id is made of
the clock and a counter: the counter is spread over 64 bits, mixed into the clock, and
the upper half is written in hexadecimal.
-/
import PatternAudit.Error
import PatternAudit.Text.Lower
import PatternAudit.Text.Quoted

set_option autoImplicit false

namespace PatternAudit.Cache

/-- The longest id. -/
def maxIdLength : Nat := 64

/-- Whether a character may stand in an id. -/
def isIdChar (c : Char) : Bool := Text.isLetterAscii c || Text.isDigit c

/-- Whether a text is an id. -/
def isId (s : String) : Bool :=
  !s.isEmpty && s.utf8ByteSize ≤ maxIdLength && s.toList.all isIdChar

/-- The complaint about a text that is no id. -/
def invalidId (s : String) : Error := .cache ("invalid result id " ++ Text.quoted s)

/-- A number of 32 bits as eight lower-case hexadecimal digits. -/
def eightDigits (n : UInt32) : String :=
  let digits := Nat.toDigits 16 n.toNat
  String.ofList (List.replicate (8 - digits.length) '0' ++ digits)

/-- A new id, from the nanoseconds on the clock and the number of ids made before. -/
def mintId (now made : Nat) : String :=
  let spread : UInt64 := made.toUInt64 * 0x9E3779B97F4A7C15
  let mixed : UInt64 := (now.toUInt64 ^^^ spread) * 0xBF58476D1CE4E5B9
  eightDigits (mixed >>> 32).toUInt32

end PatternAudit.Cache
