/-
Lower case, as far as names need it.

Every name that the audit knows is made of ASCII letters, so what matters of
lower-casing is which characters become such letters: the 26 capitals, and the
Kelvin sign, which becomes `k`. All others may stay as they are, because a name
that holds one of them is unknown either way.
-/

set_option autoImplicit false

namespace PatternAudit.Text

/-- Whether a character is a capital letter of ASCII. -/
def isUpper (c : Char) : Bool := 'A' ≤ c && c ≤ 'Z'

/-- Whether a character is a small letter of ASCII. -/
def isLower (c : Char) : Bool := 'a' ≤ c && c ≤ 'z'

/-- Whether a character is a digit of ASCII. -/
def isDigit (c : Char) : Bool := '0' ≤ c && c ≤ '9'

/-- Whether a character is a letter of ASCII. -/
def isLetterAscii (c : Char) : Bool := isUpper c || isLower c

/-- The small letter of an ASCII capital; every other character stays. -/
def lowerAscii (c : Char) : Char := if isUpper c then Char.ofNat (c.toNat + 32) else c

/-- A character in lower case. -/
def lowerChar (c : Char) : Char := if c = '\u212A' then 'k' else lowerAscii c

/-- A name in lower case. -/
def lower (s : String) : String := String.ofList (s.toList.map lowerChar)

end PatternAudit.Text
