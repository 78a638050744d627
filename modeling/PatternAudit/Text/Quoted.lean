/-
Quoting text in a message.

Messages that repeat what the user wrote put it between double quotes, with a
backslash before quotes and backslashes and an escape for every character that
would not show: `\0`, `\t`, `\n`, `\r`, or the code point in braces. The quoted
text is one line of printable characters, whatever was quoted.
-/
import PatternAudit.Text.Printable

set_option autoImplicit false

namespace PatternAudit.Text

/-- One character between double quotes. -/
def quoteChar (c : Char) : List Char :=
  if c = '\x00' then ['\\', '0']
  else if c = '\t' then ['\\', 't']
  else if c = '\r' then ['\\', 'r']
  else if c = '\n' then ['\\', 'n']
  else if c = '"' || c = '\\' then ['\\', c]
  else if isPrintable c then [c]
  else '\\' :: 'u' :: '\x7b' :: Nat.toDigits 16 c.toNat ++ ['\x7d']

/-- A text between double quotes. -/
def quoted (s : String) : String :=
  String.ofList ('"' :: s.toList.flatMap quoteChar ++ ['"'])

end PatternAudit.Text
