/-
Writing trees as JSON text, on one line or indented by two spaces.

A string is written with the two-character escapes where the format has them,
`\u00XX` for the other controls, and every other character as it is; so the
text of a string holds no raw control and no unescaped quote.
-/
import PatternAudit.Json.Basic
import PatternAudit.Decimal.Shortest

set_option autoImplicit false

namespace PatternAudit.Json.Write

/-- A digit of `\u00XX`. -/
def hexDigit (n : Nat) : Char :=
  if n < 10 then Char.ofNat ('0'.toNat + n) else Char.ofNat ('a'.toNat + (n - 10))

/-- One character of a JSON string. -/
def escapeChar (c : Char) : List Char :=
  if c = '"' then ['\\', '"']
  else if c = '\\' then ['\\', '\\']
  else if c = '\n' then ['\\', 'n']
  else if c = '\r' then ['\\', 'r']
  else if c = '\t' then ['\\', 't']
  else if c = '\x08' then ['\\', 'b']
  else if c = '\x0c' then ['\\', 'f']
  else if c.toNat < 0x20 then
    ['\\', 'u', '0', '0', hexDigit (c.toNat / 16), hexDigit (c.toNat % 16)]
  else [c]

/-- A text as a JSON string. -/
def string (s : String) : String :=
  String.ofList ('"' :: s.toList.flatMap escapeChar ++ ['"'])

/-- The text of a number. What is not finite has no JSON text and becomes null. -/
def number : Number → String
  | .int n => toString n
  | .float x => if x.isNaN || x.isInf then "null" else Decimal.text x

mutual

/-- A tree on one line. -/
def compact : Json → String
  | .null => "null"
  | .bool b => if b then "true" else "false"
  | .num n => number n
  | .str s => string s
  | .arr items => "[" ++ ",".intercalate (compactItems items) ++ "]"
  | .obj members => "\x7b" ++ ",".intercalate (compactMembers members) ++ "\x7d"

def compactItems : List Json → List String
  | [] => []
  | v :: rest => compact v :: compactItems rest

def compactMembers : List (String × Json) → List String
  | [] => []
  | (k, v) :: rest => (string k ++ ":" ++ compact v) :: compactMembers rest

end

/-- The start of a line at a depth. -/
def indent (depth : Nat) : String := "\n" ++ String.ofList (List.replicate (2 * depth) ' ')

mutual

/-- A tree over several lines; `depth` is how far its own line is indented. -/
def pretty (depth : Nat) : Json → String
  | .null => "null"
  | .bool b => if b then "true" else "false"
  | .num n => number n
  | .str s => string s
  | .arr [] => "[]"
  | .arr (v :: rest) =>
    "[" ++ ",".intercalate (prettyItems (depth + 1) (v :: rest)) ++ indent depth ++ "]"
  | .obj [] => "\x7b\x7d"
  | .obj (m :: rest) =>
    "\x7b" ++ ",".intercalate (prettyMembers (depth + 1) (m :: rest)) ++ indent depth ++ "\x7d"

def prettyItems (depth : Nat) : List Json → List String
  | [] => []
  | v :: rest => (indent depth ++ pretty depth v) :: prettyItems depth rest

def prettyMembers (depth : Nat) : List (String × Json) → List String
  | [] => []
  | (k, v) :: rest =>
    (indent depth ++ string k ++ ": " ++ pretty depth v) :: prettyMembers depth rest

end

end PatternAudit.Json.Write
