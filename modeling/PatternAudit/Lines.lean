/-
The line on which a pattern is written.

A tree has no places, so the line of a pattern is the first line of the text
that could be its entry: `pattern: ` and the pattern between single quotes, or
as a JSON string (whose key may be quoted too), anywhere in the line; or the
pattern as it is, which then has to end the line. Lines and patterns are
compared with their outer blanks dropped and each inner run of blanks narrowed
to one space. Equal patterns in several places share the first place's line.
-/
import PatternAudit.Json.Write
import PatternAudit.Text.Blank

set_option autoImplicit false

namespace PatternAudit.Lines

/-- The lines of a text, in the form in which they are compared. -/
abbrev Index := List (List Char)

/-- The index of a text. -/
def Index.ofText (source : String) : Index :=
  (Text.linesFrom [] source.toList).map Text.collapseChars

/-- Whether a text holds another one. -/
def contains (needle : List Char) : List Char → Bool
  | [] => needle.isEmpty
  | c :: cs => needle.isPrefixOf (c :: cs) || contains needle cs

/-- A pattern between single quotes: a quote inside is written twice. -/
def singleQuoted (pattern : List Char) : List Char :=
  '\'' :: Text.collapseChars (pattern.flatMap fun c => if c = '\'' then ['\'', '\''] else [c]) ++ ['\'']

/-- A pattern as a JSON string. -/
def doubleQuoted (pattern : List Char) : List Char :=
  Text.collapseChars (Json.Write.string (String.ofList pattern)).toList

/-- The entries that may stand anywhere in a line. -/
def quotedEntries (pattern : List Char) : List (List Char) :=
  ["pattern: ".toList ++ singleQuoted pattern,
    "pattern: ".toList ++ doubleQuoted pattern,
    "\"pattern\": ".toList ++ doubleQuoted pattern]

/-- The entry that has to end a line. -/
def plainEntry (pattern : List Char) : List Char := "pattern: ".toList ++ Text.collapseChars pattern

/-- Whether a line is an entry of a pattern, given what such entries look like. -/
def isEntry (quoted : List (List Char)) (plain line : List Char) : Bool :=
  quoted.any (fun entry => contains entry line) || line == plain || (' ' :: plain).isSuffixOf line

/-- The first line, counted from one, that is an entry of a pattern; 0 if none is. -/
def Index.find (index : Index) (pattern : String) : Nat :=
  let quoted := quotedEntries pattern.toList
  let plain := plainEntry pattern.toList
  match index.findIdx? (isEntry quoted plain) with
  | some i => i + 1
  | none => 0

end PatternAudit.Lines
