/-
The regex dialects that patterns are checked under.

A dialect has a short name, which profiles and stored reports use, a name for
messages, and aliases: the languages whose engines follow it. Names are
compared without regard to case and outer blanks.
-/
import PatternAudit.Text.Blank
import PatternAudit.Text.Lower
import PatternAudit.Text.Quoted

set_option autoImplicit false

namespace PatternAudit

/-- A regex dialect. -/
inductive Dialect where
  /-- backtracking engines with look-around and backreferences -/
  | pcre
  /-- the syntax of JavaScript -/
  | ecma
  /-- automata in linear time: no look-around, no backreferences -/
  | re2
  deriving DecidableEq, Inhabited

namespace Dialect

/-- The dialects, in the order in which they are declared. -/
def all : List Dialect := [pcre, ecma, re2]

/-- The short name. -/
def name : Dialect → String
  | pcre => "pcre"
  | ecma => "ecma"
  | re2 => "re2"

/-- The name in messages and summaries. -/
def displayName : Dialect → String
  | pcre => "PCRE"
  | ecma => "ECMAScript"
  | re2 => "RE2"

/-- Every name under which a dialect may be asked for. -/
def aliases : Dialect → List String
  | pcre => ["pcre", "java", "perl", "python"]
  | ecma => ["ecma", "ecmascript", "js", "javascript"]
  | re2 => ["re2", "go", "rust"]

/-- The dialect of a name or an alias. -/
def ofName? (s : String) : Option Dialect :=
  let wanted := Text.lower (Text.trim s)
  all.find? fun d => wanted ∈ d.aliases

/-- The complaint about a name that belongs to no dialect. -/
def unknownName (s : String) : String :=
  "unknown dialect " ++ Text.quoted s
    ++ ", must be one of: pcre, ecma, re2 (aliases: java, js, go)"

/-- General advice on patterns that the dialect refuses. -/
def restriction : Dialect → String
  | pcre => "Check PCRE/Java regex documentation for supported features. Groups and character classes must be balanced and quantifiers need a repeatable target."
  | ecma => "The pattern is not a valid regular expression according to JavaScript's syntax rules. ECMAScript does not support possessive quantifiers, atomic groups, inline flags or \\A/\\Z anchors."
  | re2 => "RE2 is designed for linear-time matching and does not support lookarounds or backreferences. Simplify the pattern or consult RE2 syntax documentation."

end Dialect

end PatternAudit
