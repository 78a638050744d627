/-
Globs over locations: their parts and what is wrong with one that cannot be used.
-/

set_option autoImplicit false

namespace PatternAudit

/-- A part of a glob. -/
inductive GlobPart where
  | char (c : Char)
  /-- `?`: one byte -/
  | one
  /-- `*`: any bytes -/
  | many
  /-- `**` at the start: any directories, or none -/
  | anyDirsBefore
  /-- `**` at the end: anything below -/
  | anythingBelow
  /-- `**` between slashes: any directories, or none -/
  | anyDirsBetween
  /-- `[...]` -/
  | oneOf (negated : Bool) (ranges : List (Char × Char))
  /-- `{...,...}` -/
  | anyOf (branches : List (List GlobPart))
  deriving Inhabited

/-- What is wrong with a glob. -/
inductive GlobFault where
  | unclosedClass
  | invalidRange (low high : Char)
  | unopenedAlternates
  | unclosedAlternates
  | danglingEscape
  deriving DecidableEq

/-- The message of a fault, which names the glob. -/
def GlobFault.message (glob : String) (f : GlobFault) : String :=
  "error parsing glob '" ++ glob ++ "': " ++
    match f with
    | unclosedClass => "unclosed character class; missing ']'"
    | invalidRange low high =>
      "invalid range; '" ++ String.singleton low ++ "' > '" ++ String.singleton high ++ "'"
    | unopenedAlternates =>
      "unopened alternate group; missing '\x7b' (maybe escape '\x7d' with '[\x7d]'?)"
    | unclosedAlternates =>
      "unclosed alternate group; missing '\x7d' (maybe escape '\x7b' with '[\x7b]'?)"
    | danglingEscape => "dangling '\\'"

end PatternAudit
