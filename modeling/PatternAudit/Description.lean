/-
API descriptions: a text, and the tree it stands for.

A text whose first visible character is `{` is JSON, every other one is YAML. No object
of the tree has a key twice, whichever it is.
-/
import PatternAudit.Error
import PatternAudit.Json.Distinct
import PatternAudit.Pointer
import PatternAudit.Text.Blank

set_option autoImplicit false

namespace PatternAudit

/-! ## Descriptions -/

/-- A description: where it came from, what it says, and its text. -/
structure Description where
  name : String
  root : Json
  source : String
  distinct : root.keysDistinct = true

namespace Description

/-- Reads the tree of a text. -/
def readTree (source : String) : Except Error Json :=
  if (Text.trimStart source.toList).head? == some '\x7b' then
    (Json.Read.parse source).mapError .parse
  else
    match Yaml.Value.ofText source with
    | .ok v => .ok v.toJson
    | .error failure => .error (.parse failure.message)

/-- Whether a tree says of itself that it describes an API. -/
def isDescription (root : Json) : Bool :=
  (root.get? "openapi").isSome || (root.get? "swagger").isSome

theorem keysDistinct_of_readTree {source : String} {root : Json}
    (h : readTree source = .ok root) : root.keysDistinct = true := by
  unfold readTree at h
  split at h
  · cases hparse : Json.Read.parse source with
    | error e =>
      rw [hparse] at h
      cases h
    | ok v =>
      rw [hparse] at h
      cases h
      exact Json.Read.keysDistinct_of_parse hparse
  · split at h
    · cases h
      exact Yaml.Value.keysDistinct_toJson _
    · cases h

/-- Reads a description. -/
def parse (name source : String) : Except Error Description :=
  match h : readTree source with
  | .ok root =>
    if isDescription root then .ok ⟨name, root, source, keysDistinct_of_readTree h⟩
    else .error (.notDescription name)
  | .error e => .error e

/-- The version of the description format that the description declares. -/
def specVersion? (d : Description) : Option String :=
  match d.root.get? "openapi" with
  | some v => v.asStr?
  | none => (d.root.get? "swagger").bind Json.asStr?

/-- The node that a local reference names. -/
def resolve? (d : Description) (reference : String) : Option Json :=
  Pointer.resolveRef? d.root reference

end Description

end PatternAudit
