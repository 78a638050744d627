/-
What a walk over a description comes upon: patterns, the elements that people
read, and places that it could not enter.
-/
import PatternAudit.Api.Metadata
import PatternAudit.Json.Basic

set_option autoImplicit false

namespace PatternAudit.Walk

/-- Why a place was not entered, or not entirely. -/
inductive Skip where
  /-- a reference that the descent is already inside of -/
  | cycle (target : String)
  /-- more references in a row of descent than the bound -/
  | chainTooLong (bound : Nat)
  /-- no reference is left in the budget of the whole walk -/
  | budgetSpent (budget : Nat) (target : String)
  | externalReference (target : String)
  | unresolvable (target : String)
  | tooDeep (bound : Nat)
  /-- a value that has not the type its place asks for -/
  | expected (what : String)
  | notASchema (found : Json)
  | patternNotString

/-- The reason, as diagnostics write it. -/
def Skip.reason : Skip → String
  | cycle target => "reference cycle through " ++ target
  | chainTooLong bound => "reference chain longer than " ++ toString bound
  | budgetSpent budget target =>
    "reference budget of " ++ toString budget ++ " resolutions exhausted at " ++ target
  | externalReference target => "external reference " ++ target ++ " not resolved"
  | unresolvable target => "unresolvable reference " ++ target
  | tooDeep bound => "schema nested deeper than " ++ toString bound
  | expected what => "expected " ++ what
  | notASchema found => "expected a schema object, found " ++ found.typeName
  | patternNotString => "pattern is not a string"

/-- One thing that a walk comes upon. -/
inductive Item where
  | pattern (location pattern : String)
  | operation (o : Api.Operation)
  | schema (s : Api.Schema)
  | path (p : Api.PathEntry)
  | skipped (location : String) (why : Skip)

/-- Where an item was found. -/
def Item.location : Item → String
  | pattern location _ => location
  | operation o => o.location
  | schema s => s.location
  | path p => p.location
  | skipped location _ => location

/-- The location and the text of a pattern. -/
def Item.pattern? : Item → Option (String × String)
  | pattern location text => some (location, text)
  | _ => none

theorem Item.location_of_pattern? {item : Item} {key : String × String}
    (h : item.pattern? = some key) : item.location = key.1 := by
  cases item with
  | pattern =>
    cases h
    rfl
  | _ => cases h

end PatternAudit.Walk
