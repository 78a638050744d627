/-
The tree of a YAML value.

YAML says more than a tree can: keys become text, tags are dropped from the
values they stand on, and a number that is not finite becomes null. Two keys
with the same text share a member, which keeps the first one's place and the
last one's value.
-/
import PatternAudit.Text.Blank
import PatternAudit.Yaml.Print

set_option autoImplicit false

namespace PatternAudit.Yaml.Value

/-- The text of a key. -/
def keyText : Value → String
  | str s => s
  | num (.int n) => toString n
  | num (.float x) => duplicate.numberText x
  | bool b => if b then "true" else "false"
  | null => "null"
  | v => Text.trim v.print

/-- The number of a tree; one that is not finite has no place there. -/
def numberTree : Number → Json
  | .int n => .num (.int n)
  | .float x => if x.isFinite then .num (.float x) else .null

mutual

/-- The tree of a value. -/
def toJson : Value → Json
  | null => .null
  | bool b => .bool b
  | num n => numberTree n
  | str s => .str s
  | seq items => .arr (itemsToJson items)
  | map members => .obj (membersToJson [] members)
  | tagged _ v => toJson v

/-- The trees of a list of values. -/
def itemsToJson : List Value → List Json
  | [] => []
  | v :: rest => toJson v :: itemsToJson rest

/-- Enters the trees of members one after the other. -/
def membersToJson (done : List (String × Json)) : List (Value × Value) → List (String × Json)
  | [] => done
  | (k, v) :: rest => membersToJson (Json.insert (keyText k) (toJson v) done) rest

end

end PatternAudit.Yaml.Value
