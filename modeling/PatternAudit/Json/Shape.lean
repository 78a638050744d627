/-
What a reader expects a value to look like, and how a value can fail to.

A `Shape` is the expected form of a stored report, a profile or a request. The
same shape is read from a tree (`Shape.fit`, here), from JSON text
(`Json.Read`) and from a profile's text (`Profile.Read`); each reader answers a
tree in normal form, in which every record is an object holding its known
fields in declared order, so that whoever turns the tree into a value has no
failure left to report. What can go wrong is a `Mismatch`, worded in one place.
-/
import PatternAudit.Json.Basic
import PatternAudit.Text.Quoted
import PatternAudit.Decimal.Shortest

set_option autoImplicit false

namespace PatternAudit

/-! ## Mismatches -/

/-- What was found where something else was expected. -/
inductive Found where
  | null
  | bool (value : Bool)
  | int (value : Int)
  /-- an integer that 64 bits cannot hold, and whether it has a sign to keep -/
  | wide (value : Int) (signed : Bool)
  | float (value : Float)
  | str (value : String)
  | sequence
  | mapping
  | word (name : String)

/-- How a value fails to have the expected form. -/
inductive Mismatch where
  | type (found : Found) (expected : String)
  | value (found : Found) (expected : String)
  | length (found : Nat) (expected : String)
  | unknownVariant (name : String) (known : List String)
  | missingField (name : String)
  | duplicateField (name : String)
  | refused (complaint : String)

/-- The words in which formats differ: the name of null, and the text of a number
with a fraction. -/
structure Wording where
  null : String
  float : Float → String

/-- The words of JSON. -/
def Wording.json : Wording := ⟨"null", Decimal.text⟩

/-- The words of YAML. -/
def Wording.yaml : Wording := ⟨"unit value", Decimal.positionalText⟩

/-- A value as a message names it. -/
def Found.text (w : Wording) : Found → String
  | null => w.null
  | bool b => "boolean `" ++ (if b then "true" else "false") ++ "`"
  | int n => "integer `" ++ toString n ++ "`"
  | wide n signed => "integer `" ++ toString n ++ (if signed then "` as i128" else "` as u128")
  | float x => "floating point `" ++ w.float x ++ "`"
  | str s => "string " ++ Text.quoted s
  | sequence => "sequence"
  | mapping => "map"
  | word name => name

/-- The names a value could have had, as a message lists them. -/
def alternatives : List String → String
  | [] => "there are no variants"
  | [a] => "expected `" ++ a ++ "`"
  | [a, b] => "expected `" ++ a ++ "` or `" ++ b ++ "`"
  | names => "expected one of " ++ ", ".intercalate (names.map fun n => "`" ++ n ++ "`")

/-- The message of a mismatch. -/
def Mismatch.message (w : Wording) : Mismatch → String
  | type found expected => "invalid type: " ++ found.text w ++ ", expected " ++ expected
  | value found expected => "invalid value: " ++ found.text w ++ ", expected " ++ expected
  | length n expected => "invalid length " ++ toString n ++ ", expected " ++ expected
  | unknownVariant name known => "unknown variant `" ++ name ++ "`, " ++ alternatives known
  | missingField name => "missing field `" ++ name ++ "`"
  | duplicateField name => "duplicate field `" ++ name ++ "`"
  | refused complaint => complaint

/-! ## Shapes -/

/-- Whether a record may lack a field. -/
inductive Presence where
  | required
  | optional
  deriving DecidableEq

/-- The expected form of a value. -/
inductive Shape where
  /-- anything at all -/
  | any
  | string
  | boolean
  /-- an integer from 0 up to `2^64 - 1`, under the name that messages use -/
  | natural (name : String)
  /-- a string that a later conversion accepts, with the complaint when it does not -/
  | refined (accepts : String → Bool) (complaint : String → String)
  /-- null, or the given form -/
  | nullable (inner : Shape)
  | sequence (item : Shape)
  | mapping (value : Shape)
  | variant (names : List String)
  | record (name : String) (fields : List (String × Presence × Shape))

/-- What a message calls the elements of a record written as a sequence. -/
def recordElements (name : String) (count : Nat) : String :=
  "struct " ++ name ++ " with " ++ toString count ++ (if count = 1 then " element" else " elements")

/-- What was found, for a tree. -/
def Json.found : Json → Found
  | .null => .null
  | .bool b => .bool b
  | .num (.int n) => .int n
  | .num (.float x) => .float x
  | .str s => .str s
  | .arr _ => .sequence
  | .obj _ => .mapping

/-! ## Fitting a tree -/

mutual

/-- Fits a tree to a shape: the tree in normal form, or the first mismatch in the
order in which the tree is written. -/
def Shape.fit : Shape → Json → Except Mismatch Json
  | .any, v => .ok v
  | .string, v => match v with
    | .str s => .ok (.str s)
    | _ => .error (.type v.found "a string")
  | .boolean, v => match v with
    | .bool b => .ok (.bool b)
    | _ => .error (.type v.found "a boolean")
  | .natural name, v => match v with
    | .num (.int n) => if n < 0 then .error (.value (.int n) name) else .ok (.num (.int n))
    | _ => .error (.type v.found name)
  | .refined accepts complaint, v => match v with
    | .str s => if accepts s then .ok (.str s) else .error (.refused (complaint s))
    | _ => .error (.type v.found "a string")
  | .nullable inner, v => match v with
    | .null => .ok .null
    | _ => inner.fit v
  | .sequence item, v => match v with
    | .arr items => (items.mapM item.fit).map .arr
    | _ => .error (.type v.found "a sequence")
  | .mapping value, v => match v with
    | .obj members =>
      (members.mapM fun (m : String × Json) => (value.fit m.2).map fun fitted => (m.1, fitted)).map .obj
    | _ => .error (.type v.found "a map")
  | .variant names, v => match v with
    | .str s => if s ∈ names then .ok (.str s) else .error (.unknownVariant s names)
    | .obj [(k, m)] =>
      if k ∈ names then match m with
        | .null => .ok (.str k)
        | _ => .error (.type m.found "unit")
      else .error (.unknownVariant k names)
    | .obj _ => .error (.value .mapping "map with a single key")
    | _ => .error (.type v.found "string or map")
  | .record name fields, v => match v with
    | .arr items => (fitElements name fields.length 0 fields items).map .obj
    | .obj members => do
      -- the first misfit in the order of the tree is reported before a missing field
      for m in members do
        let _ ← fitMember fields m
      (fitFields fields members).map .obj
    | _ => .error (.type v.found ("struct " ++ name))

/-- Fits one member of an object to the field of its name, if there is one. -/
def fitMember : List (String × Presence × Shape) → String × Json → Except Mismatch Json
  | [], (_, v) => .ok v
  | (key, _, shape) :: rest, (k, v) => if key = k then shape.fit v else fitMember rest (k, v)

/-- Fits the fields in declared order, each to the member of its name. -/
def fitFields : List (String × Presence × Shape) → List (String × Json) →
    Except Mismatch (List (String × Json))
  | [], _ => .ok []
  | (key, presence, shape) :: rest, members =>
    match Json.lookup key members with
    | some v => do
      let fitted ← shape.fit v
      let others ← fitFields rest members
      .ok ((key, fitted) :: others)
    | none => match presence with
      | .required => .error (.missingField key)
      | .optional => fitFields rest members

/-- Fits the items of a record that is written as a sequence: the `i`-th item to the
`i`-th field. -/
def fitElements (name : String) (count : Nat) (i : Nat) :
    List (String × Presence × Shape) → List Json → Except Mismatch (List (String × Json))
  | [], [] => .ok []
  | [], rest => .error (.length (i + rest.length) "fewer elements in array")
  | (key, presence, shape) :: rest, items =>
    match items with
    | v :: others => do
      let fitted ← shape.fit v
      let tail ← fitElements name count (i + 1) rest others
      .ok ((key, fitted) :: tail)
    | [] => match presence with
      | .required => .error (.length i (recordElements name count))
      | .optional => fitElements name count (i + 1) rest []

end

end PatternAudit
