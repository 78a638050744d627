/-
The values of a YAML document, before they become a description.

A value keeps what the document tree cannot say: keys that are no strings, and
tags of the document's own kind (`!name`), which wrap the value they stand on.
Two members of a mapping may not have the same key; keys are the same when
they are the same value, mappings compared without regard to order.
-/
import PatternAudit.Yaml.Failure
import PatternAudit.Yaml.Scalar

set_option autoImplicit false

namespace PatternAudit.Yaml

/-- A value of a document. -/
inductive Value where
  | null
  | bool (value : Bool)
  | num (value : Number)
  | str (text : String)
  | seq (items : List Value)
  | map (members : List (Value × Value))
  | tagged (tag : String) (value : Value)
  deriving Inhabited

namespace Value

/-! ## Sameness -/

/-- Whether two numbers are the same; no number is the same as itself here, so that it
can be a key. -/
def sameNumber : Number → Number → Bool
  | .int a, .int b => a == b
  | .float a, .float b => (a.isNaN && b.isNaN) || a == b
  | _, _ => false

mutual

/-- Whether two values are the same. -/
def same : Value → Value → Bool
  | null, null => true
  | bool a, bool b => a == b
  | num a, num b => sameNumber a b
  | str a, str b => a == b
  | seq a, seq b => sameItems a b
  | map a, map b => a.length == b.length && sameMembers a b
  | tagged s a, tagged t b => s == t && same a b
  | _, _ => false

/-- Whether two lists of values are the same. -/
def sameItems : List Value → List Value → Bool
  | [], [] => true
  | a :: as, b :: bs => same a b && sameItems as bs
  | _, _ => false

/-- Whether every member is among those of another mapping. -/
def sameMembers : List (Value × Value) → List (Value × Value) → Bool
  | [], _ => true
  | (k, v) :: rest, ms => ms.any (fun m => same k m.1 && same v m.2) && sameMembers rest ms

end

/-! ## Reading -/

/-- The name of a tag of the document's own kind. -/
def ownTag (tag : String) : Option String :=
  match tag.toList with
  | '!' :: [] => some "!"
  | '!' :: rest => some (String.ofList rest)
  | _ => none

/-- The value that a plain text stands for. -/
def ofPlain (text : String) : Except Mismatch Value :=
  match Scalar.ofPlain text with
  | .null => .ok null
  | .bool b => .ok (bool b)
  | .num n => .ok (num n)
  | .wide n signed => .error (.type (.wide n signed) "any YAML value")
  | .str s => .ok (str s)

/-- The value of a scalar whose tag is one of the common kinds. -/
def ofKind (tag text : String) : Except Mismatch Value :=
  let refuse (kind : String) : Except Mismatch Value := .error (.value (.str text) kind)
  if tag == "tag:yaml.org,2002:bool" then
    match Scalar.bool? text with
    | some b => .ok (bool b)
    | none => refuse "a boolean"
  else if tag == "tag:yaml.org,2002:int" then
    match Scalar.int? text.toList with
    | some (.num n) => .ok (num n)
    | some (.wide n signed) => .error (.type (.wide n signed) "any YAML value")
    | _ => refuse "an integer"
  else if tag == "tag:yaml.org,2002:float" then
    match Scalar.float? text with
    | some x => .ok (num (.float x))
    | none => refuse "a float"
  else if tag == "tag:yaml.org,2002:null" then
    if Scalar.isNull text then .ok null else refuse "null"
  else .ok (str text)

/-- The value of a scalar, its own tag apart. -/
def ofScalar (text : String) (style : Style) (tag : Option String) : Except Mismatch Value :=
  match tag with
  | some t =>
    if (ownTag t).isSome then if style = .plain then ofPlain text else .ok (str text)
    else ofKind t text
  | none => if style = .plain then ofPlain text else .ok (str text)

/-- Wraps a value in its own tag. -/
def withTag (tag : Option String) (v : Value) : Value :=
  match tag.bind ownTag with
  | some t => tagged t v
  | none => v

/-- Places a mismatch. -/
def place {α : Type} (path : Path) (mark : Mark) : Except Mismatch α → Reading α
  | .ok v => pure v
  | .error m => throw (.mismatch m path mark)

/-- The complaint about a key that comes twice. -/
def duplicate : Value → String
  | null => "duplicate entry with null key"
  | bool b => "duplicate entry with key `" ++ (if b then "true" else "false") ++ "`"
  | num (.int n) => "duplicate entry with key " ++ toString n
  | num (.float x) => "duplicate entry with key " ++ numberText x
  | str s => "duplicate entry with key " ++ Text.quoted s
  | _ => "duplicate entry in YAML map"
where
  /-- A double as a key. -/
  numberText (x : Float) : String :=
    if x.isNaN then ".nan"
    else if x.isInf then (if x < 0.0 then "-.inf" else ".inf")
    else Decimal.text x

/-- Reads the members of a mapping on top of those read before, which are backwards. -/
def readMembers (read : Path → Node → Reading Value) (path : Path) (mark : Mark) :
    List (Value × Value) → List (Node × Node) → Reading (List (Value × Value))
  | done, [] => pure done.reverse
  | done, (k, v) :: rest => do
    let key ← read path k
    if done.any fun m => same key m.1 then throw (.mismatch (.refused (duplicate key)) path mark)
    else do
      let value ← read (k.memberStep :: path) v
      readMembers read path mark ((key, value) :: done) rest

/-- Reads the items of a sequence, the first of which has the index `i`. -/
def readItems (read : Path → Node → Reading Value) (path : Path) : Nat → List Node →
    Reading (List Value)
  | _, [] => pure []
  | i, n :: rest => do
    let v ← read (.item i :: path) n
    let vs ← readItems read path (i + 1) rest
    pure (v :: vs)

/-- Reads a node that is no alias. `inside` reads what a collection holds; it is missing
where no more levels may be opened. -/
def readHere (d : Document) (inside : Option (Path → Node → Reading Value)) (path : Path) :
    Node → Reading Value
  | .scalar text style tag mark => do
    let v ← place path mark (ofScalar text style tag)
    pure (withTag tag v)
  | .sequence items tag mark =>
    match inside with
    | none => throw (.tooDeep mark)
    | some read => do
      let vs ← readItems read path 0 items
      pure (withTag tag (seq vs))
  | .mapping members tag mark =>
    match inside with
    | none => throw (.tooDeep mark)
    | some read => do
      let ms ← readMembers read path mark [] members
      pure (withTag tag (map ms))
  | .void _ => pure null
  | _ => throw d.broken

/-- Reads a node. The number is how many levels of collections may still be opened. -/
def read (d : Document) : Nat → Path → Node → Reading Value
  | 0, path, n => do
    let n ← resolve d n
    readHere d none path n
  | depth + 1, path, n => do
    let n ← resolve d n
    readHere d (some (read d depth)) path n
where
  /-- The node that an alias stands for. -/
  resolve (d : Document) : Node → Reading Node
    | .aliasTo number _ => d.follow number
    | n => pure n

/-- Reads the value of a text. -/
def ofText (text : String) : Except Failure Value :=
  let d := Document.ofText text
  d.run (read d maxDepth [])

end Value

end PatternAudit.Yaml
