/-
Reading a document by shape.

The nodes are read in the order of the text, and each value against the shape
that its place asks for, so the first misfit in the text is the one reported.
The answer is a tree in normal form. A scalar is what its place asks for: a
string takes the text of any scalar, while a boolean or a number has to be
plain. An empty value does for an empty sequence and for a record without
fields. Members that a record does not know are passed over.
-/
import PatternAudit.Yaml.Tree

set_option autoImplicit false

namespace PatternAudit.Yaml.Fit

/-- Reads a node below, at its path, by its shape. -/
abbrev Inside := Path → Shape → Node → Reading Json

/-! ## Scalars -/

/-- What a scalar is, for a message that asks for something else. -/
def found (text : String) (style : Style) (tag : Option String) (expected : String) : Mismatch :=
  match Value.ofScalar text style tag with
  | .ok .null => .type .null expected
  | .ok (.bool b) => .type (.bool b) expected
  | .ok (.num (.int n)) => .type (.int n) expected
  | .ok (.num (.float x)) => .type (.float x) expected
  | .ok (.str s) => .type (.str s) expected
  | .ok _ => .type (.str text) expected
  | .error (.type wide _) => .type wide expected
  | .error m => m

/-- Refuses a node. -/
def refuse {α : Type} (d : Document) (path : Path) (expected : String) : Node → Reading α
  | .scalar text style tag mark => throw (.mismatch (found text style tag expected) path mark)
  | .sequence _ _ mark => throw (.mismatch (.type .sequence expected) path mark)
  | .mapping _ _ mark => throw (.mismatch (.type .mapping expected) path mark)
  | _ => throw d.broken

/-- Whether a scalar may be a value of a common kind: if it is plain, or literal under
the kind's tag. -/
def isOfKind (kind : String) (style : Style) (tag : Option String) : Bool :=
  style = .plain || (style = .literal && tag == some kind)

/-- Whether a node is an absent value. -/
def isAbsent : Node → Bool
  | .scalar text .plain none _ => text.isEmpty || Scalar.isNull text
  | .scalar text .plain (some tag) _ => tag == "tag:yaml.org,2002:null" && Scalar.isNull text
  | .void _ => true
  | _ => false

/-- Whether a node is a scalar without text. -/
def isEmptyScalar : Node → Bool
  | .scalar text .plain _ _ => text.isEmpty
  | .void _ => true
  | _ => false

/-- The natural number of a text. -/
def natural? (text : String) : Option Json :=
  match Scalar.int? text.toList with
  | some (.num (.int n)) => if text.toList.head? == some '-' then none else some (.num (.int n))
  | _ => none

/-- Reads the name of a variant, which is the text of a scalar or an own tag of it. -/
def variant (d : Document) (path : Path) (names : List String) : Node → Reading Json
  | .scalar text style tag mark =>
    match tag.bind Value.ownTag with
    | none =>
      if text ∈ names then pure (.str text)
      else throw (.mismatch (.unknownVariant text names) path mark)
    | some t =>
      if t ∈ names then
        if style = .plain && (text.isEmpty || Scalar.isNull text) then pure (.str t)
        else throw (.mismatch (.value (.str text) "null") path mark)
      else throw (.mismatch (.unknownVariant t names) path mark)
  | .sequence _ tag mark => collection .sequence tag mark
  | .mapping _ tag mark => collection .mapping tag mark
  | _ => throw d.broken
where
  /-- Refuses a collection, which no variant is. -/
  collection (what : Found) (tag : Option String) (mark : Mark) : Reading Json :=
    match tag.bind Value.ownTag with
    | none => throw (.mismatch (.type what "a YAML tag starting with '!'") path mark)
    | some t =>
      if t ∈ names then throw (.mismatch (.type what "unit") path mark)
      else throw (.mismatch (.unknownVariant t names) path mark)

/-! ## Collections -/

mutual

/-- Whether the text breaks off inside of a node. -/
def isCut : Node → Bool
  | .cut => true
  | .sequence items _ _ => anyCut items
  | .mapping members _ _ => anyMemberCut members
  | _ => false

/-- Whether the text breaks off inside of one of the nodes. -/
def anyCut : List Node → Bool
  | [] => false
  | n :: rest => isCut n || anyCut rest

/-- Whether the text breaks off inside of one of the members. -/
def anyMemberCut : List (Node × Node) → Bool
  | [] => false
  | (k, v) :: rest => isCut k || isCut v || anyMemberCut rest

end

/-- Reads the name of a field. -/
def fieldName (d : Document) (path : Path) (key : Node) : Reading String := do
  match ← Value.read.resolve d key with
  | .scalar text _ _ _ => pure text
  | n => refuse d path "field identifier" n

/-- Reads the items of a sequence, the first of which has the index `i`. -/
def items (inside : Inside) (path : Path) (shape : Shape) : Nat → List Node → Reading (List Json)
  | _, [] => pure []
  | i, n :: rest => do
    let v ← inside (.item i :: path) shape n
    let vs ← items inside path shape (i + 1) rest
    pure (v :: vs)

/-- Reads the members of a record, on top of those read before. -/
def fields (d : Document) (inside : Inside) (path : Path) (mark : Mark)
    (known : List (String × Presence × Shape)) :
    List (String × Json) → List (Node × Node) → Reading (List (String × Json))
  | done, [] => pure done
  | done, (k, v) :: rest => do
    let name ← fieldName d path k
    match Json.lookup name known with
    | none =>
      if isCut v then throw d.broken
      else fields d inside path mark known done rest
    | some (_, shape) =>
      if (Json.lookup name done).isSome then
        throw (.mismatch (.duplicateField name) path mark)
      else do
        let read ← inside (k.memberStep :: path) shape v
        fields d inside path mark known ((name, read) :: done) rest

/-- The fields of a record in declared order. -/
def inOrder (path : Path) (mark : Mark) (done : List (String × Json)) :
    List (String × Presence × Shape) → Reading (List (String × Json))
  | [] => pure []
  | (name, presence, _) :: rest => do
    let others ← inOrder path mark done rest
    match Json.lookup name done with
    | some v => pure ((name, v) :: others)
    | none =>
      if presence = .required then throw (.mismatch (.missingField name) path mark)
      else pure others

/-- Reads the members of a map with keys of any name, on top of those read before. -/
def entries (d : Document) (inside : Inside) (path : Path) (shape : Shape) :
    List (String × Json) → List (Node × Node) → Reading (List (String × Json))
  | done, [] => pure done
  | done, (k, v) :: rest => do
    let name ← fieldName d path k
    let read ← inside (k.memberStep :: path) shape v
    entries d inside path shape (Json.insert name read done) rest

/-! ## Values -/

/-- Reads a node that is no alias. `inside` reads what a collection holds; it is missing
where no more levels may be opened. -/
def here (d : Document) (inside : Option Inside) (path : Path) : Shape → Node → Reading Json
  | .nullable inner, n => if isAbsent n then pure .null else here d inside path inner n
  | .any, n => do
    let v ← Value.readHere d (inside.map fun _ => Value.read d maxDepth) path n
    pure v.toJson
  | .string, .scalar text _ _ _ => pure (.str text)
  | .string, n => refuse d path "a string" n
  | .refined accepts complaint, .scalar text _ _ mark =>
    if accepts text then pure (.str text) else throw (.mismatch (.refused (complaint text)) path mark)
  | .refined _ _, n => refuse d path "a string" n
  | .boolean, n =>
    match n with
    | .scalar text style tag _ =>
      match (if isOfKind "tag:yaml.org,2002:bool" style tag then Scalar.bool? text else none) with
      | some b => pure (.bool b)
      | none => refuse d path "a boolean" n
    | n => refuse d path "a boolean" n
  | .natural name, n =>
    match n with
    | .scalar text style tag _ =>
      match (if isOfKind "tag:yaml.org,2002:int" style tag then natural? text else none) with
      | some v => pure v
      | none => refuse d path name n
    | n => refuse d path name n
  | .variant names, n => variant d path names n
  | .sequence shape, n =>
    match n with
    | .sequence nodes _ mark =>
      match inside with
      | none => throw (.tooDeep mark)
      | some read => do
        let vs ← items read path shape 0 nodes
        pure (.arr vs)
    | n => if isEmptyScalar n then pure (.arr []) else refuse d path "a sequence" n
  | .mapping shape, n =>
    match n with
    | .mapping members _ mark =>
      match inside with
      | none => throw (.tooDeep mark)
      | some read => do
        let ms ← entries d read path shape [] members
        pure (.obj ms)
    | n => if isEmptyScalar n then pure (.obj []) else refuse d path "a map" n
  | .record name known, n =>
    match n with
    | .mapping members _ mark =>
      match inside with
      | none => throw (.tooDeep mark)
      | some read => do
        let done ← fields d read path mark known [] members
        let ordered ← inOrder path mark done known
        pure (.obj ordered)
    | n =>
      if isEmptyScalar n then do
        let ordered ← inOrder path Mark.start [] known
        pure (.obj ordered)
      else refuse d path ("struct " ++ name) n

/-- Reads a node by its shape. The number is how many levels of collections may still be
opened. -/
def node (d : Document) : Nat → Path → Shape → Node → Reading Json
  | 0, path, shape, n => do
    let n ← Value.read.resolve d n
    here d none path shape n
  | depth + 1, path, shape, n => do
    let n ← Value.read.resolve d n
    here d (some (node d depth)) path shape n

/-- Reads a text by its shape. -/
def text (shape : Shape) (source : String) : Except Failure Json :=
  let d := Document.ofText source
  d.run (node d maxDepth [] shape)

end PatternAudit.Yaml.Fit
