/-
What a reader of a document's nodes can fail with.

A mismatch is placed at the node that was being read: the path of keys and
indices that leads to it from the root, and its mark. The path of the root is
not written. A fault of the text itself has its place already.
-/
import PatternAudit.Yaml.Node
import PatternAudit.Json.Shape

set_option autoImplicit false

namespace PatternAudit.Yaml

/-! ## Paths -/

/-- One step from a collection to what it holds. -/
inductive PathStep where
  | item (index : Nat)
  | member (key : String)
  /-- a member whose key is no scalar -/
  | unnamed
  deriving DecidableEq

/-- The way from the root to a node, the last step first. -/
abbrev Path := List PathStep

/-- A path as the lead of a longer one: the root has none. -/
def Path.lead (text : String) (isRoot : Bool) : String := if isRoot then "" else text ++ "."

/-- A path, as messages write it. -/
def Path.text : Path → String
  | [] => "."
  | .item i :: outer => Path.text outer ++ "[" ++ toString i ++ "]"
  | .member key :: outer => Path.lead (Path.text outer) outer.isEmpty ++ key
  | .unnamed :: outer => Path.lead (Path.text outer) outer.isEmpty ++ "?"

/-! ## Failures -/

/-- Why a document could not be read. -/
inductive Failure where
  | fault (f : Fault)
  | mismatch (m : Mismatch) (path : Path) (mark : Mark)
  | tooDeep (mark : Mark)
  | tooManyAliases
  | moreDocuments

/-- The message of a failure. -/
def Failure.message : Failure → String
  | fault f => f.message
  | mismatch m path mark =>
    let lead := path.text
    (if lead == "." then "" else lead ++ ": ") ++ m.message .yaml ++ mark.suffix
  | tooDeep mark => "recursion limit exceeded" ++ mark.suffix
  | tooManyAliases => "repetition limit exceeded"
  | moreDocuments =>
    "deserializing from YAML containing more than one document is not supported"

/-! ## Reading nodes -/

/-- A reading step; the state is how many aliases may still be followed. -/
abbrev Reading (α : Type) := StateT Nat (Except Failure) α

/-- How many levels of collections may be open at a time. -/
def maxDepth : Nat := 128

/-- How many aliases may be followed, for each event of the document. -/
def aliasesPerEvent : Nat := 100

namespace Document

/-- The failure at the place where a text breaks off. -/
def broken (d : Document) : Failure := .fault (d.fault.getD (.control 0))

/-- Follows an alias. Its node is never an alias itself. -/
def follow (d : Document) (number : Nat) : Reading Node := do
  let left ← get
  if left = 0 then throw .tooManyAliases
  else do
    set (left - 1)
    return ((d.anchored.find? (·.1 == number)).map (·.2)).getD .cut

/-- Reads the whole document: the root first, then whatever ended or followed it. -/
def run {α : Type} (d : Document) (read : Node → Reading α) : Except Failure α := do
  let (v, _) ← (read d.root).run (aliasesPerEvent * d.events)
  match d.fault with
  | some f => .error (.fault f)
  | none => if d.more then .error .moreDocuments else .ok v

end Document

/-- The step to the value of a member, named by the member's key. -/
def Node.memberStep : Node → PathStep
  | .scalar text _ _ _ => .member text
  | _ => .unnamed

end PatternAudit.Yaml
