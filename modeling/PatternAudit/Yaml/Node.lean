/-
The node graph of a YAML document.

The events of the first document of a text are folded into a tree, in which an
alias is a leaf that names an anchored node by number. A text that breaks off
still has a tree: `cut` stands where the next node would have begun, in every
collection that was open there, and the fault is kept beside the tree. So
whoever reads the tree meets, in the order of the text, first what the text
says and then the fault.

An anchor gets as its number the count of the names seen so far, so a name that
is given twice shares its new number with the name that is introduced next; the
number stands for whichever of them begins last.
-/
import PatternAudit.Yaml.Event

set_option autoImplicit false

namespace PatternAudit.Yaml

/-! ## Nodes -/

/-- A node of a document. -/
inductive Node where
  | scalar (text : String) (style : Style) (tag : Option String) (mark : Mark)
  | sequence (items : List Node) (tag : Option String) (mark : Mark)
  | mapping (members : List (Node × Node)) (tag : Option String) (mark : Mark)
  /-- the node with the given number, once more -/
  | aliasTo (number : Nat) (mark : Mark)
  /-- the only node of a text that holds none -/
  | void (mark : Mark)
  /-- where the text breaks off -/
  | cut
  deriving Inhabited

/-- The first document of a text. -/
structure Document where
  root : Node
  /-- the anchored nodes, by number -/
  anchored : List (Nat × Node)
  /-- how many events the document has -/
  events : Nat
  /-- what ended the document early, if anything did -/
  fault : Option Fault
  /-- whether something follows the document -/
  more : Bool

/-! ## Folding events -/

/-- A collection that is open, its parts backwards. -/
structure OpenNode where
  isMapping : Bool
  parts : List Node
  tag : Option String
  mark : Mark
  /-- the number of its first event, if it is anchored -/
  anchor : Option Nat

/-- What has been folded so far. -/
structure Builder where
  opened : List OpenNode
  root : Option Node
  /-- the number of each anchor name -/
  names : List (String × Nat)
  /-- the event at which each number begins, latest first -/
  begins : List (Nat × Nat)
  /-- the anchored nodes, by their first event -/
  nodes : List (Nat × Node)
  events : Nat

namespace Builder

/-- Nothing folded yet. -/
def empty : Builder := ⟨[], none, [], [], [], 0⟩

/-- Pairs keys with values; a key without a value is followed by the break. -/
def pairUp : List Node → List (Node × Node)
  | k :: v :: rest => (k, v) :: pairUp rest
  | [k] => [(k, .cut)]
  | [] => []

/-- The node of a collection. -/
def OpenNode.close (o : OpenNode) : Node :=
  if o.isMapping then .mapping (pairUp o.parts.reverse) o.tag o.mark
  else .sequence o.parts.reverse o.tag o.mark

/-- Enters a finished node. -/
def enter (b : Builder) (anchor : Option Nat) (n : Node) : Builder :=
  let b := match anchor with
    | some event => { b with nodes := (event, n) :: b.nodes }
    | none => b
  match b.opened with
  | o :: rest => { b with opened := { o with parts := n :: o.parts } :: rest }
  | [] => { b with root := some n }

/-- Gives an anchor name its number. The answer names the event, if there was an anchor. -/
def register (b : Builder) (p : Properties) : Builder × Option Nat :=
  match p.anchor with
  | none => (b, none)
  | some name =>
    let number := b.names.length
    let names := (name, number) :: b.names.filter (·.1 != name)
    ({ b with names, begins := (number, b.events) :: b.begins }, some b.events)

/-- Counts an event. -/
def count (b : Builder) : Builder := { b with events := b.events + 1 }

/-- Opens a collection. -/
def openNode (b : Builder) (isMapping : Bool) (p : Properties) (m : Mark) : Builder :=
  let (b, anchor) := b.register p
  { b.count with opened := ⟨isMapping, [], p.tag, m, anchor⟩ :: b.opened }

/-- Closes the innermost collection. -/
def closeNode (b : Builder) : Builder :=
  match b.opened with
  | o :: rest => { b with opened := rest }.enter o.anchor (OpenNode.close o)
  | [] => b

/-- Folds one event of a document. -/
def add (b : Builder) (e : Event) (m : Mark) : Except Fault Builder :=
  match e with
  | .aliasTo name =>
    match b.names.find? (·.1 == name) with
    | some (_, number) => .ok (b.count.enter none (.aliasTo number m))
    | none => .error (.unknownAnchor m)
  | .scalar p text style =>
    let (b, anchor) := b.register p
    .ok (b.count.enter anchor (.scalar text style p.tag m))
  | .sequenceStart p => .ok (b.openNode false p m)
  | .mappingStart p => .ok (b.openNode true p m)
  | .sequenceEnd => .ok b.count.closeNode
  | .mappingEnd => .ok b.count.closeNode
  | _ => .ok b

/-- Marks the break in the innermost collection and closes it, for each open one. -/
def breakOff : Nat → Builder → Builder
  | 0, b => b
  | fuel + 1, b =>
    match b.opened with
    | [] => if b.root.isNone then { b with root := some .cut } else b
    | o :: rest => breakOff fuel ({ b with opened := { o with parts := .cut :: o.parts } :: rest }.closeNode)

/-- Whether a pair names the latest beginning of its number. -/
def isLatest (begins : List (Nat × Nat)) (p : Nat × Nat) : Bool :=
  (begins.find? (·.1 == p.1)).any (·.2 == p.2)

/-- The document that was folded. -/
def finish (b : Builder) (fault : Option Fault) (more : Bool) : Document :=
  let b := b.breakOff (b.opened.length + 1)
  let anchored := (b.begins.filter (isLatest b.begins)).filterMap fun p =>
    (b.nodes.find? (·.1 == p.2)).map fun n => (p.1, n.2)
  ⟨b.root.getD .cut, anchored, b.events, fault, more⟩

end Builder

/-! ## Documents -/

/-- Whether something follows a document. A text that cannot be read on counts. -/
def EventStream.goesOn (s : EventStream) : Bool :=
  match s.next with
  | .ok (.streamEnd, _, _) => false
  | _ => true

/-- Folds the events of the first document. A text has at most a fixed number of events
for each of its characters, which bounds the rounds. -/
def Document.read : Nat → Builder → EventStream → Document
  | 0, b, _ => b.finish none false
  | fuel + 1, b, s =>
    match s.next with
    | .error fault => b.finish (some fault) false
    | .ok (.streamEnd, m, _) => { b.finish none false with root := .void m, events := 1 }
    | .ok (.documentEnd, _, s) => b.finish none s.goesOn
    | .ok (e, m, s) =>
      match b.add e m with
      | .ok b => Document.read fuel b s
      | .error fault => b.finish (some fault) false

/-- The byte offset of the first character that no YAML text holds. -/
def firstControl : Nat → List Char → Option Nat
  | _, [] => none
  | offset, c :: cs => if isAllowed c then firstControl (offset + c.utf8Size) cs else some offset

/-- The first document of a text. -/
def Document.ofText (text : String) : Document :=
  match firstControl 0 text.toList with
  | some offset => Builder.empty.finish (some (.control offset)) false
  | none => Document.read (16 * (text.length + 8)) Builder.empty (EventStream.ofText text)

end PatternAudit.Yaml
