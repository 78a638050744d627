/-
The documents below a directory.

A document is a file with one of three extensions. Directories that are hidden, or that
hold what others wrote, are passed over with all that is below them; the directory that
the walk starts from is walked whatever its name. The entries of a directory come in
the order of their names.

`documents` goes down the tree. Links are left to a function, `behind`, so that on a
tree without links the walk is a plain recursion on the tree. `enter` ties the knot: a
link to a directory is walked like a directory, unless it leads back to one that the
walk is in.
-/
import PatternAudit.Files.Disk

set_option autoImplicit false

namespace PatternAudit.Files

/-- A directory or file that a walk has come to: where it is, and the path that the walk
took. -/
structure Visit where
  place : Place
  path : String
  deriving DecidableEq, Inhabited

/-- Why a walk cannot go on. -/
inductive Obstacle where
  | unreadable (path : String) (fault : Fault)
  /-- a link that leads back to a directory the walk is in -/
  | circle (path ancestor : String)
  deriving DecidableEq, Inhabited

/-- The text of an obstacle. -/
def Obstacle.message : Obstacle → String
  | unreadable path fault => "IO error for operation on " ++ path ++ ": " ++ fault.message
  | circle path ancestor =>
    "File system loop found: " ++ path ++ " points to an ancestor " ++ ancestor

namespace Discovery

/-! ## Names -/

/-- The extensions of documents. -/
def extensions : List String := ["yaml", "yml", "json"]

/-- Whether a file of this name is a document. -/
def isDocument (name : String) : Bool :=
  match Path.extension? name with
  | some extension => extensions.contains extension
  | none => false

/-- Whether a directory of this name is passed over. -/
def isPassedOver (name : String) : Bool :=
  name.startsWith "." || name = "node_modules" || name = "target"

/-! ## The walk -/

/-- What is found in the entries of a directory, one after another in the order of their
names, up to the first obstacle. -/
def inOrder (found : List (String × Except Obstacle (List String))) :
    Except Obstacle (List String) :=
  return (← (found.mergeSort fun a b => a.1 ≤ b.1).mapM Prod.snd).flatten

/-- What a walk does with a link: the directories that it is in, innermost first, the
link, and its name. -/
abbrev Behind := List Visit → Visit → String → Except Obstacle (List String)

mutual

/-- The documents at an entry of a directory. -/
def documents (behind : Behind) (trail : List Visit) (here : Visit) (name : String) :
    Node → Except Obstacle (List String)
  | .file _ => .ok (if isDocument name then [here.path] else [])
  | .link _ => behind trail here name
  | .directory es =>
    if isPassedOver name then .ok [] else inOrder (found behind (here :: trail) here es)

/-- The documents at each entry of a directory. -/
def found (behind : Behind) (trail : List Visit) (directory : Visit) :
    List (String × Node) → List (String × Except Obstacle (List String))
  | [] => []
  | (name, node) :: rest =>
    (name, documents behind trail
      ⟨directory.place ++ [name], Path.joinText directory.path name⟩ name node)
      :: found behind trail directory rest

end

/-- The documents in a directory, whatever its name. -/
def within (behind : Behind) (trail : List Visit) (here : Visit) (es : List (String × Node)) :
    Except Obstacle (List String) :=
  inOrder (found behind (here :: trail) here es)

/-- The documents behind a link. A link is followed however deep the links are that lead
to it, as far as the fuel goes. -/
def enter (root : Node) : Nat → Behind
  | 0, _, here, _ => .error (.unreadable here.path .tooManyLinks)
  | fuel + 1, trail, here, name =>
    match root.resolve Node.maxLinks here.place.dropLast ⟨false, here.place.getLast?.toList⟩ with
    | .error fault => .error (.unreadable here.path fault)
    | .ok place =>
      match root.get? place with
      | some (.file _) => .ok (if isDocument name then [here.path] else [])
      | some (.directory es) =>
        match trail.find? fun v => v.place = place with
        | some ancestor => .error (.circle here.path ancestor.path)
        | none =>
          if isPassedOver name then .ok []
          else within (enter root fuel) trail ⟨place, here.path⟩ es
      | _ => .error (.unreadable here.path .missing)

/-- The documents below the directory of a path. -/
def below (d : Disk) (path : String) (place : Place) (es : List (String × Node)) :
    Except Obstacle (List String) :=
  within (enter d.root Node.maxLinks) [] ⟨place, path⟩ es

end Discovery

end PatternAudit.Files
