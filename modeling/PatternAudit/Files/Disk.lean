/-
Reading and changing files.

A disk is a tree and the place that relative paths start from. Every operation takes a
path and follows it to a place; `remove` alone acts on the last name itself, so that a
link goes and not what it leads to. An operation fails for its path alone, and then leaves
the disk as it was.
-/
import PatternAudit.Files.Tree

set_option autoImplicit false

namespace PatternAudit.Files

/-- A file system and its current directory. -/
structure Disk where
  root : Node
  current : Place
  deriving Inhabited

namespace Disk

/-! ## Looking -/

/-- Whether no name of a path has the character that no name can have. -/
def wellNamed (p : Path) : Bool := p.pieces.all fun piece => !piece.toList.contains '\x00'

/-- The place that a path leads to. -/
def locate (d : Disk) (p : Path) : Except Fault Place :=
  if !wellNamed p then .error .badName
  else if p.pieces.isEmpty then .error .missing
  else d.root.resolve Node.maxLinks d.current p

/-- The node that a path leads to. -/
def find (d : Disk) (p : Path) : Except Fault Node := do
  match d.root.get? (← d.locate p) with
  | some node => .ok node
  | none => .error .missing

/-- Whether a path leads to something. -/
def exists? (d : Disk) (p : Path) : Bool := (d.find p).toBool

/-- Whether a path leads to a directory. -/
def isDirectory (d : Disk) (p : Path) : Bool :=
  match d.find p with
  | .ok (.directory _) => true
  | _ => false

/-- The text of a file. -/
def readText (d : Disk) (p : Path) : Except Fault String := do
  match ← d.find p with
  | .file f => f.content.text?
  | _ => .error .isDirectory

/-- The names in a directory. -/
def names (d : Disk) (p : Path) : Except Fault (List String) := do
  match ← d.find p with
  | .directory es => .ok (es.map Prod.fst)
  | _ => .error .notDirectory

/-- The place of the last name of a path. A link of that name is not followed. -/
def locateName (d : Disk) (p : Path) : Except Fault Place :=
  match p.pieces.reverse with
  | [] => .error .missing
  | name :: rest =>
    if !wellNamed p then .error .badName
    else if name.isEmpty || name = "." || name = ".." then .error .isDirectory
    else do
      let place ← d.root.resolve Node.maxLinks d.current { p with pieces := rest.reverse }
      d.root.step (fun directory _ => .ok (directory ++ [name])) place name

/-! ## Changing -/

/-- The place of the file that a path leads to, which may be missing. A slash at the end asks
for a directory. -/
def locateFile (d : Disk) (p : Path) : Except Fault Place := do
  let pieces := (p.pieces.reverse.dropWhile String.isEmpty).reverse
  let place ← d.locate { p with pieces }
  match d.root.get? place with
  | some (.directory _) => .error .isDirectory
  | _ => if pieces ≠ p.pieces then .error .isDirectory else .ok place

/-- The disk with a file set at a place. -/
def setFile (d : Disk) (place : Place) (f : File) : Disk :=
  { d with root := d.root.put place (.file f) }

/-- Writes a file, which is made if it is missing. -/
def write (d : Disk) (p : Path) (content : Content) (now : Nat) : Except Fault Disk := do
  return d.setFile (← d.locateFile p) ⟨content, now⟩

/-- Removes a file or a link. -/
def remove (d : Disk) (p : Path) : Except Fault Disk := do
  let place ← d.locateName p
  match d.root.get? place with
  | none => .error .missing
  | some (.directory _) => .error .isDirectory
  | some _ => .ok { d with root := d.root.erase place }

/-- Makes a directory in an existing one. -/
def makeDirectory (d : Disk) (p : Path) : Except Fault Disk := do
  let place ← d.locateName p
  match d.root.get? place with
  | some _ => .error .occupied
  | none => .ok { d with root := d.root.put place (.directory []) }

/-- Makes a link. -/
def makeLink (d : Disk) (p target : Path) : Except Fault Disk := do
  let place ← d.locateName p
  match d.root.get? place with
  | some _ => .error .occupied
  | none => .ok { d with root := d.root.put place (.link target) }

/-- What became of making a directory, which may be there already. -/
def settled (d : Disk) (p : Path) : Except Fault Disk → Except Fault Disk
  | .ok made => .ok made
  | .error fault => if d.isDirectory p then .ok d else .error fault

/-- Makes the directory of the pieces, which come last first, and those above it. -/
def makeAll (d : Disk) (absolute : Bool) : List String → Except Fault Disk
  | [] => .ok d
  | piece :: above =>
    let p : Path := ⟨absolute, (piece :: above).reverse⟩
    match d.makeDirectory p with
    | .error .missing => do
      let d' ← makeAll d absolute above
      settled d' p (d'.makeDirectory p)
    | made => settled d p made

/-- Makes a directory and those above it, unless they are there. -/
def makeDirectories (d : Disk) (p : Path) : Except Fault Disk :=
  d.makeAll p.absolute (p.pieces.reverse.dropWhile String.isEmpty)

end Disk

end PatternAudit.Files
