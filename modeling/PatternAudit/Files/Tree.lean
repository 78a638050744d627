/-
A file system as a tree.

A node is a file, a directory or a symbolic link. A place is the list of the names on
the way down from the root, and `get?`, `put` and `erase` look at, set and clear a
place; no link is followed there. `resolve` follows a path from a place, link after
link, and answers the place it leads to. The last name of a path may be missing,
because a path can also say where something is to be made.
-/
import PatternAudit.Files.Fault
import PatternAudit.Files.Path
import PatternAudit.Json.Basic
import PatternAudit.Text.Utf8

set_option autoImplicit false

namespace PatternAudit.Files

/-! ## Nodes -/

/-- What a file holds: a text, or bytes that are none. -/
inductive Content where
  | text (s : String)
  | bytes (bs : List UInt8)
  deriving DecidableEq, Inhabited

namespace Content

/-- The content of some bytes. -/
def ofBytes (bs : List UInt8) : Content :=
  match Text.decodeChars? bs with
  | some cs => .text (String.ofList cs)
  | none => .bytes bs

/-- The text of a content. -/
def text? : Content → Except Fault String
  | text s => .ok s
  | bytes _ => .error .notText

/-- The text of a content, with U+FFFD for each malformed piece. -/
def lossy : Content → String
  | text s => s
  | bytes bs => Text.decodeLossy bs

end Content

/-- A file, with the time of its last change. -/
structure File where
  content : Content
  modified : Nat
  deriving DecidableEq, Inhabited

/-- A node of the tree. -/
inductive Node where
  | file (f : File)
  | directory (entries : List (String × Node))
  | link (target : Path)
  deriving Inhabited

/-- The names on the way down from the root. -/
abbrev Place := List String

/-! ## Entries -/

/-- The entries of a directory with the given one set. -/
def putEntry (name : String) (node : Node) : List (String × Node) → List (String × Node)
  | [] => [(name, node)]
  | (n, v) :: rest => if n = name then (n, node) :: rest else (n, v) :: putEntry name node rest

/-- The entries of a directory without the given one. -/
def eraseEntry (name : String) (entries : List (String × Node)) : List (String × Node) :=
  entries.filter fun e => e.1 ≠ name

namespace Node

/-- The entries of a directory; nothing else has any. -/
def entries : Node → List (String × Node)
  | directory es => es
  | _ => []

/-! ## Places -/

/-- The node at a place. -/
def get? : Place → Node → Option Node
  | [], node => some node
  | name :: rest, directory es => (Json.lookup name es).bind (get? rest)
  | _ :: _, _ => none

/-- The tree with a node set at a place below an existing directory. -/
def put : Place → Node → Node → Node
  | [], _, new => new
  | [name], directory es, new => directory (putEntry name new es)
  | name :: rest, directory es, new =>
    match Json.lookup name es with
    | some child => directory (putEntry name (put rest child new) es)
    | none => directory es
  | _ :: _, node, _ => node

/-- The tree with nothing at a place. -/
def erase : Place → Node → Node
  | [], node => node
  | [name], directory es => directory (eraseEntry name es)
  | name :: rest, directory es =>
    match Json.lookup name es with
    | some child => directory (putEntry name (erase rest child) es)
    | none => directory es
  | _ :: _, node => node

mutual

/-- The files of a tree that stands at a place. -/
def filesAt (place : Place) : Node → List (Place × File)
  | file f => [(place, f)]
  | directory es => filesIn place es
  | link _ => []

/-- The files of the entries of a directory that stands at a place. -/
def filesIn (place : Place) : List (String × Node) → List (Place × File)
  | [] => []
  | (name, node) :: rest => filesAt (place ++ [name]) node ++ filesIn place rest

end

/-! ## Following paths -/

/-- The longest name, in bytes. -/
def maxName : Nat := 255

/-- Follows one piece from a place. `follow` follows the target of a link from the
place of its directory. -/
def step (root : Node) (follow : Place → Path → Except Fault Place) (place : Place)
    (piece : String) : Except Fault Place :=
  match root.get? place with
  | none => .error .missing
  | some (file _) => .error .notDirectory
  | some (link _) => .error .tooManyLinks
  | some (directory es) =>
    if piece.isEmpty || piece = "." then .ok place
    else if piece = ".." then .ok place.dropLast
    else if maxName < piece.utf8ByteSize then .error .nameTooLong
    else match Json.lookup piece es with
      | some (link target) => follow place target
      | _ => .ok (place ++ [piece])

/-- Follows a path from a place, through as many links within links as the fuel says. -/
def resolve (root : Node) : Nat → Place → Path → Except Fault Place
  | 0, _, _ => .error .tooManyLinks
  | fuel + 1, place, path =>
    path.pieces.foldlM (step root (resolve root fuel)) (if path.absolute then [] else place)

/-- Links within links that may be followed. -/
def maxLinks : Nat := 40

end Node

end PatternAudit.Files
