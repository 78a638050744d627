/-
Locations and references inside a document.

A location is a fragment such as `#/paths/~1users/get`: the segments lead from
the root to a node, one key or index each. Two characters of a key are written
as escapes, `~` as `~0` and `/` as `~1`, so a segment never holds a slash and
`unescape` gives the key back. A reference may carry percent escapes on top;
they are undone on the bytes of the whole fragment, before it is cut.
-/
import PatternAudit.Json.Basic
import PatternAudit.Text.Utf8
import PatternAudit.Word

set_option autoImplicit false

namespace PatternAudit.Pointer

/-! ## Segments -/

/-- The characters of a key, with `~` and `/` escaped. -/
def escapeChars : List Char → List Char
  | [] => []
  | '~' :: cs => '~' :: '0' :: escapeChars cs
  | '/' :: cs => '~' :: '1' :: escapeChars cs
  | c :: cs => c :: escapeChars cs

/-- The characters of a segment, with its escapes undone; a tilde that starts no
escape stands for itself. -/
def unescapeChars : List Char → List Char
  | [] => []
  | '~' :: '0' :: cs => '~' :: unescapeChars cs
  | '~' :: '1' :: cs => '/' :: unescapeChars cs
  | c :: cs => c :: unescapeChars cs

/-- Writes a key as a segment. -/
def escape (key : String) : String := String.ofList (escapeChars key.toList)

/-- Reads a segment back into a key. -/
def unescape (segment : String) : String := String.ofList (unescapeChars segment.toList)

/-! ## Percent escapes -/

/-- The value of a hexadecimal digit. -/
def hexValue? (b : UInt8) : Option UInt8 :=
  if 48 ≤ b && b ≤ 57 then some (b - 48)
  else if 97 ≤ b && b ≤ 102 then some (b - 87)
  else if 65 ≤ b && b ≤ 70 then some (b - 55)
  else none

/-- The value of the two characters after a percent sign. The first may be a plus
sign, which counts for nothing. -/
def hexPair? (a b : UInt8) : Option UInt8 :=
  if a = 43 then hexValue? b
  else match hexValue? a, hexValue? b with
    | some x, some y => some (x * 16 + y)
    | _, _ => none

/-- Undoes the percent escapes of a text, byte by byte. -/
def decodePercent : List UInt8 → List UInt8
  | b :: x :: y :: rest =>
    if b = 37 then
      match hexPair? x y with
      | some v => v :: decodePercent rest
      | none => b :: decodePercent (x :: y :: rest)
    else b :: decodePercent (x :: y :: rest)
  | bs => bs

/-- Undoes the percent escapes of a text and reads the bytes as UTF-8. -/
def percentDecode (s : String) : String := Text.decodeLossy (decodePercent (Text.bytes s))

/-! ## Following a pointer -/

/-- Cuts a text at every slash. -/
def splitSlash : List Char → List (List Char)
  | [] => [[]]
  | c :: cs =>
    if c = '/' then [] :: splitSlash cs
    else match splitSlash cs with
      | [] => [[c]]
      | seg :: rest => (c :: seg) :: rest

/-- The index that a segment writes: decimal digits, without a leading zero. -/
def index? (segment : List Char) : Option Nat :=
  match segment with
  | [] => none
  | ['0'] => some 0
  | '0' :: _ => none
  | cs => if cs.all (fun c => '0' ≤ c && c ≤ '9') then
      let n := cs.foldl (fun n c => n * 10 + (c.toNat - '0'.toNat)) 0
      if Word.fits 64 n then some n else none
    else none

/-- The node one segment below a node. -/
def child? (node : Json) (segment : List Char) : Option Json :=
  match node with
  | .obj members => Json.lookup (String.ofList (unescapeChars segment)) members
  | .arr items => (index? segment).bind fun i => items[i]?
  | _ => none

/-- The node that a list of segments leads to. -/
def follow? : Json → List (List Char) → Option Json
  | node, [] => some node
  | node, seg :: rest => (child? node seg).bind fun below => follow? below rest

/-- The node that a pointer names: the root for the empty pointer, and otherwise a
slash before each segment. -/
def resolve? (root : Json) (pointer : String) : Option Json :=
  match pointer.toList with
  | [] => some root
  | '/' :: cs => follow? root (splitSlash cs)
  | _ => none

/-- The node that a local reference names; `none` for every reference that does not
start with `#`. -/
def resolveRef? (root : Json) (reference : String) : Option Json :=
  match reference.toList with
  | '#' :: [] => some root
  | '#' :: cs => resolve? root (percentDecode (String.ofList cs))
  | _ => none

/-- Only a reference that starts with `#` names a node. -/
theorem head_of_resolveRef? {root : Json} {reference : String} {node : Json}
    (h : resolveRef? root reference = some node) : reference.toList.head? = some '#' := by
  unfold resolveRef? at h
  split at h
  · rename_i hroot
    rw [hroot]
    rfl
  · rename_i cs _ hlocal
    rw [hlocal]
    rfl
  · cases h

end PatternAudit.Pointer
