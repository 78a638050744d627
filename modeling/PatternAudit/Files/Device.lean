/-
Changing files on storage that can fail.

A file is made, or emptied, before anything is written to it. So there are two ways in which
a write can fail even though the path is right: the storage refuses to open the file, and
everything stays as it was; or it takes only a beginning of the content, which is what the
file holds from then on. Removing a file either succeeds or changes nothing. What the storage
does is not up to the program, so it is a parameter; `Device.sound` does whatever it is asked.
-/
import PatternAudit.Files.Disk

set_option autoImplicit false

namespace PatternAudit.Files

/-! ## Contents -/

namespace Content

/-- The bytes of a content. -/
def toBytes : Content → List UInt8
  | text s => Text.bytes s
  | bytes bs => bs

/-- The number of bytes of a content. -/
def size : Content → Nat
  | text s => s.utf8ByteSize
  | bytes bs => bs.length

/-- The first bytes of a content. -/
def beginning (n : Nat) (c : Content) : Content := ofBytes (c.toBytes.take n)

end Content

/-! ## Devices -/

/-- What becomes of a content that is to be written to a file. -/
inductive Reception where
  | whole
  /-- the file cannot be opened -/
  | refused (fault : Fault)
  /-- nothing is taken after the first bytes -/
  | cut (taken : Nat) (fault : Fault)
  deriving DecidableEq, Inhabited

/-- The storage that a disk is on. -/
structure Device where
  /-- what becomes of a content that is to be written by a path at a time -/
  receives : Disk → Path → Content → Nat → Reception
  /-- whether what a path names can be removed -/
  releases : Disk → Path → Bool
  /-- when the directory of a path was changed -/
  touched : Disk → Path → Nat

/-- Storage that refuses nothing, and on which directories are older than all files. -/
def Device.sound : Device := ⟨fun _ _ _ _ => .whole, fun _ _ => true, fun _ _ => 0⟩

namespace Disk

/-- Writes a file on a device. -/
def writeTo (device : Device) (d : Disk) (p : Path) (content : Content) (now : Nat) :
    Except Fault Unit × Disk :=
  match d.locateFile p with
  | .error fault => (.error fault, d)
  | .ok place =>
    match device.receives d p content now with
    | .whole => (.ok (), d.setFile place ⟨content, now⟩)
    | .refused fault => (.error fault, d)
    | .cut taken fault =>
      if content.size ≤ taken then (.ok (), d.setFile place ⟨content, now⟩)
      else (.error fault, d.setFile place ⟨content.beginning taken, now⟩)

/-- Removes a file or a link from a device, if there is one that can be removed. -/
def removeFrom (device : Device) (d : Disk) (p : Path) : Disk :=
  if device.releases d p then (d.remove p).toOption.getD d else d

/-- When what a path leads to was changed. -/
def date? (device : Device) (d : Disk) (p : Path) : Option Nat :=
  match d.find p with
  | .ok (.file f) => some f.modified
  | .ok _ => some (device.touched d p)
  | .error _ => none

end Disk

end PatternAudit.Files
