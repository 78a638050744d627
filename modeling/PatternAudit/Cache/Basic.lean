/-
Reports that are kept for later.

Results are kept in memory and, if the cache has a directory, in one file for each id, so
that another run finds them. A result is gone when its lifetime is over. There is a limit
on how many are kept: past it the oldest entries in memory go, and of the files those that
were changed longest ago.

Every operation takes the time, the cache and the disk and answers the cache and the disk
as they are afterwards. Times are nanoseconds; ages are counted in whole seconds.
-/
import PatternAudit.Cache.Entry
import PatternAudit.Cache.Id
import PatternAudit.Files.Device
import PatternAudit.Profile

set_option autoImplicit false

namespace PatternAudit

open Files (Device Disk Path)

/-- A cache: what it holds in memory, and what it goes by. -/
structure Cache where
  kept : List (String × Cache.Entry)
  /-- the directory of the files, if results outlive the run -/
  directory : Option Path
  /-- the storage of the files -/
  device : Device
  /-- seconds -/
  lifetime : Nat
  limit : Nat
  /-- the sequence number of the next result -/
  next : Nat
  limit_pos : 0 < limit

namespace Cache

/-- The whole seconds of a time. -/
def seconds (now : Nat) : Nat := now / 1000000000

/-! ## Opening -/

/-- An empty cache under settings. It keeps at least one result. -/
def empty (directory : Option Path) (lifetime limit next : Nat) (device : Device := .sound) :
    Cache where
  kept := []
  directory
  device
  lifetime
  limit := max limit 1
  next
  limit_pos := by omega

/-- The disk with the directory of a cache, which is made if that is possible. -/
def prepare (c : Cache) (d : Disk) : Disk :=
  match c.directory with
  | some p => (d.makeDirectories p).toOption.getD d
  | none => d

/-- The number of results in memory. -/
def size (c : Cache) : Nat := c.kept.length

/-! ## Entries in memory -/

/-- Sets the entry of an id. -/
def putKept (id : String) (e : Entry) : List (String × Entry) → List (String × Entry)
  | [] => [(id, e)]
  | (k, v) :: rest => if k = id then (k, e) :: rest else (k, v) :: putKept id e rest

/-- Drops the entry of an id. -/
def dropKept (id : String) (kept : List (String × Entry)) : List (String × Entry) :=
  kept.filter fun e => e.1 ≠ id

/-- The ids of the entries past the limit, oldest first. -/
def surplus (limit : Nat) (kept : List (String × Entry)) : List String :=
  ((kept.mergeSort fun a b => a.2.isOlder b.2).take (kept.length - limit)).map Prod.fst

/-! ## Files -/

/-- The file of an id. -/
def file? (c : Cache) (id : String) : Option Path :=
  c.directory.map fun p => p.append (Path.ofText (id ++ ".json"))

/-- Removes the file of an id, if there is one. -/
def discard (c : Cache) (d : Disk) (id : String) : Disk :=
  match c.file? id with
  | some p => d.removeFrom c.device p
  | none => d

/-- The entry in the file of an id. -/
def entryIn? (c : Cache) (d : Disk) (id : String) : Option Entry := do
  let p ← c.file? id
  Entry.ofText? (← (d.readText p).toOption)

/-- Writes the file of an id. -/
def writeEntry (c : Cache) (d : Disk) (id : String) (e : Entry) (now : Nat) :
    Except Files.Fault Unit × Disk :=
  match c.file? id with
  | some p => d.writeTo c.device p (.text e.text) now
  | none => (.ok (), d)

/-- What a cache directory holds: when it was changed, and the names. A directory in it counts
like a file if it is named like one. -/
def listed (device : Device) (d : Disk) (directory : Path) : List (Nat × String) :=
  match d.names directory with
  | .error _ => []
  | .ok names => names.filterMap fun name =>
    if Path.extension? name = some "json" then
      (d.date? device (directory.append ⟨false, [name]⟩)).map fun time => (time, name)
    else none

/-- Whether a file was changed no later than another one; names decide ties. -/
def changedFirst (a b : Nat × String) : Bool := a.1 < b.1 || (a.1 == b.1 && a.2 ≤ b.2)

/-- The names of the files past the limit, longest unchanged first. -/
def stale (limit : Nat) (files : List (Nat × String)) : List String :=
  ((files.mergeSort changedFirst).take (files.length - limit)).map Prod.snd

/-- Removes the files past the limit. -/
def prune (c : Cache) (d : Disk) : Disk :=
  match c.directory with
  | none => d
  | some directory =>
    (stale c.limit (listed c.device d directory)).foldl
      (fun d name => d.removeFrom c.device (directory.append ⟨false, [name]⟩)) d

/-! ## Operations -/

/-- Keeps an entry under an id and drops the entries past the limit, with their files. -/
def keep (c : Cache) (d : Disk) (id : String) (e : Entry) : Cache × Disk :=
  let kept := putKept id e c.kept
  let gone := surplus c.limit kept
  ({ c with kept := gone.foldl (fun k i => dropKept i k) kept, next := c.next + 1 },
    gone.foldl c.discard d)

/-- Stores a report under an id. -/
def store (c : Cache) (d : Disk) (now : Nat) (id : String) (report : Report) :
    Except Error Report × Cache × Disk :=
  if !isId id then (.error (invalidId id), c, d)
  else
    let e : Entry := ⟨report, seconds now, c.next⟩
    let (c', d') := c.keep d id e
    match c'.writeEntry d' id e now with
    | (.error fault, left) => (.error (.io fault.message), c', left)
    | (.ok (), written) => (.ok report, c', c'.prune written)

/-- Drops the result of an id. -/
def remove (c : Cache) (d : Disk) (id : String) : Cache × Disk :=
  ({ c with kept := dropKept id c.kept }, c.discard d id)

/-- The result of an id, unless it is gone. What is found in a file is kept in memory. -/
def get (c : Cache) (d : Disk) (now : Nat) (id : String) : Option Report × Cache × Disk :=
  if !isId id then (none, c, d)
  else
    match (Json.lookup id c.kept).filter (Entry.isFresh c.lifetime (seconds now)) with
    | some e => (some e.report, c, d)
    | none =>
      match c.entryIn? d id with
      | none => (none, c, d)
      | some e =>
        if e.isFresh c.lifetime (seconds now) then
          (some e.report, { c with kept := putKept id e c.kept }, d)
        else (none, c.remove d id)

/-- Stores a report under a new id. -/
def insert (c : Cache) (d : Disk) (now made : Nat) (report : Report) :
    Except Error String × Cache × Disk :=
  let id := mintId now made
  let stored := c.store d now id report
  (stored.1.map fun _ => id, stored.2)

end Cache

end PatternAudit
