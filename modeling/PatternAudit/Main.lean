/-
The program.

The files that a request may read are looked at first and planted in a disk where their
paths lead, and of a directory that is a source all that a walk of it can come to. The run
itself is a function of that disk, the standard input and the clock. Afterwards the files
that the run changed are written, and those that it removed are removed.
-/
import PatternAudit.Command.Run
import Std.Time.DateTime.Timestamp

set_option autoImplicit false

namespace PatternAudit.Program

open Command Files

/-! ## Planting -/

/-- What there is under a path. -/
inductive Sight where
  | file (content : Content)
  | directory
  | missing
  /-- something above the path is no directory -/
  | blocked

/-- Looks at what there is under a path. -/
def look (path : String) : IO Sight := do
  try
    let bytes ← IO.FS.readBinFile path
    return .file (.ofBytes bytes.toList)
  catch e => match e with
    | .inappropriateType _ code _ => return if code = 21 then .directory else .blocked
    | .noFileOrDirectory _ _ _ => return .missing
    | other => throw other

/-- The place of a path, by its names alone. -/
def placeOf (current : Place) (p : Path) : Place :=
  p.pieces.foldl (fun place piece =>
    if piece.isEmpty || piece = "." then place
    else if piece = ".." then place.dropLast
    else place ++ [piece]) (if p.absolute then [] else current)

/-- A disk with directories all the way down to a place. -/
def opened (d : Disk) (place : Place) : Disk :=
  (d.makeDirectories ⟨true, place⟩).toOption.getD d

/-- A disk with a node at a place. -/
def plant (d : Disk) (place : Place) (node : Node) : Disk :=
  let d := opened d place.dropLast
  { d with root := d.root.put place node }

/-- A disk on which a path leads to what there is under it. The directories on it have no
more entries than were planted. -/
def reveal (d : Disk) (path : String) : IO Disk := do
  let place := placeOf d.current (Path.ofText path)
  match ← look path with
  | .file content => return plant d place (.file ⟨content, 0⟩)
  | .directory => return opened d place
  | .missing => return opened d place.dropLast
  | .blocked => return plant d place.dropLast (.file ⟨.text "", 0⟩)

/-! ## Directories -/

/-- The text of a place. -/
def textOf (place : Place) : String := "/" ++ "/".intercalate place

/-- The place that a path leads to when all links are followed. -/
def realPlace (path : String) : IO Place := do
  return placeOf [] (Path.ofText (toString (← IO.FS.realPath path)))

/-- A disk, and the directories whose entries are planted on it. -/
structure Ground where
  disk : Disk
  listed : List Place

/-- The ground with a node at a place, unless there is something. -/
def Ground.reserve (g : Ground) (place : Place) (node : Node) : Ground :=
  if (g.disk.root.get? place).isSome then g else { g with disk := plant g.disk place node }

/-- The ground with a link at a place, unless there is something. -/
def Ground.join (g : Ground) (place target : Place) : Ground :=
  let made := (opened g.disk place.dropLast).makeLink ⟨true, place⟩ ⟨true, target⟩
  { g with disk := made.toOption.getD g.disk }

mutual

/-- The ground with the entries of a directory and all below them. -/
partial def Ground.list (g : Ground) (place : Place) : IO Ground := do
  if g.listed.contains place then return g
  let directory := (← IO.currentDir) / textOf place
  let mut g : Ground := ⟨opened g.disk place, place :: g.listed⟩
  for entry in ← directory.readDir do
    g ← g.entry (place ++ [entry.fileName]) entry.fileName (← entry.path.symlinkMetadata).type
  return g

/-- The ground with an entry of a directory. Only documents are read, and what is behind a
link, which may have the name of one. -/
partial def Ground.entry (g : Ground) (place : Place) (name : String) (kind : IO.FS.FileType) :
    IO Ground := do
  match kind with
  | .file =>
    if Discovery.isDocument name then return { g with disk := ← reveal g.disk (textOf place) }
    else return g.reserve place (.file ⟨.text "", 0⟩)
  | .dir =>
    if Discovery.isPassedOver name then return g.reserve place (.directory []) else g.list place
  | .symlink =>
    match ← look (textOf place) with
    | .file content =>
      let target ← realPlace (textOf place)
      let g := g.join place target
      return { g with disk := plant g.disk target (.file ⟨content, 0⟩) }
    | .directory =>
      let target ← realPlace (textOf place)
      let g := g.join place target
      if Discovery.isPassedOver name then return g.reserve target (.directory []) else g.list target
    -- no name has this character, so the link leads to nothing
    | _ => return g.join place ["\x00"]
  | .other => return g

end

/-- A disk on which the directory of a path has its entries. -/
def listed (d : Disk) (path : String) : IO Disk := do
  let place := placeOf d.current (Path.ofText path)
  let target ← realPlace path
  let d := if target = place then d else plant d place (.link ⟨true, target⟩)
  return (← (Ground.mk d []).list target).disk

/-! ## Surroundings -/

/-- Everything that is left on a stream. -/
partial def drain (stream : IO.FS.Stream) (read : ByteArray) : IO ByteArray := do
  let more ← stream.read 65536
  if more.isEmpty then return read else drain stream (read ++ more)

/-- The directory of the kept results. -/
def resultsDirectory : IO (Option String) := do
  let named := ((← IO.getEnv "XDG_CACHE_HOME").filter fun s => s.startsWith "/")
  let home := (← IO.getEnv "HOME").map fun s => s ++ "/.cache"
  return (named.or home).map fun s => s ++ "/" ++ toolName ++ "/results"

/-- Whether the output is in colour. -/
def wantsColor : IO Bool := do
  let forced := ((← IO.getEnv "CLICOLOR_FORCE").getD "0") ≠ "0"
  if forced then return true
  if (← IO.getEnv "NO_COLOR").isSome then return false
  return ((← IO.getEnv "CLICOLOR").getD "1") ≠ "0" && (← (← IO.getStdout).isTty)

/-- The nanoseconds on the clock. -/
def clock : IO Nat := do
  return (← Std.Time.Timestamp.now).toNanosecondsSinceUnixEpoch.val.toNat

/-- What a request is served with. -/
def worldOf (request : Request) : IO World := do
  let current := placeOf [] (Path.ofText (toString (← IO.currentDir)))
  let mut disk := opened ⟨.directory [], current⟩ current
  for path in request.reads do
    disk ← reveal disk path
  if let .audit r := request then
    for source in r.sources do
      if disk.isDirectory (Path.ofText source) then disk ← listed disk source
  let results ← resultsDirectory
  if let some directory := results then
    if let some id := request.id? then
      disk ← reveal disk (directory ++ "/" ++ id ++ ".json")
  let input ← if request.readsInput then drain (← IO.getStdin) .empty else pure .empty
  return {
    disk
    inlets := ⟨.ofBytes input.toList, fun address => .error (.fetch address "no network")⟩
    now := ← clock
    cacheDirectory := results.map Path.ofText
    color := ← wantsColor }

/-! ## Changes -/

/-- Does to the files what a run did to the disk. -/
def settle (before after : Disk) : IO Unit := do
  let old := before.root.filesAt []
  let new := after.root.filesAt []
  for (place, f) in new do
    unless old.contains (place, f) do
      IO.FS.createDirAll (textOf place.dropLast)
      IO.FS.writeFile (textOf place) f.content.lossy
  for (place, _) in old do
    unless new.any fun e => e.1 = place do
      IO.FS.removeFile (textOf place)

/-- Serves a request. -/
def serveRequest (request : Request) : IO UInt32 := do
  let w ← worldOf request
  let outcome := serve {} w request
  settle w.disk outcome.disk
  IO.print outcome.output
  IO.eprint outcome.errors
  return outcome.exitCode.toUInt32

end PatternAudit.Program

open PatternAudit in
/-- Runs the program on its arguments. -/
def main (arguments : List String) : IO UInt32 := do
  match Command.Request.ofArguments arguments with
  | .error message =>
    IO.eprint message
    return 2
  | .ok request =>
    try Program.serveRequest request
    catch e =>
      IO.eprintln s!"Error: {e}"
      return 2
