/-
Running the program.

A run sees a world: the files, the standard input, the clock. It is on a machine, which does
not always do what it is asked for: a file may not be written to its end, and a check may not
be answered in time. The run answers an outcome: the exit code, what is written to the two
outputs, and the files as they are afterwards. Nothing else passes between the program and
what is around it.
-/
import PatternAudit.Batch
import PatternAudit.Cache.Basic
import PatternAudit.Command.Request
import PatternAudit.Command.Template
import PatternAudit.Report.Pretty
import PatternAudit.Report.Sarif

set_option autoImplicit false

namespace PatternAudit.Command

open Files (Device Disk Fault Path)

/-! ## Worlds and outcomes -/

/-- What a run sees. -/
structure World where
  disk : Disk
  inlets : Source.Inlets
  /-- nanoseconds -/
  now : Nat
  /-- where results are kept -/
  cacheDirectory : Option Path
  /-- whether the output is in colour -/
  color : Bool

/-- What a run is carried out on. -/
structure Machine where
  /-- the storage of the files that are written -/
  device : Device := .sound
  /-- the engines of the dialects, when a check under ECMAScript may take some milliseconds -/
  engines : Nat → Dialect → Engine := Dialect.enginesWithin fun _ => .answers 0

/-- What comes of a run. -/
structure Outcome where
  exitCode : Nat
  output : String
  errors : String
  disk : Disk
  /-- the ids of the results that were kept, in the order of their reports -/
  ids : List (Option String)

/-- An outcome that changes no file. -/
def World.says (w : World) (exitCode : Nat) (output errors : String) : Outcome :=
  ⟨exitCode, output, errors, w.disk, []⟩

/-- An outcome of a run that could not do what was asked. -/
def World.fails (w : World) (message : String) : Outcome :=
  w.says 2 "" ("Error: " ++ message ++ "\n")

/-- The texts of a failure and of what is behind it. -/
def chain : Error → List String
  | .io cause => [(Error.io cause).message, cause]
  | e => [e.message]

/-- Texts, each of which says more closely what the one before means. -/
def explained (texts : List String) : String := ": ".intercalate texts

/-! ## Formats -/

/-- The formats of reports. -/
inductive Format where
  | pretty
  | json
  | sarif
  deriving DecidableEq, Inhabited

namespace Format

/-- The format of a name. -/
def ofName? : String → Option Format
  | "pretty" => some pretty
  | "json" => some json
  | "sarif" => some sarif
  | _ => none

/-- The complaint about a name that belongs to no format. -/
def unknownName (s : String) : String :=
  "invalid format " ++ Text.quoted s ++ ", must be 'pretty', 'json', or 'sarif'"

/-- Reports in a format. -/
def render (f : Format) (color showValid : Bool) (filed : List Filed) (passed : Bool) : String :=
  match f with
  | pretty => Pretty.text color showValid filed passed
  | json => Json.Write.pretty 0 (Listing.ofFiled filed passed).toJson ++ "\n"
  | sarif => Json.Write.pretty 0 (Sarif.Log.ofReports (filed.map (·.report))).toJson ++ "\n"

end Format

/-! ## Profiles -/

/-- The files that are taken for the profile if none is named. -/
def profileNames : List String := ["oasregex.yaml", ".oasregex.yaml", "regex-audit.yaml"]

/-- The profile of a run: the named one, the first that is there, or the default. -/
def loadProfile (d : Disk) (named : Option String) : Except String Profile :=
  match named.or (profileNames.find? fun name => d.exists? (Path.ofText name)) with
  | none => .ok .default
  | some name =>
    let read := do
      let text ← (d.readText (Path.ofText name)).mapError Source.ioError
      Profile.parse text
    read.mapError fun e => explained (("reading profile " ++ name) :: chain e)

/-- Turns on a check by name. -/
def enable (c : Checks) (name : String) : Except String Checks :=
  match c.enable? name with
  | some c => .ok c
  | none =>
    .error ("unknown check " ++ Text.quoted name ++ ", must be one of: "
      ++ ", ".intercalate Checks.names)

/-- A profile with what a request changes in it. -/
def override (p : Profile) (r : AuditRequest) : Except String Profile := do
  let checks ← r.checks.foldlM enable (if r.allChecks then .all else p.checks)
  let failOn ← match r.failOn with
    | none => .ok p.failOn
    | some name => match FailOn.ofName? name with
      | some policy => .ok policy
      | none => .error (FailOn.unknownName name)
  return { p with
    dialects := if r.dialects.isEmpty then p.dialects else r.dialects
    checks
    failOn
    limits := { p.limits with maxDepth := r.maxDepth.getD p.limits.maxDepth }
    ecmaTimeout := r.ecmaTimeout.getD p.ecmaTimeout
    lineNumbers := if r.noLineNumbers then some false else p.lineNumbers
    cache := { p.cache with enabled := p.cache.enabled && !r.noCache } }

/-! ## Audit -/

/-- The cache of a run. -/
def openCache (m : Machine) (w : World) (p : Profile) : Cache :=
  Cache.empty w.cacheDirectory p.cache.ttl p.cache.maxEntries 0 m.device

/-- Keeps reports. A report that cannot be kept goes without an id. -/
def keepAll (c : Cache) (d : Disk) (now made : Nat) : List Report → List (Option String) × Disk
  | [] => ([], d)
  | r :: rest =>
    let kept := c.insert d now made r
    let others := keepAll kept.2.1 kept.2.2 now (made + 1) rest
    (kept.1.toOption :: others.1, others.2)

/-- Keeps the reports of a run, if its profile says so. -/
def keepReports (m : Machine) (w : World) (p : Profile) (reports : List Report) :
    List (Option String) × Disk :=
  if p.cache.enabled then
    let c := openCache m w p
    keepAll c (c.prepare w.disk) w.now 0 reports
  else (reports.map fun _ => none, w.disk)

/-- Audits sources under a profile. -/
def auditSources (m : Machine) (w : World) (p : Profile) (f : Format) (showValid : Bool)
    (sources : List Source) : Outcome :=
  let batch := Batch.ofSources (m.engines p.ecmaTimeout) p
    (Source.loadAll w.disk w.inlets sources)
  let (ids, disk) := keepReports m w p batch.reports
  let filed := (batch.reports.zip ids).map fun e => (⟨e.1, e.2⟩ : Filed)
  { exitCode := batch.exitCode p
    output := f.render w.color showValid filed (batch.passed p)
    errors := String.join
      (batch.failures.map fun e => "Error: " ++ e.1 ++ ": " ++ e.2.message ++ "\n")
    disk
    ids }

/-- Runs the audit command. -/
def runAudit (m : Machine) (w : World) (r : AuditRequest) : Outcome :=
  match Format.ofName? r.format with
  | none => w.fails (Format.unknownName r.format)
  | some f =>
    match do override (← loadProfile w.disk r.profile) r with
    | .error message => w.fails message
    | .ok p =>
      match p.validate with
      | .error e => w.fails e.message
      | .ok () =>
        match Source.ofArguments w.disk r.sources with
        | .error problem =>
          w.fails (explained (chain (.io problem.message)
            ++ (problem.cause?.map Fault.message).toList))
        | .ok [] => w.says 0 "" "Warning: no documents to audit\n"
        | .ok sources => auditSources m w p f r.showValid sources

/-! ## Show -/

/-- Runs the show command. -/
def runShow (m : Machine) (w : World) (r : ShowRequest) : Outcome :=
  match Format.ofName? r.format with
  | none => w.fails (Format.unknownName r.format)
  | some f =>
    match loadProfile w.disk r.profile with
    | .error message => w.fails message
    | .ok p =>
      let c := openCache m w p
      let (found, _, disk) := c.get (c.prepare w.disk) w.now r.id
      match found with
      | none =>
        { w.fails ("no stored result " ++ Text.quoted r.id ++ " (unknown or expired)") with disk }
      | some report =>
        let passed := p.failOn.passes [report]
        { exitCode := if passed then 0 else 1
          output := f.render w.color r.showValid [⟨report, some r.id⟩] passed
          errors := ""
          disk
          ids := [] }

/-! ## Init -/

/-- The list of the templates. -/
def templateList : String :=
  let row (t : Template) : String :=
    let name := if t.name = "default" then t.name ++ " (default)" else t.name
    "  " ++ Grammar.filled 20 name ++ " " ++ t.description ++ "\n"
  "Available templates:\n\n" ++ String.join (Template.all.map row)
    ++ "\nUsage:\n  oasregex init --template <name>\n"

/-- What is said about a profile that was written. -/
def created (output : String) (t : Template) : String :=
  "Created " ++ output ++ " from template '" ++ t.name ++ "'\n\nNext steps:\n  1. Edit " ++ output
    ++ " to choose dialects and checks\n  2. Run: oasregex audit openapi.yaml --config " ++ output
    ++ "\n"

/-- Makes the directory that a file is to be written in. -/
def makeParent (d : Disk) (output : String) : Except String Disk :=
  match Path.parent? output with
  | none => .ok d
  | some "" => .ok d
  | some parent =>
    (d.makeDirectories (Path.ofText parent)).mapError fun fault =>
      explained ["creating directory " ++ parent, fault.message]

/-- Runs the init command. -/
def runInit (m : Machine) (w : World) (r : InitRequest) : Outcome :=
  if r.list then w.says 0 templateList ""
  else match Template.ofName? r.template with
    | none =>
      w.says 2 "" ("Error: unknown template " ++ Text.quoted r.template
        ++ "\nRun 'oasregex init --list' to see available templates\n")
    | some t =>
      let path := Path.ofText r.output
      if w.disk.exists? path then
        w.says 2 "" ("Error: file already exists: " ++ r.output
          ++ "\nRemove it or use --output to specify a different path\n")
      else
        match makeParent w.disk r.output with
        | .error message => w.fails message
        | .ok d =>
          match d.writeTo m.device path (.text t.text) w.now with
          | (.error fault, left) =>
            let message := explained ["writing profile " ++ r.output, fault.message]
            { w.fails message with disk := left }
          | (.ok (), written) => { w.says 0 (created r.output t) "" with disk := written }

/-! ## The program -/

/-- Does what is asked for. -/
def serve (m : Machine) (w : World) : Request → Outcome
  | .audit r => runAudit m w r
  | .show r => runShow m w r
  | .init r => runInit m w r
  | .help text => w.says 0 text ""
  | .version => w.says 0 (toolName ++ " " ++ toolVersion ++ "\n") ""

/-- Runs the program on a command line. -/
def run (w : World) (arguments : List String) (m : Machine := {}) : Outcome :=
  match Request.ofArguments arguments with
  | .error message => w.says 2 "" message
  | .ok request => serve m w request

/-! ## What a run may look at -/

/-- The paths of the files that a request may read, apart from kept results. -/
def Request.reads : Request → List String
  | .audit r =>
    (r.sources.filter fun s => s ≠ "-" && !Source.isAddress s)
      ++ (match r.profile with
        | some name => [name]
        | none => profileNames)
  | .show r =>
    match r.profile with
    | some name => [name]
    | none => profileNames
  | .init r => [r.output]
  | _ => []

/-- Whether a request reads the standard input. -/
def Request.readsInput : Request → Bool
  | .audit r => r.sources.contains "-"
  | _ => false

/-- The id of the kept result that a request asks for. -/
def Request.id? : Request → Option String
  | .show r => if Cache.isId r.id then some r.id else none
  | _ => none

end PatternAudit.Command
