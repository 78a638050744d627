/-
Where descriptions come from.

A source is a file, the standard input or an address. A file is explicit if it was named,
and discovered if it was found in a directory that was named; a discovered file may have
nothing to do with any API.
-/
import PatternAudit.Description
import PatternAudit.Files.Discovery

set_option autoImplicit false

namespace PatternAudit

open Files (Content Disk Fault Obstacle Path)

/-- A source of one description. -/
inductive Source where
  | file (path : String) (explicit : Bool)
  | standardInput
  | url (address : String)
  deriving DecidableEq, Inhabited

/-- Why sources cannot be listed. -/
inductive Source.Problem where
  | inaccessible (argument : String) (fault : Fault)
  | obstacle (o : Obstacle)
  deriving DecidableEq

/-- The text of a problem. -/
def Source.Problem.message : Source.Problem → String
  | inaccessible argument fault => "cannot access " ++ argument ++ ": " ++ fault.message
  | obstacle o => o.message

/-- The fault behind a problem, if its text is not all that there is to say. -/
def Source.Problem.cause? : Source.Problem → Option Fault
  | inaccessible _ _ => none
  | obstacle (.unreadable _ fault) => some fault
  | obstacle (.circle _ _) => none

namespace Source

/-- The name of a source in reports. -/
def name : Source → String
  | file path _ => path
  | standardInput => "stdin"
  | url address => address

/-- Whether a source was found in a directory. -/
def isDiscovered : Source → Bool
  | file _ explicit => !explicit
  | _ => false

/-! ## Listing -/

/-- Whether an argument is an address. -/
def isAddress (argument : String) : Bool :=
  argument.startsWith "http://" || argument.startsWith "https://"

/-- The sources that an argument stands for. -/
def ofArgument (d : Disk) (argument : String) : Except Problem (List Source) :=
  if argument = "-" then .ok [standardInput]
  else if isAddress argument then .ok [url argument]
  else
    let path := Path.ofText argument
    match d.locate path, d.find path with
    | .ok place, .ok (.directory es) =>
      match Files.Discovery.below d argument place es with
      | .ok paths => .ok (paths.map fun p => file p false)
      | .error o => .error (.obstacle o)
    | _, .ok _ => .ok [file argument true]
    | _, .error fault => .error (.inaccessible argument fault)

/-- The sources that arguments stand for, in their order. -/
def ofArguments (d : Disk) (arguments : List String) : Except Problem (List Source) :=
  return (← arguments.mapM (ofArgument d)).flatten

/-! ## Loading -/

/-- What there is to load from besides files. -/
structure Inlets where
  standardInput : Content
  /-- what is found at an address -/
  fetch : String → Except Error String

/-- A failure of a file as a failure to load. -/
def ioError (fault : Fault) : Error := .io fault.message

/-- Loads the description of a source. -/
def load (d : Disk) (inlets : Inlets) (s : Source) : Except Error Description := do
  let text ← match s with
    | file path _ => (d.readText (Path.ofText path)).mapError ioError
    | standardInput => inlets.standardInput.text?.mapError ioError
    | url address => inlets.fetch address
  Description.parse s.name text

/-- Loads every source. The standard input is read once, and empty after that. -/
def loadAll (d : Disk) (inlets : Inlets) : List Source → List (Source × Except Error Description)
  | [] => []
  | s :: rest =>
    let left := if s = standardInput then { inlets with standardInput := .text "" } else inlets
    (s, s.load d inlets) :: loadAll d left rest

end Source

end PatternAudit
