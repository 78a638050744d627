/-
Why a command line is refused.

The message names what is wrong, may give a tip, and for faults in the shape of the line
repeats how the command is used.
-/
import PatternAudit.Command.Grammar

set_option autoImplicit false

namespace PatternAudit.Command

/-- What may have been meant. -/
inductive Tip where
  | similarOption (o : Opt)
  /-- an option of another command -/
  | elsewhere (command long : String)
  /-- an argument that looks like an option -/
  | asValue (argument : String)
  /-- a command that stands behind `--` -/
  | withoutDashes (command : String)
  deriving DecidableEq, Inhabited

/-- A fault in a command line. `used` are the options that were understood. -/
inductive Refusal where
  | noCommand (names : List String)
  | unknownCommand (name : String) (similar : List String)
  | unexpected (argument : String) (tip : Option Tip) (used : List Opt)
  | unexpectedValue (value : String) (o : Opt) (used : List Opt)
  | noValue (o : Opt)
  | invalidValue (value : String) (o : Opt) (reason : String)
  | repeated (o : Opt)
  | noOperand (used : List Opt)
  deriving DecidableEq, Inhabited

/-- The text of a tip. -/
def Tip.text : Tip → String
  | similarOption o => "a similar argument exists: '--" ++ o.long ++ "'"
  | elsewhere command long => "'" ++ command ++ " --" ++ long ++ "' exists"
  | asValue argument => "to pass '" ++ argument ++ "' as a value, use '-- " ++ argument ++ "'"
  | withoutDashes command =>
    "subcommand '" ++ command ++ "' exists; to use it, remove the '--' before it"

namespace Refusal

/-- The tip about commands with similar names. -/
def similarCommands : List String → List String
  | [] => []
  | [name] => ["a similar subcommand exists: '" ++ name ++ "'"]
  | names => ["some similar subcommands exist: " ++ ", ".intercalate (names.map fun n => "'" ++ n ++ "'")]

/-- What is wrong. -/
def complaint (g : Grammar) : Refusal → String
  | noCommand names =>
    "'" ++ g.name ++ "' requires a subcommand but one was not provided\n  [subcommands: "
      ++ ", ".intercalate names ++ "]"
  | unknownCommand name _ => "unrecognized subcommand '" ++ name ++ "'"
  | unexpected argument _ _ => "unexpected argument '" ++ argument ++ "' found"
  | unexpectedValue value o _ =>
    "unexpected value '" ++ value ++ "' for '" ++ o.text ++ "' found; no more were expected"
  | noValue o => "a value is required for '" ++ o.text ++ "' but none was supplied"
  | invalidValue value o reason =>
    "invalid value '" ++ value ++ "' for '" ++ o.text ++ "': " ++ reason
  | repeated o => "the argument '" ++ o.text ++ "' cannot be used multiple times"
  | noOperand _ =>
    "the following required arguments were not provided:"
      ++ String.join (g.operand.toList.map fun o => "\n  " ++ o.text)

/-- The tips, each on a line of its own. -/
def tips : Refusal → List String
  | unknownCommand _ similar => similarCommands similar
  | unexpected _ tip _ => (tip.map Tip.text).toList
  | _ => []

/-- How the command is used, for faults in the shape of the line. -/
def usage? (g : Grammar) : Refusal → Option String
  | noValue _ => none
  | invalidValue _ _ _ => none
  | unexpected _ _ used => some (g.usageWith used)
  | unexpectedValue _ _ used => some (g.usageWith used)
  | noOperand used => some (g.usageOnly used)
  | _ => some g.usage

/-- Whether the command has a help option that the message can point to. -/
def pointsToHelp (g : Grammar) : Bool := g.options.any fun o => o.action = .help

/-- The message of a refusal. -/
def message (g : Grammar) (r : Refusal) : String :=
  "error: " ++ r.complaint g
    ++ (if r.tips.isEmpty then "" else "\n" ++ String.join (r.tips.map fun t => "\n  tip: " ++ t))
    ++ (match r.usage? g with
      | some line => "\n\nUsage: " ++ line
      | none => "")
    ++ (if pointsToHelp g then "\n\nFor more information, try '--help'.\n" else "\n")

end Refusal

end PatternAudit.Command
