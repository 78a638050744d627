/-
What a command line may say.

A grammar names the options of a command and what it takes besides them. The usage line
and the help text are read off the grammar, so nothing about an option is said twice.
-/

set_option autoImplicit false

namespace PatternAudit.Command

/-! ## Grammars -/

/-- What the value of an option may be. -/
inductive ValueKind where
  | text
  /-- a text that is not empty -/
  | path
  /-- a number below `2^64` -/
  | number
  /-- texts with commas between them; the option may be given again for more -/
  | items
  deriving DecidableEq, Inhabited

/-- What an option does. -/
inductive Action where
  | flag
  | help
  | version
  | value (placeholder : String) (kind : ValueKind)
  deriving DecidableEq, Inhabited

/-- An option. -/
structure Opt where
  long : String
  short : Option Char
  action : Action
  help : String
  default : Option String
  deriving DecidableEq, Inhabited

/-- What a command takes besides options. -/
structure Operand where
  name : String
  many : Bool
  required : Bool
  help : String
  deriving DecidableEq, Inhabited

/-- The grammar of a command. -/
structure Grammar where
  /-- how the command is called -/
  name : String
  about : String
  options : List Opt
  operand : Option Operand
  /-- whether one of several commands has to follow -/
  branches : Bool
  deriving DecidableEq, Inhabited

/-- A command that can follow the name of the program. -/
structure Branch where
  name : String
  aliases : List String
  grammar : Grammar
  deriving DecidableEq, Inhabited

/-! ## Usage -/

/-- An option as messages write it. -/
def Opt.text (o : Opt) : String :=
  match o.action with
  | .value placeholder _ => "--" ++ o.long ++ " <" ++ placeholder ++ ">"
  | _ => "--" ++ o.long

/-- An operand as messages write it. -/
def Operand.text (o : Operand) : String :=
  (if o.required then "<" ++ o.name ++ ">" else "[" ++ o.name ++ "]") ++ if o.many then "..." else ""

namespace Grammar

/-- What follows the options on a usage line. -/
def usageEnd (g : Grammar) : List String :=
  (g.operand.map Operand.text).toList ++ if g.branches then ["<COMMAND>"] else []

/-- How the command is used. -/
def usage (g : Grammar) : String :=
  " ".intercalate
    (g.name :: (if g.options.isEmpty then [] else ["[OPTIONS]"]) ++ g.usageEnd)

/-- How the command is used with certain options; without any, how it is used. -/
def usageWith (g : Grammar) (used : List Opt) : String :=
  if used.isEmpty then g.usage else " ".intercalate (g.name :: used.map Opt.text ++ g.usageEnd)

/-- How the command is used with certain options and nothing else. -/
def usageOnly (g : Grammar) (used : List Opt) : String :=
  " ".intercalate (g.name :: used.map Opt.text ++ g.usageEnd)

/-! ## Help -/

/-- A text filled up to a width. -/
def filled (width : Nat) (s : String) : String :=
  s ++ String.ofList (List.replicate (width - s.length) ' ')

/-- The width of the widest text. -/
def widest (texts : List String) : Nat := texts.foldl (fun n s => max n s.length) 0

/-- Rows of a name and what is said about it, side by side. -/
def sideBySide (rows : List (String × String)) : String :=
  let width := widest (rows.map Prod.fst)
  String.join (rows.map fun r => "  " ++ filled width r.1 ++ "  " ++ r.2 ++ "\n")

/-- Rows of a name and, on a line of its own, what is said about it. -/
def oneBelowOther (rows : List (String × String)) : String :=
  String.join (rows.map fun r => "  " ++ r.1 ++ "\n          " ++ r.2 ++ "\n")

/-- An option as the help text writes it. -/
def optionRow (o : Opt) : String × String :=
  ((match o.short with
    | some c => "-" ++ c.toString ++ ", "
    | none => "    ") ++ o.text,
    o.help ++ match o.default with
      | some d => " [default: " ++ d ++ "]"
      | none => "")

/-- The columns of a help text. -/
def columns : Nat := 100

/-- Whether what is said about the options needs lines of its own: the names take more
than two fifths of the columns, and something does not fit beside them. -/
def needsLines (options : List Opt) : Bool :=
  let taken := widest (options.map Opt.text) + 12
  2 * columns < 5 * taken && (options.any fun o => columns < taken + (optionRow o).2.length)

/-- A part of the help text under its heading. -/
def headed (heading body : String) : String :=
  if body.isEmpty then "" else "\n" ++ heading ++ ":\n" ++ body

/-- A command as the help text writes it. -/
def branchRow (b : Branch) : String × String :=
  (b.name, b.grammar.about ++ match b.aliases with
    | [] => ""
    | [a] => " [alias: " ++ a ++ "]"
    | as => " [aliases: " ++ ", ".intercalate as ++ "]")

/-- The help text. -/
def helpText (g : Grammar) (branches : List Branch) : String :=
  let options := g.options.map optionRow
  g.about ++ "\n\nUsage: " ++ g.usage ++ "\n"
    ++ headed "Commands" (sideBySide (branches.map branchRow))
    ++ headed "Arguments" (sideBySide (g.operand.toList.map fun o => (o.text, o.help)))
    ++ headed "Options" (if needsLines g.options then oneBelowOther options else sideBySide options)

end Grammar

end PatternAudit.Command
