/-
Reports as text for a terminal.

The text is the same with and without colours, except for the sequences that switch
a style on and off around a piece of it.
-/
import PatternAudit.Report.Listing

set_option autoImplicit false

namespace PatternAudit.Pretty

/-! ## Styles -/

/-- A style, by the number of the sequence that switches it on. -/
inductive Style where
  | bold
  | dim
  | red
  | green
  | yellow
  | blue
  | cyan
  | boldCyan

/-- What switches a style on. -/
def Style.on : Style → String
  | bold => "\x1b[1m"
  | dim => "\x1b[2m"
  | red => "\x1b[31m"
  | green => "\x1b[32m"
  | yellow => "\x1b[33m"
  | blue => "\x1b[34m"
  | cyan => "\x1b[36m"
  | boldCyan => "\x1b[1;36m"

/-- What switches every style off. -/
def off : String := "\x1b[0m"

/-- Switches a style on again wherever a text switches it off. -/
def keepOn (style : List Char) : Nat → List Char → List Char
  | 0, cs => cs
  | _ + 1, [] => []
  | fuel + 1, c :: cs =>
    if off.toList.isPrefixOf (c :: cs) then
      off.toList ++ style ++ keepOn style fuel ((c :: cs).drop off.length)
    else c :: keepOn style fuel cs

/-- A piece of text in a style, where there are colours. -/
def styled (color : Bool) (style : Style) (s : String) : String :=
  if color then
    style.on ++ String.ofList (keepOn style.on.toList s.length s.toList) ++ off
  else s

/-- A text filled up with blanks at its end. -/
def padEnd (width : Nat) (s : String) : String :=
  s ++ String.ofList (List.replicate (width - s.length) ' ')

/-- A text filled up with blanks at its front. -/
def padStart (width : Nat) (s : String) : String :=
  String.ofList (List.replicate (width - s.length) ' ') ++ s

/-- A word for one or more things. -/
def counted (n : Nat) (word : String) : String := if n = 1 then word else word ++ "s"

/-! ## Parts of a report -/

/-- What stands before advice, so that it begins below the message. -/
def adviceIndent : String := String.ofList (List.replicate 23 ' ')

/-- The tag of a severity. -/
def tag (color : Bool) : Severity → String
  | .error => "      " ++ styled color .red "ERROR" ++ " "
  | .warning => "      " ++ styled color .yellow "WARN " ++ " "
  | .valid => "      " ++ styled color .green "OK   " ++ " "

/-- A finding: its message, and its advice on lines of their own. -/
def finding (color : Bool) (f : Finding) : String :=
  let advice := match f.suggestion with
    | some s => adviceIndent ++ styled color .dim s ++ "\n"
    | none => ""
  let fix := match f.suggestedFix with
    | some s => adviceIndent ++ styled color .dim "fix:" ++ " " ++ styled color .green s ++ "\n"
    | none => ""
  tag color f.severity ++ styled color .dim (padEnd 14 f.origin.name) ++ f.message ++ "\n"
    ++ advice ++ fix

/-- A group with its findings. -/
def group (color : Bool) (g : Group) : String :=
  let line := if 0 < g.line then styled color .dim (":" ++ toString g.line) else ""
  "    " ++ styled color .blue g.location ++ line ++ "\n"
    ++ "    " ++ styled color .dim "pattern:" ++ " " ++ g.pattern ++ "\n"
    ++ String.join (g.findings.map (finding color)) ++ "\n"

/-- The figures of a report on one line. -/
def figures (color : Bool) (s : Summary) : String :=
  "  " ++ toString s.locations ++ " locations"
    ++ "  " ++ styled color .green (toString s.clean ++ " clean")
    ++ "  " ++ styled color .red (toString s.withError ++ " with errors")
    ++ "  " ++ styled color .yellow (toString s.warningOnly ++ " with warnings") ++ "\n"

/-- The groups that are shown: all, or those that are not clean. -/
def shown (showValid : Bool) (r : Report) : List Group :=
  r.groups.filter fun g => showValid || !g.isClean

/-- The groups that are shown, under their heading. -/
def groups (color : Bool) (gs : List Group) : String :=
  if gs.isEmpty then ""
  else
    "  " ++ styled color .bold "Findings" ++ " (" ++ toString gs.length ++ "):\n\n"
      ++ String.join (gs.map (group color))

/-- The places that were skipped, under their heading. -/
def skipped (color : Bool) (ds : List Diagnostic) : String :=
  if ds.isEmpty then ""
  else
    "  " ++ styled color .dim "Skipped" ++ " (" ++ toString ds.length ++ "):\n"
      ++ String.join (ds.map fun d =>
        "    " ++ styled color .blue d.location ++ "  " ++ styled color .dim d.reason ++ "\n")
      ++ "\n"

/-- A line of the breakdown. -/
def countLine (word : String) (entry : String × Nat) : String :=
  "    " ++ padEnd 40 entry.1 ++ " " ++ padStart 3 (toString entry.2) ++ " "
    ++ counted entry.2 word ++ "\n"

/-- Counts with the largest first; equal counts stay in the order of their names. -/
def mostFrequent (t : Tally) : Tally := t.mergeSort fun a b => b.2 ≤ a.2

/-- Errors by dialect and warnings by message, under their heading. -/
def breakdown (color : Bool) (s : Summary) : String :=
  if s.errorsByDialect.isEmpty && s.warningsByMessage.isEmpty then ""
  else
    "  " ++ styled color .bold "Breakdown:" ++ "\n"
      ++ String.join (s.errorsByDialect.map (countLine "error"))
      ++ String.join ((mostFrequent s.warningsByMessage).map (countLine "warning"))
      ++ "\n"

/-! ## Reports -/

/-- A report. -/
def document (color showValid : Bool) (f : Filed) : String :=
  let r := f.report
  let version := match r.specVersion with
    | some v => styled color .dim (" (" ++ v ++ ")")
    | none => ""
  let dialects :=
    if r.dialects.isEmpty then styled color .dim "none"
    else ", ".intercalate (r.dialects.map Dialect.displayName)
  let id := match f.id with
    | some id =>
      "  " ++ styled color .dim "Result id: " ++ styled color .cyan id
        ++ styled color .dim ("  (" ++ toolName ++ " show " ++ id ++ ")") ++ "\n\n"
    | none => ""
  "  " ++ styled color .dim "Document: " ++ r.document ++ version ++ "\n"
    ++ "  " ++ styled color .dim "Dialects: " ++ dialects ++ "\n\n"
    ++ figures color r.summary ++ "\n"
    ++ groups color (shown showValid r) ++ skipped color r.skipped ++ breakdown color r.summary ++ id

/-- The verdict over all reports. -/
def verdict (color : Bool) (filed : List Filed) (passed : Bool) : String :=
  let total (count : Summary → Nat) : Nat := filed.foldl (fun n f => n + count f.report.summary) 0
  let errors := total fun s => s.errorCount
  let warnings := total fun s => s.warningCount
  "  " ++ styled color .dim (toString filed.length ++ " document(s)")
    ++ "  " ++ styled color .red (toString errors ++ " error(s)")
    ++ "  " ++ styled color .yellow (toString warnings ++ " warning(s)") ++ "  "
    ++ (if passed then styled color .green "PASSED" else styled color .red "FAILED") ++ "\n"

/-- Reports and the verdict over them. -/
def text (color showValid : Bool) (filed : List Filed) (passed : Bool) : String :=
  "\n  " ++ styled color .boldCyan toolName ++ " v" ++ toolVersion ++ "\n\n"
    ++ String.join (filed.map (document color showValid)) ++ verdict color filed passed ++ "\n"

end PatternAudit.Pretty
