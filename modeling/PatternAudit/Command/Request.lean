/-
What can be asked of the program.

There are three commands: to audit descriptions, to show a kept result, and to write a
profile from a template. Two options can be given with any of them; they turn on a log,
which is no part of what a command answers.
-/
import PatternAudit.Command.Read
import PatternAudit.Report.Listing

set_option autoImplicit false

namespace PatternAudit.Command

/-! ## Requests -/

/-- Asks for an audit. -/
structure AuditRequest where
  sources : List String
  profile : Option String
  format : String
  dialects : List String
  checks : List String
  allChecks : Bool
  failOn : Option String
  maxDepth : Option Nat
  ecmaTimeout : Option Nat
  noLineNumbers : Bool
  noCache : Bool
  showValid : Bool
  deriving DecidableEq, Inhabited

/-- Asks for a kept result. -/
structure ShowRequest where
  id : String
  profile : Option String
  format : String
  showValid : Bool
  deriving DecidableEq, Inhabited

/-- Asks for a profile, or for the list of the templates. -/
structure InitRequest where
  output : String
  template : String
  list : Bool
  deriving DecidableEq, Inhabited

/-- What a command line asks for. -/
inductive Request where
  | audit (r : AuditRequest)
  | show (r : ShowRequest)
  | init (r : InitRequest)
  | help (text : String)
  | version
  deriving DecidableEq, Inhabited

/-! ## Grammars -/

/-- An option without a value. -/
def flag (long : String) (short : Option Char) (help : String) : Opt :=
  ⟨long, short, .flag, help, none⟩

/-- An option with a value. -/
def valued (long : String) (short : Option Char) (placeholder : String) (kind : ValueKind)
    (help : String) (default : Option String) : Opt :=
  ⟨long, short, .value placeholder kind, help, default⟩

def verboseOption : Opt := flag "verbose" (some 'v') "Enable debug logging (RUST_LOG overrides)"
def logJsonOption : Opt := flag "log-json" none "Emit logs as JSON lines on stderr"
def helpOption : Opt := ⟨"help", some 'h', .help, "Print help", none⟩
def versionOption : Opt := ⟨"version", some 'V', .version, "Print version", none⟩

def profileOption : Opt :=
  valued "config" (some 'c') "CONFIG" .path "Path to profile YAML file (default: auto-discover)" none
def formatOption : Opt :=
  valued "format" (some 'f') "FORMAT" .text "Output format: pretty, json, or sarif" (some "pretty")
def showValidOption : Opt := flag "show-valid" none "Also list locations without findings"

/-- The command that audits. -/
def auditGrammar : Grammar where
  name := toolName ++ " audit"
  about := "Audit the regex patterns in one or more API documents"
  options := [
    profileOption,
    formatOption,
    valued "dialect" (some 'd') "DIALECTS" .items
      "Dialects to check (pcre, ecma, re2; aliases java, js, go). Replaces the profile's list" none,
    valued "check" none "CHECKS" .items "Checks to enable in addition to the profile's" none,
    verboseOption,
    flag "all-checks" none "Enable every quality and metadata check",
    logJsonOption,
    valued "fail-on" none "FAIL_ON" .text "Fail on: error (default), warning, or never" none,
    valued "max-depth" none "MAX_DEPTH" .number "Maximum schema nesting depth" none,
    valued "ecma-timeout-ms" none "ECMA_TIMEOUT_MS" .number
      "Timeout for one ECMAScript check, in milliseconds" none,
    valued "fetch-timeout" none "FETCH_TIMEOUT" .number
      "Timeout for fetching URL sources, in seconds" (some "30"),
    flag "no-line-numbers" none "Do not look up source line numbers",
    flag "no-cache" none "Do not store results for `oasregex show`",
    showValidOption,
    helpOption]
  operand := some ⟨"SOURCES", true, true,
    "Documents to audit: files, directories, URLs, or \"-\" for stdin"⟩
  branches := false

/-- The command that shows a kept result. -/
def showGrammar : Grammar where
  name := toolName ++ " show"
  about := "Show a previously stored audit result"
  options := [profileOption, formatOption, showValidOption, verboseOption, logJsonOption, helpOption]
  operand := some ⟨"ID", false, true, "Result id printed by a previous audit"⟩
  branches := false

/-- The command that writes a profile. -/
def initGrammar : Grammar where
  name := toolName ++ " init"
  about := "Create a new audit profile from a template"
  options := [
    valued "output" (some 'o') "OUTPUT" .path "Output file path" (some "oasregex.yaml"),
    valued "template" (some 't') "TEMPLATE" .text "Template to use" (some "default"),
    flag "list" (some 'l') "List available templates",
    verboseOption, logJsonOption, helpOption]
  operand := none
  branches := false

/-- The command that helps. -/
def helpGrammar : Grammar where
  name := toolName ++ " help"
  about := "Print this message or the help of the given subcommand(s)"
  options := []
  operand := some ⟨"COMMAND", true, false, "Print help for the subcommand(s)"⟩
  branches := false

/-- The program itself. -/
def programGrammar : Grammar where
  name := toolName
  about := "OpenAPI regex auditor - validates schema patterns across regex dialects and flags risky ones"
  options := [verboseOption, logJsonOption, helpOption, versionOption]
  operand := none
  branches := true

/-- The commands of the program. -/
def commands : List Branch := [
  ⟨"audit", ["check"], auditGrammar⟩,
  ⟨"show", [], showGrammar⟩,
  ⟨"init", [], initGrammar⟩,
  ⟨"help", [], helpGrammar⟩]

/-! ## From a line to a request -/

namespace Request

/-- The value of an option, or what stands for it. -/
def valueOr (t : Taken) (long default : String) : String := (t.values long).head?.getD default

/-- The number given with an option. -/
def number? (t : Taken) (long : String) : Option Nat :=
  (t.values long).head?.bind fun v => (Taken.readNumber v).toOption

/-- The request of the audit command. -/
def audits (t : Taken) : AuditRequest where
  sources := t.operands
  profile := (t.values "config").head?
  format := valueOr t "format" "pretty"
  dialects := t.values "dialect"
  checks := t.values "check"
  allChecks := t.has "all-checks"
  failOn := (t.values "fail-on").head?
  maxDepth := number? t "max-depth"
  ecmaTimeout := number? t "ecma-timeout-ms"
  noLineNumbers := t.has "no-line-numbers"
  noCache := t.has "no-cache"
  showValid := t.has "show-valid"

/-- The request of the show command. -/
def shows (t : Taken) : ShowRequest where
  id := t.operands.head?.getD ""
  profile := (t.values "config").head?
  format := valueOr t "format" "pretty"
  showValid := t.has "show-valid"

/-- The request of the init command. -/
def inits (t : Taken) : InitRequest where
  output := valueOr t "output" "oasregex.yaml"
  template := valueOr t "template" "default"
  list := t.has "list"

/-- The help asked for by the names of commands. -/
def helpOn (names : List String) : Except String Request :=
  match names with
  | [] => .ok (.help (programGrammar.helpText commands))
  | name :: more =>
    match branch? commands name with
    | none => .error ((Refusal.unknownCommand name []).message programGrammar)
    | some b =>
      match more with
      | [] => .ok (.help (b.grammar.helpText []))
      | other :: _ => .error ((Refusal.unknownCommand other []).message b.grammar)

/-- What reading a line came to: a request, or a message why there is none. -/
def ofStop (g : Grammar) (branches : List Branch) : Stop → Except String Request
  | .help => .ok (.help (g.helpText branches))
  | .version => .ok .version
  | .bare => .error (g.helpText branches)
  | .refused r => .error (r.message g)

/-- The request of a command and the rest of the line. -/
def ofCommand (b : Branch) (rest : List String) : Except String Request :=
  if b.name = "help" then helpOn rest
  else match read b.grammar [] rest with
    | .error stop => ofStop b.grammar [] stop
    | .ok (t, _) =>
      .ok (if b.name = "audit" then .audit (audits t)
        else if b.name = "show" then .show (shows t)
        else .init (inits t))

/-- The request of a command line, or the message why it is refused. -/
def ofArguments (arguments : List String) : Except String Request :=
  match read programGrammar commands arguments with
  | .error stop => ofStop programGrammar commands stop
  | .ok (_, some (b, rest)) => ofCommand b rest
  | .ok (_, none) => ofStop programGrammar commands .bare

end Request

end PatternAudit.Command
