/-
Audit profiles: which dialects and checks run, how far the walk goes, what is
left out, and what makes an audit fail.

A profile is a YAML record in which every field may be missing. Names of
dialects and globs are kept as they are written: a lenient audit passes over
those that cannot be used, and `validate` refuses the profile for the first.
-/
import PatternAudit.Dialect.Ecma.Thread
import PatternAudit.Error
import PatternAudit.Glob.Match
import PatternAudit.Report.Form
import PatternAudit.Walk.Expand
import PatternAudit.Yaml.Fit

set_option autoImplicit false

namespace PatternAudit

/-! ## What makes an audit fail -/

/-- Which findings make an audit fail. -/
inductive FailOn where
  | error
  | warning
  | never
  deriving DecidableEq, Inhabited

namespace FailOn

/-- The policies, strictest last. -/
def all : List FailOn := [error, warning, never]

/-- The name of a policy. -/
def name : FailOn → String
  | error => "error"
  | warning => "warning"
  | never => "never"

/-- The policy of a name, without regard to case. -/
def ofName? (s : String) : Option FailOn :=
  match Text.lower s with
  | "error" => some error
  | "warning" => some warning
  | "never" => some never
  | _ => none

/-- The complaint about a name that belongs to no policy. -/
def unknownName (s : String) : String :=
  "invalid fail-on " ++ Text.quoted s ++ ", must be 'error', 'warning' or 'never'"

/-- Whether reports pass under a policy. -/
def passes (p : FailOn) (reports : List Report) : Bool :=
  match p with
  | error => reports.all fun r => !r.hasErrors
  | warning => reports.all fun r => !r.hasErrors && !r.hasWarnings
  | never => true

end FailOn

/-! ## Profiles -/

/-- Whether and how long results are kept. -/
structure CacheSettings where
  enabled : Bool
  /-- seconds after which a result is gone -/
  ttl : Nat
  maxEntries : Nat
  deriving DecidableEq, Inhabited

/-- The settings of a profile that says nothing about the cache. -/
def CacheSettings.default : CacheSettings := ⟨true, 3600, 500⟩

/-- An audit profile. -/
structure Profile where
  version : String
  name : String
  description : Option String
  /-- names and aliases of dialects -/
  dialects : List String
  checks : Checks
  limits : Walk.Limits
  /-- milliseconds after which one check under ECMAScript is given up -/
  ecmaTimeout : Nat
  /-- globs over locations to leave out -/
  excluded : List String
  /-- whether findings get the lines of their patterns -/
  lineNumbers : Option Bool
  failOn : FailOn
  cache : CacheSettings

namespace Profile

/-- The profile that says nothing. -/
def default : Profile where
  version := ""
  name := ""
  description := none
  dialects := [Dialect.pcre.name]
  checks := Checks.none
  limits := Walk.Limits.default
  ecmaTimeout := Ecma.defaultTimeout
  excluded := []
  lineNumbers := none
  failOn := .error
  cache := CacheSettings.default

/-! ## Reading and writing -/

/-- The form of a profile's text. -/
def shape : Shape :=
  .record "AuditConfig"
    [("version", .optional, .string), ("name", .optional, .string),
      ("description", .optional, .optionalText), ("dialects", .optional, .sequence .string),
      ("checks", .optional, Checks.shape), ("max_depth", .optional, .count),
      ("max_ref_expansions", .optional, .count), ("ecma_timeout_ms", .optional, .natural "u64"),
      ("excluded_locations", .optional, .sequence .string),
      ("line_numbers", .optional, .nullable .boolean),
      ("fail_on", .optional, .variant (FailOn.all.map FailOn.name)),
      ("cache", .optional, .record "CacheConfig"
        [("enabled", .optional, .boolean), ("ttl_secs", .optional, .natural "u64"),
          ("max_entries", .optional, .count)])]

/-- A member of a fitted tree, or what stands for it when it is missing. -/
def member {α : Type} (v : Json) (key : String) (read : Json → α) (missing : α) : α :=
  ((v.get? key).map read).getD missing

/-- A truth value. -/
def truth : Json → Bool
  | .bool b => b
  | _ => false

/-- The texts of a list. -/
def texts (v : Json) : List String := (v.asArr?.getD []).filterMap Json.asStr?

/-- The cache settings of a fitted tree. -/
def cacheOfJson (v : Json) : CacheSettings where
  enabled := member v "enabled" truth CacheSettings.default.enabled
  ttl := member v "ttl_secs" Json.natural CacheSettings.default.ttl
  maxEntries := member v "max_entries" Json.natural CacheSettings.default.maxEntries

/-- The profile of a fitted tree. -/
def ofJson (v : Json) : Profile where
  version := v.textAt "version"
  name := v.textAt "name"
  description := v.text?At "description"
  dialects := member v "dialects" texts default.dialects
  checks := member v "checks" Checks.ofJson default.checks
  limits := ⟨member v "max_depth" Json.natural default.limits.maxDepth,
    member v "max_ref_expansions" Json.natural default.limits.budget⟩
  ecmaTimeout := member v "ecma_timeout_ms" Json.natural default.ecmaTimeout
  excluded := member v "excluded_locations" texts default.excluded
  lineNumbers := (v.get? "line_numbers").bind fun b => match b with
    | .bool b => some b
    | _ => none
  failOn := (((v.get? "fail_on").bind Json.asStr?).bind FailOn.ofName?).getD default.failOn
  cache := member v "cache" cacheOfJson default.cache

/-- Reads a profile. -/
def parse (text : String) : Except Error Profile :=
  match Yaml.Fit.text shape text with
  | .ok v => .ok (ofJson v)
  | .error failure => .error (.profile failure.message)

/-- The tree of a profile, with everything that it leaves unsaid. -/
def toJson (p : Profile) : Json :=
  .obj [("version", .str p.version), ("name", .str p.name),
    ("description", (p.description.map Json.str).getD .null),
    ("dialects", .arr (p.dialects.map Json.str)), ("checks", p.checks.toJson),
    ("max_depth", .ofNat p.limits.maxDepth), ("max_ref_expansions", .ofNat p.limits.budget),
    ("ecma_timeout_ms", .ofNat p.ecmaTimeout),
    ("excluded_locations", .arr (p.excluded.map Json.str)),
    ("line_numbers", (p.lineNumbers.map Json.bool).getD .null), ("fail_on", .str p.failOn.name),
    ("cache", .obj [("enabled", .bool p.cache.enabled), ("ttl_secs", .ofNat p.cache.ttl),
      ("max_entries", .ofNat p.cache.maxEntries)])]

/-! ## What a profile asks for -/

/-- The dialects in the order in which they are first named. Unknown names are passed
over. -/
def activeDialects (p : Profile) : List Dialect :=
  (p.dialects.filterMap Dialect.ofName?).foldl (fun ds d => if d ∈ ds then ds else ds ++ [d]) []

/-- Whether findings get the lines of their patterns. -/
def resolvesLines (p : Profile) : Bool := p.lineNumbers.getD true

/-- The globs that can be used. -/
def exclusions (p : Profile) : List (List GlobPart) :=
  p.excluded.filterMap fun g => (Glob.read g).toOption

/-- Whether a location is left out. -/
def excludes (p : Profile) (location : String) : Bool :=
  p.exclusions.any fun g => Glob.isMatch g location

/-! ## Validation -/

/-- The first element for which a test finds fault. -/
def firstFault {α ε : Type} (test : α → Except ε Unit) : List α → Except ε Unit
  | [] => .ok ()
  | a :: rest => match test a with
    | .ok () => firstFault test rest
    | .error e => .error e

/-- Refuses a setting that is zero. -/
def positive (setting : String) (n : Nat) : Except Error Unit :=
  if n = 0 then .error (.profile (setting ++ " must be at least 1")) else .ok ()

/-- Refuses a name of no dialect. -/
def knownDialect (name : String) : Except Error Unit :=
  if (Dialect.ofName? name).isSome then .ok () else .error (.profile (Dialect.unknownName name))

/-- Refuses a glob that cannot be used. -/
def usableGlob (glob : String) : Except Error Unit :=
  match Glob.read glob with
  | .ok _ => .ok ()
  | .error f => .error (.profile ("invalid excluded_locations pattern " ++ Text.quoted glob ++ ": "
      ++ f.message glob))

/-- Refuses a profile that asks for nothing, or for something that cannot be done. -/
def validate (p : Profile) : Except Error Unit := do
  if p.dialects.isEmpty && !p.checks.anyPattern && !p.checks.anyMetadata then
    .error (.profile "profile enables no dialects and no checks")
  else do
    firstFault knownDialect p.dialects
    positive "max_depth" p.limits.maxDepth
    positive "max_ref_expansions" p.limits.budget
    positive "ecma_timeout_ms" p.ecmaTimeout
    firstFault usableGlob p.excluded
    positive "cache.max_entries" p.cache.maxEntries

end Profile

end PatternAudit
