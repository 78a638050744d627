/-
Profiles to start from.
-/

set_option autoImplicit false

namespace PatternAudit.Command

/-- A profile to start from: its name, what it is for, and its lines. -/
structure Template where
  name : String
  description : String
  lines : List String
  deriving DecidableEq, Inhabited

namespace Template

/-- The text of a template. -/
def text (t : Template) : String := String.join (t.lines.map fun line => line ++ "\n")

/-- The template for one engine that backtracks. -/
def standard : Template where
  name := "default"
  description := "PCRE syntax plus anchoring and permissiveness checks"
  lines := [
    "# oasregex audit profile",
    "#",
    "# Run with: oasregex audit openapi.yaml --config oasregex.yaml",
    "version: \"1\"",
    "name: \"default\"",
    "description: \"PCRE syntax plus anchoring and permissiveness checks\"",
    "",
    "# Regex dialects every pattern must compile under.",
    "# pcre (java, perl, python), ecma (js, javascript), re2 (go, rust)",
    "dialects:",
    "  - pcre",
    "",
    "checks:",
    "  permissive: true",
    "  anchors: true",
    "  backtracking: false",
    "  operation_id: false",
    "  summary: false",
    "  schema_description: false",
    "  schema_example: false",
    "  path_naming: false",
    "",
    "# Locations to leave out, as globs over JSON pointers",
    "excluded_locations: []",
    "",
    "# error | warning | never",
    "fail_on: error"]

/-- The template for patterns that several engines run. -/
def polyglot : Template where
  name := "polyglot"
  description := "Patterns must compile under PCRE, ECMAScript and RE2"
  lines := [
    "# oasregex audit profile for APIs validated by several runtimes",
    "#",
    "# Patterns must compile under the backtracking (PCRE/Java), browser",
    "# (ECMAScript) and linear-time (RE2/Go) engines alike.",
    "version: \"1\"",
    "name: \"polyglot\"",
    "description: \"Patterns must compile under PCRE, ECMAScript and RE2\"",
    "",
    "dialects:",
    "  - pcre",
    "  - ecma",
    "  - re2",
    "",
    "checks:",
    "  permissive: true",
    "  anchors: true",
    "  backtracking: true",
    "",
    "# Upper bound on one ECMAScript syntax check",
    "ecma_timeout_ms: 2000",
    "",
    "fail_on: error"]

/-- The template with everything on. -/
def strict : Template where
  name := "strict"
  description := "Every dialect and every check; warnings fail the audit"
  lines := [
    "# oasregex audit profile: everything on, warnings fail",
    "version: \"1\"",
    "name: \"strict\"",
    "description: \"Every dialect and every check; warnings fail the audit\"",
    "",
    "dialects: [pcre, ecma, re2]",
    "",
    "checks:",
    "  permissive: true",
    "  anchors: true",
    "  backtracking: true",
    "  operation_id: true",
    "  summary: true",
    "  schema_description: true",
    "  schema_example: true",
    "  path_naming: true",
    "",
    "max_depth: 64",
    "max_ref_expansions: 10000",
    "line_numbers: true",
    "fail_on: warning",
    "",
    "cache:",
    "  enabled: true",
    "  ttl_secs: 3600",
    "  max_entries: 500"]

/-- The template without patterns. -/
def hygiene : Template where
  name := "api-hygiene"
  description := "Operation, schema and path metadata checks only"
  lines := [
    "# oasregex audit profile for API metadata only",
    "version: \"1\"",
    "name: \"api-hygiene\"",
    "description: \"Operation, schema and path metadata checks only\"",
    "",
    "# No regex dialects; only the metadata checks below run.",
    "dialects: []",
    "",
    "checks:",
    "  operation_id: true",
    "  summary: true",
    "  schema_description: true",
    "  schema_example: true",
    "  path_naming: true",
    "",
    "fail_on: warning"]

/-- All templates. -/
def all : List Template := [standard, polyglot, strict, hygiene]

/-- The template of a name. -/
def ofName? (name : String) : Option Template := all.find? fun t => t.name = name

end Template

end PatternAudit.Command
