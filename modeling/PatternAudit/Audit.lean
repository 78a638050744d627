/-
An audit of one description.

The walk gives items, and every item gives findings, which depend on nothing but the
item and the plan: `Plan.findings`. A pattern is checked under each dialect, then for
its quality, and all of its findings carry its line; an element of the description is
checked for what people read. Excluded places give nothing. A pattern that is not
excluded has a group even without findings.

The engines are part of the plan, so that everything but their verdicts can be said
of an audit without them.
-/
import PatternAudit.Description
import PatternAudit.Dialect.Validate
import PatternAudit.Lines
import PatternAudit.Pattern.Quality
import PatternAudit.Profile
import PatternAudit.Walk.Run

set_option autoImplicit false

namespace PatternAudit

/-- What an audit is to do. -/
structure Plan where
  dialects : List Dialect
  engines : Dialect → Engine
  checks : Checks
  limits : Walk.Limits
  /-- whether a location is left out -/
  excludes : String → Bool
  /-- whether findings get the lines of their patterns -/
  resolvesLines : Bool

namespace Plan

/-- The plan of a profile, for any engines. -/
def ofProfile (engines : Dialect → Engine) (p : Profile) : Plan :=
  let globs := p.exclusions
  { dialects := p.activeDialects
    engines
    checks := p.checks
    limits := p.limits
    excludes := fun location => globs.any fun g => Glob.isMatch g location
    resolvesLines := p.resolvesLines }

/-! ## Items -/

/-- The findings on a pattern that is written on the given line. -/
def patternFindings (p : Plan) (line : Nat) (location pattern : String) : List Finding :=
  (p.dialects.map (fun d => d.validateWith (p.engines d) location pattern)
    ++ Pattern.check location pattern p.checks).map (·.atLine line)

/-- The findings on an item. `lineOf` gives the line of a pattern. -/
def findings (p : Plan) (lineOf : String → Nat) (item : Walk.Item) : List Finding :=
  if p.excludes item.location then []
  else match item with
    | .pattern location pattern => p.patternFindings (lineOf pattern) location pattern
    | .operation o => Api.checkOperation o p.checks
    | .schema s => Api.checkSchema s p.checks
    | .path e => Api.checkPath e p.checks
    | .skipped _ _ => []

/-- Sees to it that a pattern has a group. -/
def openItem (p : Plan) (g : Grouper) : Walk.Item → Grouper
  | .pattern location pattern =>
    if p.excludes location then g else (g.openKey location pattern).1
  | _ => g

/-- Takes an item into the groups. -/
def take (p : Plan) (lineOf : String → Nat) (g : Grouper) (item : Walk.Item) : Grouper :=
  (p.findings lineOf item).foldl Grouper.push (p.openItem g item)

end Plan

/-- The place that an item says was not entered. -/
def Walk.Item.diagnostic? : Walk.Item → Option Diagnostic
  | .skipped location why => some ⟨location, why.reason⟩
  | _ => none

namespace Report

/-- The report on what a walk came upon. -/
def ofItems (p : Plan) (d : Description) (items : List Walk.Item) : Report :=
  let index := if p.resolvesLines then Lines.Index.ofText d.source else []
  let groups := (items.foldl (p.take index.find) .new).finish
  { document := d.name
    specVersion := d.specVersion?
    dialects := p.dialects
    groups
    summary := Summary.ofGroups groups
    skipped := items.filterMap Walk.Item.diagnostic? }

/-- The report of an audit. -/
def audit (p : Plan) (d : Description) : Report := ofItems p d (Walk.run ⟨d.root, p.limits⟩)

/-- The report of an audit under a profile. -/
def ofDescription (profile : Profile) (d : Description)
    (engines : Dialect → Engine := Dialect.engine) : Report :=
  audit (Plan.ofProfile engines profile) d

end Report

end PatternAudit
