/-
Checks and dialects are independent.

What a dialect finds, it finds on the patterns that are checked, whatever else the profile asks
for (`Plan.findings_of_dialect`). What a check finds, it finds whatever other checks are on: the
rule of a finding tells its check (`Checks.makes`), and the findings of one rule are the same as
if every check were on (`Plan.findings_of_rule`). That holds although the checks on a pattern
look at one another's patterns: one that lets everything pass is not also reported as
unanchored, and is not so either when nobody asks for permissive patterns.

Both are said of the items of a walk. A report has the findings of the items in its groups, each
under its key and in the order of the items (`Report.findingsUnder_audit`), so both hold of
reports, although the groups of two reports may stand in different orders.
-/
import PatternAudit.Proofs.Audit.Accounted

set_option autoImplicit false

namespace PatternAudit

/-! ## Rules of checks -/

namespace Checks

/-- Whether the check behind a rule is on. No check is behind what the dialects say. -/
def makes (c : Checks) : Rule → Bool
  | .dialectSyntax | .dialectFault => false
  | .overlyPermissive => c.permissive
  | .missingAnchors => c.anchors
  | .backtrackingRisk => c.backtracking
  | .missingOperationId => c.operationId
  | .missingSummary => c.summary
  | .missingSchemaDescription => c.schemaDescription
  | .missingSchemaExample => c.schemaExample
  | .pathNaming => c.pathNaming

end Checks

/-- What a dialect finds is under a rule of no check. -/
theorem Dialect.makes_validateWith (engine : Engine) (d : Dialect) (location pattern : String)
    (checks : Checks) : checks.makes (d.validateWith engine location pattern).rule = false := by
  unfold validateWith
  split <;> rfl

/-- Under a rule, only a finding with the rule counts, and so only its condition. -/
theorem Api.filter_findingIf {condition condition' : Bool} {f : Finding} {rule : Rule}
    (h : f.rule = rule → condition = condition') :
    (findingIf condition f).filter (fun g => g.rule = rule)
      = (findingIf condition' f).filter fun g => g.rule = rule := by
  by_cases hrule : f.rule = rule
  · rw [h hrule]
  · have hnone : ∀ c, (findingIf c f).filter (fun g => decide (g.rule = rule)) = [] := by
      intro c
      rw [List.filter_eq_nil_iff]
      intro g hg
      rw [mem_findingIf hg]
      simpa using hrule
    rw [hnone, hnone]

/-- Under the rule of a check that is on, the checks on a pattern find what all checks find. -/
theorem Pattern.filter_check {checks : Checks} {rule : Rule} (h : checks.makes rule = true)
    (location pattern : String) :
    (check location pattern checks).filter (fun f => f.rule = rule)
      = (check location pattern .all).filter fun f => f.rule = rule := by
  simp only [check, List.filter_append]
  refine congrArg₂ _ (congrArg₂ _ ?_ ?_) ?_
  · split
    · refine Api.filter_findingIf ?_
      rintro rfl
      exact h
    · rfl
  · refine Api.filter_findingIf ?_
    rintro rfl
    have hon : checks.anchors = true := h
    rw [hon]
    rfl
  · refine Api.filter_findingIf ?_
    rintro rfl
    have hon : checks.backtracking = true := h
    rw [hon]
    rfl

/-- So do the checks on an element of the description. -/
theorem Walk.Item.filter_metadata {checks : Checks} {rule : Rule} (h : checks.makes rule = true)
    (item : Item) :
    (item.metadata checks).filter (fun f => f.rule = rule)
      = (item.metadata .all).filter fun f => f.rule = rule := by
  -- each check is a flag and a condition on the element
  have hone : ∀ (flag : Checks → Bool) {f : Finding} {lacks : Bool},
      checks.makes f.rule = flag checks → flag .all = true →
      (Api.findingIf (flag checks && lacks) f).filter (fun g => decide (g.rule = rule))
        = (Api.findingIf (flag .all && lacks) f).filter fun g => decide (g.rule = rule) := by
    intro flag f lacks hflag hall
    refine Api.filter_findingIf ?_
    rintro rfl
    rw [← hflag, h, hall]
  cases item with
  | pattern | skipped => rfl
  | operation o =>
    simp only [metadata, Api.checkOperation, List.filter_append]
    rw [hone Checks.operationId rfl rfl, hone Checks.summary rfl rfl]
  | schema s =>
    simp only [metadata, Api.checkSchema, List.filter_append]
    rw [hone Checks.schemaDescription rfl rfl, hone Checks.schemaExample rfl rfl]
  | path e =>
    simp only [metadata, Api.checkPath]
    rw [hone Checks.pathNaming rfl rfl]

/-! ## Findings of items -/

namespace Plan

variable {p : Plan} {lineOf : String → Nat} {item : Walk.Item}

/-- What the checks find on an item; on a pattern, with its line. -/
def advice (checks : Checks) (lineOf : String → Nat) : Walk.Item → List Finding
  | .pattern location pattern =>
    (Pattern.check location pattern checks).map (·.atLine (lineOf pattern))
  | item => item.metadata checks

/-- Of all that is found on a pattern, each dialect has found one thing. -/
theorem filter_origin_patternFindings {dialect : Dialect} (hmem : dialect ∈ p.dialects)
    (hnodup : p.dialects.Nodup) (line : Nat) (location pattern : String) :
    (p.patternFindings line location pattern).filter (fun f => f.origin = .dialect dialect)
      = [(dialect.validateWith (p.engines dialect) location pattern).atLine line] := by
  have hself : p.dialects.filter (fun d =>
      ((d.validateWith (p.engines d) location pattern).atLine line).origin = .dialect dialect)
      = [dialect] := by
    have hsame : ∀ d : Dialect, decide
        (((d.validateWith (p.engines d) location pattern).atLine line).origin = .dialect dialect)
        = (d == dialect) := by
      intro d
      have horigin := Finding.origin_eq_dialect_iff.2
        (Dialect.dialect?_validateWith (p.engines d) d location pattern)
      show decide ((d.validateWith (p.engines d) location pattern).origin = .dialect dialect) = _
      rw [horigin, beq_eq_decide]
      simp
    simp only [hsame]
    rw [List.filter_beq, List.count_eq_one_of_mem hnodup hmem]
    rfl
  have hadvice : ((Pattern.check location pattern p.checks).map (·.atLine line)).filter
      (fun f => decide (f.origin = .dialect dialect)) = [] := by
    rw [List.filter_eq_nil_iff]
    intro f hf
    obtain ⟨g, hg, rfl⟩ := List.mem_map.1 hf
    obtain ⟨_, _, _, _, rfl⟩ := Pattern.isAdvice_of_mem_check hg
    exact Bool.false_ne_true
  rw [patternFindings, List.map_append, List.filter_append, hadvice, List.append_nil, List.map_map,
    List.filter_map]
  exact congrArg (List.map _) hself

/-- What a dialect finds on an item: one thing, if the item is a pattern that is checked. -/
theorem filter_origin_findings {dialect : Dialect} (hmem : dialect ∈ p.dialects)
    (hnodup : p.dialects.Nodup) (lineOf : String → Nat) (item : Walk.Item) :
    (p.findings lineOf item).filter (fun f => f.origin = .dialect dialect)
      = (p.audited [item]).map fun key =>
          (dialect.validateWith (p.engines dialect) key.1 key.2).atLine (lineOf key.2) := by
  rcases p.findings_cases lineOf item with ⟨hfindings, haudited⟩ | ⟨hfindings, haudited⟩
    | ⟨key, hfindings, haudited⟩
  · rw [hfindings, haudited]
    rfl
  · rw [hfindings, haudited, List.map_nil, List.filter_eq_nil_iff]
    intro f hf
    obtain ⟨subject, _, _, _, _, rfl⟩ := Walk.Item.isAdvice_of_mem_metadata hf
    exact Bool.false_ne_true
  · rw [hfindings, haudited, filter_origin_patternFindings hmem hnodup]
    rfl

/-- **What a dialect finds** depends on the patterns that are checked and on its engine. -/
theorem findings_of_dialect {dialect : Dialect} (hmem : dialect ∈ p.dialects)
    (hnodup : p.dialects.Nodup) (lineOf : String → Nat) (items : List Walk.Item) :
    (items.flatMap (p.findings lineOf)).filter (fun f => f.origin = .dialect dialect)
      = (p.audited items).map fun key =>
          (dialect.validateWith (p.engines dialect) key.1 key.2).atLine (lineOf key.2) := by
  induction items with
  | nil => rfl
  | cons item items ih =>
    have haudited : p.audited (item :: items) = p.audited [item] ++ p.audited items :=
      p.audited_append [item] items
    rw [List.flatMap_cons, List.filter_append, filter_origin_findings hmem hnodup, ih, haudited,
      List.map_append]

/-- What is found on an item under the rule of a check that is on. -/
theorem filter_rule_findings {rule : Rule} (h : p.checks.makes rule = true)
    (lineOf : String → Nat) (item : Walk.Item) :
    (p.findings lineOf item).filter (fun f => f.rule = rule)
      = if p.excludes item.location then []
        else (advice .all lineOf item).filter fun f => f.rule = rule := by
  by_cases hexcluded : p.excludes item.location = true
  · rw [findings_of_excluded hexcluded, if_pos hexcluded]
    rfl
  have hincluded : p.excludes item.location = false := Bool.eq_false_iff.2 hexcluded
  rw [if_neg hexcluded]
  cases item with
  | pattern location pattern =>
    -- the rules of the dialects are behind no check
    have hdialects : (p.dialects.map fun d => d.validateWith (p.engines d) location pattern).filter
        (fun f => decide (f.rule = rule)) = [] := by
      rw [List.filter_eq_nil_iff]
      intro f hf
      obtain ⟨d, -, rfl⟩ := List.mem_map.1 hf
      intro hrule
      have hnone := Dialect.makes_validateWith (p.engines d) d location pattern p.checks
      rw [of_decide_eq_true hrule, h] at hnone
      cases hnone
    have hline : (fun f : Finding => decide (f.rule = rule))
        ∘ (fun f : Finding => f.atLine (lineOf pattern)) = fun f => decide (f.rule = rule) := rfl
    rw [findings_eq_patternFindings hincluded rfl, patternFindings, List.filter_map, hline,
      List.filter_append, hdialects, List.nil_append, Pattern.filter_check h, advice,
      List.filter_map, hline]
  | _ =>
    rw [findings_eq_metadata hincluded rfl, Walk.Item.filter_metadata h]
    rfl

/-- **What a check finds** depends on no other check, and on no dialect. -/
theorem findings_of_rule {rule : Rule} (h : p.checks.makes rule = true)
    (lineOf : String → Nat) (items : List Walk.Item) :
    (items.flatMap (p.findings lineOf)).filter (fun f => f.rule = rule)
      = items.flatMap fun item => if p.excludes item.location then []
          else (advice .all lineOf item).filter fun f => f.rule = rule := by
  rw [List.filter_flatMap]
  exact List.flatMap_congr fun item _ => filter_rule_findings h lineOf item

end Plan

/-! ## Reports -/

namespace Report

/-- What a report finds on a place and a pattern. -/
def findingsUnder (r : Report) (key : String × String) : List Finding :=
  (r.groups.filter fun g => g.key = key).flatMap (·.findings)

theorem findingsUnder_audit (p : Plan) (d : Description) (key : String × String) :
    (audit p d).findingsUnder key
      = ((items p d).flatMap (p.findings (lineOf p d))).filter fun f => f.key = key := by
  rw [findingsUnder, groups_audit, Grouper.flatMap_findings_filter, ← p.finding?_steps]
  rfl

/-- **Checks and dialects are independent.** Of two profiles that differ only in the dialects
and the checks that they ask for, a dialect that is active under both finds the same under
both, on every place and pattern; and so does a check that is on under both. -/
theorem checks_and_dialects_independent (engines : Dialect → Engine) (p : Profile)
    (dialects dialects' : List String) (checks checks' : Checks) (d : Description)
    (key : String × String) :
    let first : Profile := { p with dialects, checks }
    let second : Profile := { p with dialects := dialects', checks := checks' }
    let found := (audit (Plan.ofProfile engines first) d).findingsUnder key
    let found' := (audit (Plan.ofProfile engines second) d).findingsUnder key
    (∀ dialect ∈ first.activeDialects, dialect ∈ second.activeDialects →
      found.filter (fun f => f.origin = .dialect dialect)
        = found'.filter fun f => f.origin = .dialect dialect) ∧
      ∀ rule, checks.makes rule = true → checks'.makes rule = true →
        found.filter (fun f => f.rule = rule) = found'.filter fun f => f.rule = rule := by
  intro first second found found'
  have hfound : found = _ := findingsUnder_audit (Plan.ofProfile engines first) d key
  have hfound' : found' = _ := findingsUnder_audit (Plan.ofProfile engines second) d key
  rw [hfound, hfound']
  constructor
  · intro dialect hfirst hsecond
    rw [List.filter_comm, Plan.findings_of_dialect hfirst first.nodup_activeDialects,
      List.filter_comm, Plan.findings_of_dialect hsecond second.nodup_activeDialects]
    -- the walk, the exclusions, the lines and the engines are those of both profiles
    rfl
  · intro rule hfirst hsecond
    rw [List.filter_comm, Plan.findings_of_rule hfirst, List.filter_comm,
      Plan.findings_of_rule hsecond]
    rfl

/-- A description in which a schema is named like its pattern, so that what is found on either
stands in one group. -/
def namedLikePattern : Description where
  name := "codes.yaml"
  root := .obj [("swagger", .str "2.0"),
    ("definitions", .obj [("[0-9]+", .obj [("pattern", .str "[0-9]+")])])]
  source := ""
  distinct := by decide

/-- Beside other dialects and other checks, one dialect and one check find the same on the
pattern, and the dialect finds something. -/
theorem namedLikePattern_independent :
    let first : Profile := { Profile.default with
      dialects := ["java", "go"]
      checks := { Checks.none with anchors := true, schemaDescription := true } }
    let second : Profile := { Profile.default with dialects := ["re2", "js"], checks := .all }
    let found := (audit (Plan.ofProfile Dialect.engine first) namedLikePattern).findingsUnder
      ("#/definitions/[0-9]+", "[0-9]+")
    let found' := (audit (Plan.ofProfile Dialect.engine second) namedLikePattern).findingsUnder
      ("#/definitions/[0-9]+", "[0-9]+")
    (first.activeDialects = [.pcre, .re2] ∧ second.activeDialects = [.re2, .ecma] ∧
        first.checks.makes .missingAnchors = true ∧ second.checks.makes .missingAnchors = true) ∧
      (found.filter fun f => f.origin = .dialect .re2).length = 1 ∧
      (found.filter fun f => f.origin = .dialect .re2)
        = (found'.filter fun f => f.origin = .dialect .re2) ∧
      (found.filter fun f => f.rule = .missingAnchors)
        = found'.filter fun f => f.rule = .missingAnchors := by
  intro first second found found'
  have hfirst : first.activeDialects = [.pcre, .re2] := by decide +kernel
  have hsecond : second.activeDialects = [.re2, .ecma] := by decide +kernel
  have hmem : Dialect.re2 ∈ first.activeDialects := by rw [hfirst]; decide
  have hmem' : Dialect.re2 ∈ second.activeDialects := by rw [hsecond]; decide
  obtain ⟨hdialect, hrule⟩ := checks_and_dialects_independent Dialect.engine Profile.default
    ["java", "go"] ["re2", "js"] { Checks.none with anchors := true, schemaDescription := true }
    .all namedLikePattern ("#/definitions/[0-9]+", "[0-9]+")
  refine ⟨⟨hfirst, hsecond, rfl, rfl⟩, ?_, hdialect .re2 hmem hmem', hrule .missingAnchors rfl rfl⟩
  have hpatterns : Walk.patterns ⟨namedLikePattern.root, first.limits⟩
      = [("#/definitions/[0-9]+", "[0-9]+")] := Walk.patterns_of_test 4 (by decide +kernel)
  have haudited : (Plan.ofProfile Dialect.engine first).audited
      (items (Plan.ofProfile Dialect.engine first) namedLikePattern)
      = [("#/definitions/[0-9]+", "[0-9]+")] := congrArg (List.filter _) hpatterns
  have hfound : found = _ :=
    findingsUnder_audit (Plan.ofProfile Dialect.engine first) namedLikePattern _
  rw [hfound, List.filter_comm, Plan.findings_of_dialect hmem first.nodup_activeDialects, haudited,
    List.map_singleton, List.filter_cons_of_pos]
  · rfl
  · exact decide_eq_true
      (Dialect.key_validateWith (Dialect.engine .re2) .re2 "#/definitions/[0-9]+" "[0-9]+")

end Report

end PatternAudit
