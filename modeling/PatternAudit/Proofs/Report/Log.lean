/-
What a log says of the reports that it was made of.

A log has two lists that must fit together. Its results are the findings that are errors or
warnings, each with the report that it is in, one after the other (`reported`,
`results_eq`). The rules that it declares are told by the results alone: their ids, each
once and in ascending order, read back as rules (`ruleIds_eq`). What names no rule would be lost
in this, and a result could then name a rule that the log does not declare. It is no id of a
result: every rule is found under its name (`Rule.ofName?_name`), so the ids of the rules that are
declared are all the ids that results name (`map_name_rules`).
-/
import PatternAudit.Proofs.Report.RoundTrip
import PatternAudit.Proofs.Report.Tallies

set_option autoImplicit false

namespace PatternAudit.Sarif

/-! ## Results -/

/-- The findings that are errors or warnings, each with the report that it is in, in the order
of reports, groups and findings. -/
def reported (reports : List Report) : List (Report × Finding) :=
  reports.flatMap fun r => r.groups.flatMap fun g =>
    (g.findings.filter fun f => f.severity = .error ∨ f.severity = .warning).map fun f => (r, f)

/-- Whether a text is the name of a document, with slashes for its backslashes. -/
def Slashed (document uri : String) : Prop :=
  List.Forall₂ (fun c c' => c' = if c = '\\' then '/' else c) document.toList uri.toList

/-- Whether a result says of a finding in a report what a log has to say of it: the rule, the
level, and the place in the document. -/
structure Carries (x : Report × Finding) (result : Result) : Prop where
  ruleId_eq : result.ruleId = x.2.rule.name
  level_eq : x.2.severity = .error ∧ result.level = "error" ∨
    x.2.severity = .warning ∧ result.level = "warning"
  location_eq : ∃ place, result.locations = [place] ∧ place.nodes = [x.2.location] ∧
    Slashed x.1.document place.uri ∧ place.startLine = if x.2.line = 0 then 1 else x.2.line

variable {reports : List Report}

theorem mem_reported {x : Report × Finding} (h : x ∈ reported reports) :
    x.2.severity = .error ∨ x.2.severity = .warning := by
  obtain ⟨r, -, hr⟩ := List.mem_flatMap.1 h
  obtain ⟨g, -, hg⟩ := List.mem_flatMap.1 hr
  obtain ⟨f, hf, rfl⟩ := List.mem_map.1 hg
  exact of_decide_eq_true (List.mem_filter.1 hf).2

/-- What a log leaves out are the findings that are neither errors nor warnings. -/
theorem issues_eq (r : Report) : (issues r).map (fun f => (r, f)) = reported [r] := by
  have hkept : ∀ f : Finding, decide (f.severity ≠ .valid)
      = decide (f.severity = .error ∨ f.severity = .warning) := by
    intro f
    cases f.severity <;> rfl
  simp only [issues, reported, List.filter_flatMap, List.map_flatMap, List.flatMap_singleton, hkept]

/-- The results are those of the reported findings, one after the other. -/
theorem results_eq (reports : List Report) :
    reports.flatMap results
      = (reported reports).map fun x => Result.ofFinding x.1.document x.2 := by
  have hreport : ∀ r, results r
      = (reported [r]).map fun x => Result.ofFinding x.1.document x.2 := by
    intro r
    rw [← issues_eq, List.map_map]
    rfl
  rw [reported, List.map_flatMap]
  refine List.flatMap_congr fun r _ => ?_
  rw [hreport, reported, List.flatMap_singleton]

theorem slashed_uri (document : String) : Slashed document (uri document) := by
  rw [Slashed, uri, String.toList_ofList, List.forall₂_map_right_iff, List.forall₂_same]
  exact fun _ _ => rfl

/-- The result that is made for a finding carries it. -/
theorem carries_ofFinding {x : Report × Finding}
    (h : x.2.severity = .error ∨ x.2.severity = .warning) :
    Carries x (Result.ofFinding x.1.document x.2) where
  ruleId_eq := rfl
  level_eq := by
    rcases h with herror | hwarning
    · exact Or.inl ⟨herror, congrArg level herror⟩
    · exact Or.inr ⟨hwarning, congrArg level hwarning⟩
  location_eq := by
    refine ⟨_, rfl, rfl, slashed_uri _, ?_⟩
    by_cases hline : x.2.line = 0
    · simp [startLine, hline]
    · simp [startLine, hline, Nat.pos_of_ne_zero hline]

/-! ## Rules -/

/-- The ids that results name, each once and in ascending order. -/
def namedRules (results : List Result) : List String :=
  (results.map (·.ruleId)).eraseDups.mergeSort fun a b => a ≤ b

theorem ascending_namedRules (results : List Result) : (namedRules results).Pairwise (· < ·) := by
  refine ascending_mergeSort (fun id : String => id) ?_
  rw [List.map_id']
  exact nodup_eraseDups _

theorem mem_namedRules {results : List Result} {id : String} :
    id ∈ namedRules results ↔ id ∈ results.map (·.ruleId) := by
  rw [namedRules, List.mem_mergeSort, List.mem_eraseDups]

/-- The ids that are collected from the findings are those that the results name. -/
theorem ruleIds_eq (reports : List Report) :
    ruleIds reports = namedRules (reports.flatMap results) := by
  have hids : (reports.flatMap issues).map (·.rule.name)
      = (reports.flatMap results).map (·.ruleId) := by
    simp only [List.map_flatMap, results, List.map_map]
    rfl
  rw [ruleIds, namedRules, hids]

/-- A result names a rule. -/
theorem exists_rule_of_named {id : String}
    (h : id ∈ (reports.flatMap results).map (·.ruleId)) : ∃ rule : Rule, rule.name = id := by
  obtain ⟨result, hresult, rfl⟩ := List.mem_map.1 h
  obtain ⟨r, -, hr⟩ := List.mem_flatMap.1 hresult
  obtain ⟨f, -, rfl⟩ := List.mem_map.1 hr
  exact ⟨f.rule, rfl⟩

/-- Reading names of rules back loses none of them. -/
theorem map_name_filterMap_ofName? {ids : List String}
    (h : ∀ id ∈ ids, ∃ rule : Rule, rule.name = id) :
    (ids.filterMap Rule.ofName?).map Rule.name = ids := by
  induction ids with
  | nil => rfl
  | cons id ids ih =>
    obtain ⟨rule, rfl⟩ := h id List.mem_cons_self
    rw [List.filterMap_cons_some (Rule.ofName?_name rule), List.map_cons,
      ih fun id hid => h id (List.mem_cons_of_mem _ hid)]

/-- The rules that are declared are those that results name. -/
theorem map_name_rules (reports : List Report) :
    (rules reports).map Rule.name = namedRules (reports.flatMap results) := by
  rw [rules, ruleIds_eq]
  exact map_name_filterMap_ofName? fun id hid => exists_rule_of_named (mem_namedRules.1 hid)

/-- **A log is complete and closed.** It has one result for each finding that is an error or a
warning, in the order of reports, groups and findings, with the rule, the level and the place of
the finding. Its rules have ascending ids, and are exactly the rules that results name: each id
that a result names reads as a rule, and none is dropped. -/
theorem log_complete_and_closed (reports : List Report) :
    ∃ run, (Log.ofReports reports).runs = [run] ∧
      List.Forall₂ Carries (reported reports) run.results ∧
      (run.rules.map (·.id)).Pairwise (· < ·) ∧
      (∀ id, id ∈ run.rules.map (·.id) ↔ id ∈ run.results.map (·.ruleId)) ∧
      (∀ result ∈ run.results, (Rule.ofName? result.ruleId).isSome) ∧
      run.rules = (namedRules run.results).filterMap
        fun id => (Rule.ofName? id).map RuleEntry.ofRule := by
  have hids : ((rules reports).map RuleEntry.ofRule).map (·.id)
      = namedRules (reports.flatMap results) := by
    rw [← map_name_rules, List.map_map]
    rfl
  refine ⟨_, rfl, ?_, ?_, ?_, ?_, ?_⟩
  · show List.Forall₂ Carries (reported reports) (reports.flatMap results)
    rw [results_eq, List.forall₂_map_right_iff, List.forall₂_same]
    exact fun x hx => carries_ofFinding (mem_reported hx)
  · show (((rules reports).map RuleEntry.ofRule).map (·.id)).Pairwise (· < ·)
    rw [hids]
    exact ascending_namedRules _
  · intro id
    show id ∈ ((rules reports).map RuleEntry.ofRule).map (·.id) ↔ _
    rw [hids, mem_namedRules]
  · intro result hresult
    obtain ⟨rule, hrule⟩ := exists_rule_of_named (List.mem_map_of_mem hresult)
    rw [← hrule, Rule.ofName?_name]
    rfl
  · show (rules reports).map RuleEntry.ofRule = (namedRules (reports.flatMap results)).filterMap _
    rw [rules, ruleIds_eq, List.map_filterMap]

end PatternAudit.Sarif
