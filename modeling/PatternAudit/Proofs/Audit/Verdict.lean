/-
The verdict on a description, whichever way it is told.

The report of an audit is consistent: its summary is counted from its groups, and only
dialects find errors (`Plan.severity_of_no_dialect`). So the results of a listing, the
figures of the summary, the results of a log and the policies that fail an audit all say the
same of it.

What they say comes from the engines alone: an audit has an error exactly if some pattern that
is not excluded is not accepted under some dialect, be it refused or not checked to the end
(`Report.error_mem_severities_iff`).
-/
import PatternAudit.Proofs.Audit.Items

set_option autoImplicit false

namespace PatternAudit

/-- A dialect finds an error on what its engine does not accept. -/
theorem Dialect.severity_eq_error_iff {engine : Engine} {d : Dialect} {location pattern : String} :
    (d.validateWith engine location pattern).severity = .error ↔ engine pattern ≠ .accepted := by
  unfold validateWith
  cases engine pattern <;> simp [Finding.valid, Finding.error]

/-- What is found on a pattern has an error exactly if a dialect does not accept the pattern. -/
theorem Plan.exists_error_patternFindings_iff {p : Plan} (line : Nat) {location pattern : String} :
    (∃ f ∈ p.patternFindings line location pattern, f.severity = .error) ↔
      ∃ d ∈ p.dialects, p.engines d pattern ≠ .accepted := by
  constructor
  · rintro ⟨f, hf, herror⟩
    rcases of_mem_patternFindings hf with ⟨d, hd, rfl⟩ | ⟨advice, hadvice, rfl⟩
    · exact ⟨d, hd, Dialect.severity_eq_error_iff.1 herror⟩
    · cases hadvice.severity_eq.symm.trans herror
  · rintro ⟨d, hd, hengine⟩
    exact ⟨(d.validateWith (p.engines d) location pattern).atLine line,
      List.mem_map_of_mem (List.mem_append_left _ (List.mem_map_of_mem hd)),
      Dialect.severity_eq_error_iff.2 hengine⟩

namespace Report

/-- Every finding of a report is on an item of the walk. -/
theorem of_mem_findings {p : Plan} {d : Description} {f : Finding}
    (h : f ∈ (audit p d).findings) :
    ∃ item ∈ items p d, f ∈ p.findings (lineOf p d) item := by
  rw [(findings_audit_perm p d).mem_iff] at h
  exact List.mem_flatMap.1 h

theorem consistent_audit (p : Plan) (d : Description) : (audit p d).Consistent where
  summary_eq := rfl
  error_of_dialect := by
    intro f hf herror hdialect
    obtain ⟨item, -, hitem⟩ := of_mem_findings hf
    have hwarning := Plan.severity_of_no_dialect hitem hdialect
    rw [herror] at hwarning
    cases hwarning

/-- **An audit has an error exactly if some pattern is not accepted.** The pattern is one that
is not excluded, and the dialect one of the plan. -/
theorem error_mem_severities_iff (p : Plan) (d : Description) :
    .error ∈ (audit p d).severities ↔
      ∃ key ∈ Walk.patterns ⟨d.root, p.limits⟩, p.excludes key.1 = false ∧
        ∃ dialect ∈ p.dialects, p.engines dialect key.2 ≠ .accepted := by
  constructor
  · intro h
    obtain ⟨f, hf, herror⟩ := List.mem_map.1 h
    obtain ⟨item, hitem, hf⟩ := of_mem_findings hf
    obtain ⟨hincluded, hpattern | ⟨-, hmetadata⟩⟩ := Plan.of_mem_findings hf
    · rw [Plan.findings_eq_patternFindings hincluded hpattern] at hf
      rw [Walk.Item.location_of_pattern? hpattern] at hincluded
      exact ⟨f.key, List.mem_filterMap.2 ⟨item, hitem, hpattern⟩, hincluded,
        (Plan.exists_error_patternFindings_iff _).1 ⟨f, hf, herror⟩⟩
    · obtain ⟨subject, hadvice⟩ := Walk.Item.isAdvice_of_mem_metadata hmetadata
      cases hadvice.severity_eq.symm.trans herror
  · rintro ⟨key, hkey, hincluded, hdialect⟩
    obtain ⟨item, hitem, hpattern⟩ := List.mem_filterMap.1 hkey
    rw [← Walk.Item.location_of_pattern? hpattern] at hincluded
    obtain ⟨f, hf, herror⟩ :=
      (Plan.exists_error_patternFindings_iff (lineOf p d key.2)).2 hdialect
    rw [← Plan.findings_eq_patternFindings hincluded hpattern] at hf
    refine List.mem_map.2 ⟨f, ?_, herror⟩
    exact (findings_audit_perm p d).mem_iff.2 (List.mem_flatMap.2 ⟨item, hitem, hf⟩)

/-- An audit passes under the policy `error` exactly if every engine accepts every pattern. -/
theorem passes_error_audit_iff (p : Plan) (d : Description) :
    FailOn.error.passes [audit p d] = true ↔
      ∀ key ∈ Walk.patterns ⟨d.root, p.limits⟩, p.excludes key.1 = false →
        ∀ dialect ∈ p.dialects, p.engines dialect key.2 = .accepted := by
  have hconsistent : ∀ r ∈ [audit p d], r.Consistent := by
    intro r hr
    rw [List.mem_singleton.1 hr]
    exact consistent_audit p d
  rw [FailOn.error_passes_iff hconsistent, List.forall_mem_singleton, error_mem_severities_iff]
  push Not
  rfl

/-- **All views of a verdict agree.** The results of a listing with one status are as many as
the summary says, and these numbers add up to the number of groups. The numbers of errors and
of warnings in the summary are those of the findings, and of the results of a log with the
level. Under the policy `error`, reports pass if none has an error; under `warning`, if none
has an error or a warning. -/
theorem views_agree (engines : Dialect → Engine) (p : Profile) (d : Description)
    (id : Option String) (runs : List ((Dialect → Engine) × Profile × Description)) :
    let r := audit (Plan.ofProfile engines p) d
    let reports := runs.map fun run => audit (Plan.ofProfile run.1 run.2.1) run.2.2
    ((r.statuses id).count "error" = r.summary.withError ∧
        (r.statuses id).count "warning" = r.summary.warningOnly ∧
        (r.statuses id).count "valid" = r.summary.clean ∧
        r.summary.withError + r.summary.warningOnly + r.summary.clean = r.summary.locations) ∧
      (r.summary.errorCount = r.severities.count .error ∧
        r.levels.count "error" = r.severities.count .error) ∧
      (r.summary.warningCount = r.severities.count .warning ∧
        r.levels.count "warning" = r.severities.count .warning) ∧
      (FailOn.error.passes reports = true ↔ ∀ r ∈ reports, .error ∉ r.severities) ∧
      (FailOn.warning.passes reports = true ↔
        ∀ r ∈ reports, .error ∉ r.severities ∧ .warning ∉ r.severities) := by
  intro r reports
  have hr : r.Consistent := consistent_audit (Plan.ofProfile engines p) d
  have hreports : ∀ r ∈ reports, r.Consistent := by
    intro r hr
    obtain ⟨run, -, rfl⟩ := List.mem_map.1 hr
    exact consistent_audit (Plan.ofProfile run.1 run.2.1) run.2.2
  obtain ⟨herror, hwarning, hvalid⟩ := hr.statuses_eq id
  refine ⟨⟨herror, hwarning, hvalid, hr.locations_eq⟩, ?_, ?_, ?_, ?_⟩
  · exact ⟨hr.errorCount_eq, count_levels (show Severity.error ≠ .valid by decide)⟩
  · exact ⟨hr.warningCount_eq, count_levels (show Severity.warning ≠ .valid by decide)⟩
  · exact FailOn.error_passes_iff hreports
  · exact FailOn.warning_passes_iff hreports

end Report

end PatternAudit
