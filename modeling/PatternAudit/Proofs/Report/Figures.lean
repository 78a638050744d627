/-
The figures of a report, and what it is shown as.

A report is counted several times over: by groups, by the names under which findings are
tallied, by the status of the results in a listing, and by the level of the results in a
log. Errors are tallied under the dialects that they come from, so an error that came from
no dialect would be missing there. A report whose summary was counted from its groups, and
whose errors all come from dialects, is `Consistent`; all counts of such a report agree.
-/
import PatternAudit.Profile
import PatternAudit.Report.Sarif

set_option autoImplicit false

namespace PatternAudit

/-! ## Tallies -/

namespace Tally

theorem foldl_total (t : Tally) (n : Nat) : t.foldl (fun n e => n + e.2) n = n + total t := by
  induction t generalizing n with
  | nil => rfl
  | cons e t ih =>
    rw [total, List.foldl_cons, List.foldl_cons, ih, ih (0 + e.2)]
    omega

theorem total_cons (e : String × Nat) (t : Tally) : total (e :: t) = e.2 + total t := by
  rw [total, List.foldl_cons, foldl_total, Nat.zero_add]

/-- Counting a name once more adds one to the total. -/
theorem total_add (name : String) (t : Tally) : (add name t).total = t.total + 1 := by
  induction t with
  | nil => rfl
  | cons e t ih =>
    obtain ⟨k, n⟩ := e
    rw [add]
    split
    · rw [total_cons, total_cons]
      omega
    · split
      · rw [total_cons, Nat.add_comm]
      · rw [total_cons, total_cons, ih]
        omega

theorem total_foldl_add (names : List String) (t : Tally) :
    (names.foldl (fun t n => add n t) t).total = t.total + names.length := by
  induction names generalizing t with
  | nil => rfl
  | cons name names ih =>
    rw [List.foldl_cons, ih, total_add, List.length_cons]
    omega

/-- Every name is counted. -/
theorem total_ofNames (names : List String) : (ofNames names).total = names.length := by
  rw [ofNames, total_foldl_add]
  exact Nat.zero_add _

end Tally

/-! ## Names -/

namespace Summary

/-- A warning is counted under its message, whatever that is. -/
theorem length_warningNames (fs : List Finding) :
    (fs.filterMap warningName?).length = (fs.map (·.severity)).count .warning := by
  induction fs with
  | nil => rfl
  | cons f fs ih =>
    by_cases hf : f.severity = .warning <;> simp [warningName?, hf, ih]

/-- An error is counted under its dialect, so it must have one. -/
theorem length_errorNames {fs : List Finding}
    (h : ∀ f ∈ fs, f.severity = .error → f.dialect? ≠ none) :
    (fs.filterMap errorName?).length = (fs.map (·.severity)).count .error := by
  induction fs with
  | nil => rfl
  | cons f fs ih =>
    obtain ⟨hfirst, hothers⟩ := List.forall_mem_cons.1 h
    by_cases hf : f.severity = .error
    · obtain ⟨d, hd⟩ := Option.ne_none_iff_exists'.1 (hfirst hf)
      simp [errorName?, hf, hd, ih hothers]
    · simp [errorName?, hf, ih hothers]

end Summary

/-! ## Groups -/

namespace Group

variable (g : Group)

theorem hasError_iff : g.hasError = true ↔ .error ∈ g.findings.map (·.severity) := by
  simp [hasError]

/-- A group is counted where its status says. -/
theorem status_name_eq_iff :
    (g.status.name = "error" ↔ g.hasError = true) ∧
      (g.status.name = "warning" ↔ (!g.hasError && g.hasWarning) = true) ∧
      (g.status.name = "valid" ↔ g.isClean = true) := by
  unfold status isClean
  cases g.hasError <;> cases g.hasWarning <;> decide

end Group

/-- Every group is counted once. -/
theorem Summary.locations_ofGroups (gs : List Group) :
    (Summary.ofGroups gs).withError + (Summary.ofGroups gs).warningOnly
      + (Summary.ofGroups gs).clean = (Summary.ofGroups gs).locations := by
  simp only [Summary.ofGroups]
  induction gs with
  | nil => rfl
  | cons g gs ih =>
    -- a group has an error, or warnings only, or neither
    simp only [List.countP_cons, List.length_cons, Group.isClean] at ih ⊢
    cases g.hasError <;> cases g.hasWarning <;> simp <;> omega

/-! ## Reports -/

namespace Report

/-- The findings of a report, group by group. -/
def findings (r : Report) : List Finding := r.groups.flatMap (·.findings)

/-- The severities of the findings. -/
def severities (r : Report) : List Severity := r.findings.map (·.severity)

/-- Whether the summary of a report was counted from its groups, and every error comes from a
dialect. -/
structure Consistent (r : Report) : Prop where
  summary_eq : r.summary = Summary.ofGroups r.groups
  error_of_dialect : ∀ f ∈ r.findings, f.severity = .error → f.dialect? ≠ none

/-- The results of a report in a listing, by their status. -/
def statuses (r : Report) (id : Option String) : List String :=
  (Listing.Entry.ofFiled ⟨r, id⟩).results.map (·.status)

/-- The results of a report in a log, by their level. -/
def levels (r : Report) : List String :=
  ((Sarif.Log.ofReports [r]).runs.flatMap (·.results)).map (·.level)

variable {r : Report}

theorem mem_severities {s : Severity} :
    s ∈ r.severities ↔ ∃ g ∈ r.groups, s ∈ g.findings.map (·.severity) := by
  simp only [severities, findings, List.map_flatMap, List.mem_flatMap]

/-! ### Counts of groups -/

theorem count_statuses (r : Report) (id : Option String) (status : String) :
    (r.statuses id).count status = r.groups.countP fun g => g.status.name = status := by
  rw [statuses, Listing.Entry.ofFiled, List.map_map, List.count, List.countP_map]
  rfl

/-- The results of a listing are counted by their status as the groups are by their findings. -/
theorem Consistent.statuses_eq (h : r.Consistent) (id : Option String) :
    (r.statuses id).count "error" = r.summary.withError ∧
      (r.statuses id).count "warning" = r.summary.warningOnly ∧
      (r.statuses id).count "valid" = r.summary.clean := by
  have hcount : ∀ {status : String} {test : Group → Bool},
      (∀ g : Group, g.status.name = status ↔ test g = true) →
        (r.statuses id).count status = r.groups.countP test := by
    intro status test htest
    rw [count_statuses]
    refine List.countP_congr fun g _ => ?_
    rw [decide_eq_true_eq]
    exact htest g
  rw [h.summary_eq]
  exact ⟨hcount fun g => g.status_name_eq_iff.1, hcount fun g => g.status_name_eq_iff.2.1,
    hcount fun g => g.status_name_eq_iff.2.2⟩

theorem Consistent.locations_eq (h : r.Consistent) :
    r.summary.withError + r.summary.warningOnly + r.summary.clean = r.summary.locations := by
  rw [h.summary_eq]
  exact Summary.locations_ofGroups r.groups

/-! ### Counts of findings -/

theorem Consistent.warningCount_eq (h : r.Consistent) :
    r.summary.warningCount = r.severities.count .warning := by
  rw [h.summary_eq, Summary.warningCount, Summary.ofGroups, Tally.total_ofNames]
  exact Summary.length_warningNames r.findings

/-- The errors are all tallied, because each of them has a dialect to be tallied under. -/
theorem Consistent.errorCount_eq (h : r.Consistent) :
    r.summary.errorCount = r.severities.count .error := by
  rw [h.summary_eq, Summary.errorCount, Summary.ofGroups, Tally.total_ofNames]
  exact Summary.length_errorNames h.error_of_dialect

/-- A log has a result for each finding that is an error or a warning, with its level. -/
theorem count_levels {s : Severity} (hs : s ≠ .valid) :
    r.levels.count (Sarif.level s) = r.severities.count s := by
  have hlevel : ∀ s' : Severity, Sarif.level s' = Sarif.level s ↔ s' = s := by
    intro s'
    cases s <;> cases s' <;> decide
  have hlevels : r.levels = (Sarif.issues r).map fun f => Sarif.level f.severity := by
    simp only [levels, Sarif.Log.ofReports, List.flatMap_singleton, Sarif.results, List.map_map]
    rfl
  -- the findings that a log leaves out have another severity
  rw [hlevels, severities, List.count, List.count, List.countP_map, List.countP_map]
  rw [Sarif.issues, List.countP_filter]
  refine List.countP_congr fun f _ => ?_
  simp only [Function.comp_apply, Bool.and_eq_true, beq_iff_eq, hlevel, decide_eq_true_eq]
  constructor
  · exact And.left
  · intro hf
    exact ⟨hf, hf ▸ hs⟩

/-! ### Verdicts -/

theorem Consistent.hasErrors_iff (h : r.Consistent) :
    r.hasErrors = true ↔ .error ∈ r.severities := by
  have hgroups : r.summary.withError = r.groups.countP (·.hasError) := by
    rw [h.summary_eq, Summary.ofGroups]
  simp only [hasErrors, hgroups, decide_eq_true_eq, List.countP_pos_iff, Group.hasError_iff,
    mem_severities]

theorem Consistent.hasWarnings_iff (h : r.Consistent) :
    r.hasWarnings = true ↔ .warning ∈ r.severities := by
  simp only [hasWarnings, h.warningCount_eq, decide_eq_true_eq, List.count_pos_iff]

end Report

namespace FailOn

variable {reports : List Report}

theorem error_passes_iff (h : ∀ r ∈ reports, r.Consistent) :
    error.passes reports = true ↔ ∀ r ∈ reports, .error ∉ r.severities := by
  rw [passes, List.all_eq_true]
  refine forall₂_congr fun r hr => ?_
  rw [Bool.not_eq_true', Bool.eq_false_iff, Ne, (h r hr).hasErrors_iff]

theorem warning_passes_iff (h : ∀ r ∈ reports, r.Consistent) :
    warning.passes reports = true ↔
      ∀ r ∈ reports, .error ∉ r.severities ∧ .warning ∉ r.severities := by
  rw [passes, List.all_eq_true]
  refine forall₂_congr fun r hr => ?_
  rw [Bool.and_eq_true, Bool.not_eq_true', Bool.not_eq_true', Bool.eq_false_iff, Bool.eq_false_iff,
    Ne, Ne, (h r hr).hasErrors_iff, (h r hr).hasWarnings_iff]

end FailOn

end PatternAudit
