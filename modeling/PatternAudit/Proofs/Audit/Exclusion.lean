/-
Exclusion is a filter.

An audit asks whether a place is excluded at each kind of item, and again before it opens a
group; the groups come about in the order in which their keys are first seen. It could as
well leave nothing out and drop the groups of the excluded places in the end. For what an
item does is done under keys of its own place, so excluding places leaves out the steps with
their keys (`steps_excluding`), and steps that are left out by key take whole groups with
them (`Grouper.finish_after_filter`). The walk does not know of exclusion.
-/
import PatternAudit.Proofs.Audit.Items

set_option autoImplicit false

namespace PatternAudit

namespace Plan

/-- The plan with other places left out. -/
def excluding (p : Plan) (excludes : String → Bool) : Plan := { p with excludes }

variable {p : Plan} {lineOf : String → Nat} {item : Walk.Item} {excludes : String → Bool}

/-- An item of an excluded place does nothing. -/
theorem steps_of_excluded (h : p.excludes item.location = true) : p.steps lineOf item = [] := by
  rw [List.eq_nil_iff_forall_not_mem]
  intro s hs
  obtain ⟨hincluded, -⟩ := key_of_mem_steps hs
  rw [h] at hincluded
  cases hincluded

/-- At a place that is not excluded, exclusion makes no difference. -/
theorem steps_of_included (h : excludes item.location = false) :
    (p.excluding excludes).steps lineOf item
      = (p.excluding fun _ => false).steps lineOf item := by
  have hfindings : (p.excluding excludes).findings lineOf item
      = (p.excluding fun _ => false).findings lineOf item := by
    cases hitem : item.pattern? with
    | none =>
      rw [findings_eq_metadata h hitem, findings_eq_metadata rfl hitem]
      rfl
    | some key =>
      rw [findings_eq_patternFindings h hitem, findings_eq_patternFindings rfl hitem]
      rfl
  have hopening : (p.excluding excludes).opening item
      = (p.excluding fun _ => false).opening item := by
    cases item with
    | pattern location pattern =>
      have hplace : excludes location = false := h
      simp [opening, excluding, hplace]
    | _ => rfl
  rw [steps, steps, hfindings, hopening]

/-- **Excluding places leaves out the steps with their keys.** -/
theorem steps_excluding (p : Plan) (lineOf : String → Nat) (item : Walk.Item)
    (excludes : String → Bool) :
    (p.excluding excludes).steps lineOf item
      = ((p.excluding fun _ => false).steps lineOf item).filter fun s => !excludes s.key.1 := by
  have hplace : ∀ s ∈ (p.excluding fun _ => false).steps lineOf item,
      s.key.1 = item.location := fun s hs => (key_of_mem_steps hs).2
  by_cases h : excludes item.location = true
  · rw [steps_of_excluded h, eq_comm, List.filter_eq_nil_iff]
    intro s hs
    rw [hplace s hs, h]
    exact Bool.false_ne_true
  · have hincluded : excludes item.location = false := Bool.eq_false_iff.2 h
    rw [steps_of_included hincluded, eq_comm, List.filter_eq_self]
    intro s hs
    rw [hplace s hs, hincluded]
    rfl

end Plan

namespace Report

/-- The report without the groups at the places that are left out. -/
def without (r : Report) (excludes : String → Bool) : Report :=
  let groups := r.groups.filter fun g => !excludes g.location
  { r with groups, summary := Summary.ofGroups groups }

/-- Under any plan, leaving places out is leaving out their groups. -/
theorem audit_excluding (p : Plan) (excludes : String → Bool) (d : Description) :
    audit (p.excluding excludes) d = (audit (p.excluding fun _ => false) d).without excludes := by
  have hsteps : steps (p.excluding excludes) d
      = (steps (p.excluding fun _ => false) d).filter fun s => !excludes s.key.1 := by
    rw [steps, steps, List.filter_flatMap]
    refine List.flatMap_congr fun item _ => ?_
    exact p.steps_excluding (lineOf p d) item excludes
  have hgroups : (audit (p.excluding excludes) d).groups
      = (audit (p.excluding fun _ => false) d).groups.filter fun g => !excludes g.location := by
    rw [groups_audit, groups_audit, hsteps]
    exact Grouper.finish_after_filter (fun key => !excludes key.1) _
  -- nothing else in a report is about exclusion, except that the summary counts the groups
  show Report.mk d.name d.specVersion? p.dialects (audit (p.excluding excludes) d).groups
    (Summary.ofGroups (audit (p.excluding excludes) d).groups)
    ((items p d).filterMap Walk.Item.diagnostic?) = _
  rw [hgroups]
  rfl

/-- **Exclusion is a filter.** Of two profiles that differ only in the places that they leave
out, where the first leaves out none, the second gives the report of the first without the
groups at the places that match its globs, with the summary of the groups that are left. All
else is the same: the order of the groups, the findings and their lines, and what was skipped.
The same holds when any other test tells which places are left out. -/
theorem exclusion_only_filters (engines : Dialect → Engine) (p : Profile) (globs : List String)
    (excludes : String → Bool) (d : Description) :
    let whole := audit (Plan.ofProfile engines { p with excluded := [] }) d
    let second : Profile := { p with excluded := globs }
    audit (Plan.ofProfile engines second) d = whole.without second.excludes ∧
      audit ((Plan.ofProfile engines p).excluding excludes) d = whole.without excludes := by
  intro whole second
  have hwhole : whole = audit ((Plan.ofProfile engines p).excluding fun _ => false) d := rfl
  constructor
  · rw [hwhole]
    exact audit_excluding (Plan.ofProfile engines p) second.excludes d
  · rw [hwhole]
    exact audit_excluding (Plan.ofProfile engines p) excludes d

end Report

end PatternAudit
