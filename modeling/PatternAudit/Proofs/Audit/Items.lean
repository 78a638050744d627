/-
What one item adds to an audit.

An item that is not excluded has a share in the findings: on a pattern, one finding of each
dialect and the advice of the quality checks, all of them under the key of the pattern; on any
other item, advice about its place (`of_mem_findings`). Advice comes from no dialect and is
never an error, so every error comes from a dialect (`severity_of_no_dialect`).

What an audit does to its groups is a list of steps (`Plan.steps`), those of one item after
those of another. The groups of the report are what these steps come to (`groups_audit`), so
the closed form of `Grouper.finish_after` holds of reports.
-/
import PatternAudit.Audit
import PatternAudit.Proofs.Report.Figures
import PatternAudit.Proofs.Report.Grouping

set_option autoImplicit false

namespace PatternAudit

/-! ## Findings of the dialects -/

namespace Dialect

variable (engine : Engine) (d : Dialect) (location pattern : String)

theorem key_validateWith : (d.validateWith engine location pattern).key = (location, pattern) := by
  unfold validateWith
  split <;> rfl

theorem dialect?_validateWith : (d.validateWith engine location pattern).dialect? = some d := by
  unfold validateWith
  split <;> rfl

end Dialect

/-- A finding is a dialect's if the dialect is its origin. -/
theorem Finding.origin_eq_dialect_iff {f : Finding} {d : Dialect} :
    f.origin = .dialect d ↔ f.dialect? = some d := by
  unfold dialect?
  cases f.origin <;> simp

/-! ## Advice -/

/-- Whether a finding is what the checks say about a place, under a pattern or what stands for
one. -/
def Finding.IsAdvice (f : Finding) (location pattern : String) : Prop :=
  ∃ rule message suggestion suggestedFix,
    f = .warning location pattern rule message suggestion suggestedFix

namespace Finding

theorem isAdvice_warning (location pattern : String) (rule : Rule) (message suggestion : String)
    (suggestedFix : Option String) :
    (warning location pattern rule message suggestion suggestedFix).IsAdvice location pattern :=
  ⟨rule, message, suggestion, suggestedFix, rfl⟩

namespace IsAdvice

variable {f : Finding} {location pattern : String}

theorem key_eq (h : f.IsAdvice location pattern) : f.key = (location, pattern) := by
  obtain ⟨_, _, _, _, rfl⟩ := h
  rfl

theorem dialect?_eq (h : f.IsAdvice location pattern) : f.dialect? = none := by
  obtain ⟨_, _, _, _, rfl⟩ := h
  rfl

theorem severity_eq (h : f.IsAdvice location pattern) : f.severity = .warning := by
  obtain ⟨_, _, _, _, rfl⟩ := h
  rfl

end IsAdvice

end Finding

theorem Api.mem_findingIf {condition : Bool} {f g : Finding} (h : f ∈ findingIf condition g) :
    f = g := by
  unfold findingIf at h
  split at h
  · exact List.mem_singleton.1 h
  · exact absurd h List.not_mem_nil

/-- The quality checks give advice on the pattern. -/
theorem Pattern.isAdvice_of_mem_check {location pattern : String} {checks : Checks} {f : Finding}
    (h : f ∈ check location pattern checks) : f.IsAdvice location pattern := by
  simp only [check, List.mem_append] at h
  rcases h with (hpermissive | hanchors) | hbacktracking
  · split at hpermissive
    · split at hpermissive
      · rw [List.mem_singleton.1 hpermissive]
        apply Finding.isAdvice_warning
      · exact absurd hpermissive List.not_mem_nil
    · exact absurd hpermissive List.not_mem_nil
  · split at hanchors
    · rw [List.mem_singleton.1 hanchors]
      apply Finding.isAdvice_warning
    · exact absurd hanchors List.not_mem_nil
  · split at hbacktracking
    · rw [List.mem_singleton.1 hbacktracking]
      apply Finding.isAdvice_warning
    · exact absurd hbacktracking List.not_mem_nil

namespace Walk.Item

/-- What the checks say of an element of the description. -/
def metadata (checks : Checks) : Item → List Finding
  | pattern _ _ => []
  | operation o => Api.checkOperation o checks
  | schema s => Api.checkSchema s checks
  | path e => Api.checkPath e checks
  | skipped _ _ => []

/-- What the checks say of an element is advice about its place. -/
theorem isAdvice_of_mem_metadata {checks : Checks} {item : Item} {f : Finding}
    (h : f ∈ item.metadata checks) : ∃ subject, f.IsAdvice item.location subject := by
  cases item with
  | pattern | skipped => exact absurd h List.not_mem_nil
  | operation o =>
    rcases List.mem_append.1 h with hid | hsummary
    · rw [Api.mem_findingIf hid]
      exact ⟨_, Finding.isAdvice_warning ..⟩
    · rw [Api.mem_findingIf hsummary]
      exact ⟨_, Finding.isAdvice_warning ..⟩
  | schema s =>
    rcases List.mem_append.1 h with hdescription | hexample
    · rw [Api.mem_findingIf hdescription]
      exact ⟨_, Finding.isAdvice_warning ..⟩
    · rw [Api.mem_findingIf hexample]
      exact ⟨_, Finding.isAdvice_warning ..⟩
  | path e =>
    rw [Api.mem_findingIf h]
    exact ⟨_, Finding.isAdvice_warning ..⟩

end Walk.Item

/-! ## Findings of an item -/

namespace Plan

variable {p : Plan} {lineOf : String → Nat} {item : Walk.Item} {f : Finding}

/-- A finding on a pattern is a dialect's or advice, with the line of the pattern. -/
theorem of_mem_patternFindings {line : Nat} {location pattern : String}
    (h : f ∈ p.patternFindings line location pattern) :
    (∃ d ∈ p.dialects, f = (d.validateWith (p.engines d) location pattern).atLine line) ∨
      ∃ advice : Finding, advice.IsAdvice location pattern ∧ f = advice.atLine line := by
  obtain ⟨g, hg, rfl⟩ := List.mem_map.1 h
  rcases List.mem_append.1 hg with hdialect | hadvice
  · obtain ⟨d, hd, rfl⟩ := List.mem_map.1 hdialect
    exact Or.inl ⟨d, hd, rfl⟩
  · exact Or.inr ⟨g, Pattern.isAdvice_of_mem_check hadvice, rfl⟩

theorem key_of_mem_patternFindings {line : Nat} {location pattern : String}
    (h : f ∈ p.patternFindings line location pattern) : f.key = (location, pattern) := by
  rcases of_mem_patternFindings h with ⟨d, -, rfl⟩ | ⟨advice, hadvice, rfl⟩
  · exact Dialect.key_validateWith ..
  · exact hadvice.key_eq

/-- The dialects find something on a pattern in their order, each of them once. -/
theorem dialects_patternFindings (line : Nat) (location pattern : String) :
    (p.patternFindings line location pattern).filterMap Finding.dialect? = p.dialects := by
  have hdialects : (p.dialects.map fun d => d.validateWith (p.engines d) location pattern).filterMap
      Finding.dialect? = p.dialects := by
    simp only [List.filterMap_map, Function.comp_def, Dialect.dialect?_validateWith]
    exact List.filterMap_some
  have hadvice : (Pattern.check location pattern p.checks).filterMap Finding.dialect? = [] := by
    rw [List.filterMap_eq_nil_iff]
    intro f hf
    exact (Pattern.isAdvice_of_mem_check hf).dialect?_eq
  have hline : Finding.dialect? ∘ (fun f : Finding => f.atLine line) = Finding.dialect? := rfl
  rw [patternFindings, List.filterMap_map, hline, List.filterMap_append, hdialects, hadvice,
    List.append_nil]

theorem findings_of_excluded (h : p.excludes item.location = true) : p.findings lineOf item = [] :=
  if_pos h

/-- What is found on a pattern. -/
theorem findings_eq_patternFindings {key : String × String} (h : p.excludes item.location = false)
    (hitem : item.pattern? = some key) :
    p.findings lineOf item = p.patternFindings (lineOf key.2) key.1 key.2 := by
  cases item with
  | pattern =>
    cases hitem
    exact if_neg (Bool.eq_false_iff.1 h)
  | _ => cases hitem

/-- What is found on anything but a pattern. -/
theorem findings_eq_metadata (h : p.excludes item.location = false) (hitem : item.pattern? = none) :
    p.findings lineOf item = item.metadata p.checks := by
  refine (if_neg (Bool.eq_false_iff.1 h)).trans ?_
  cases item with
  | pattern => cases hitem
  | _ => rfl

/-- A finding is on a pattern, under its key, or is advice about an element. -/
theorem of_mem_findings (h : f ∈ p.findings lineOf item) :
    p.excludes item.location = false ∧
      (item.pattern? = some f.key ∨ item.pattern? = none ∧ f ∈ item.metadata p.checks) := by
  by_cases hexcluded : p.excludes item.location = true
  · rw [findings_of_excluded hexcluded] at h
    exact absurd h List.not_mem_nil
  · have hincluded : p.excludes item.location = false := Bool.eq_false_iff.2 hexcluded
    refine ⟨hincluded, ?_⟩
    cases hitem : item.pattern? with
    | none =>
      rw [findings_eq_metadata hincluded hitem] at h
      exact Or.inr ⟨rfl, h⟩
    | some key =>
      rw [findings_eq_patternFindings hincluded hitem] at h
      rw [key_of_mem_patternFindings h]
      exact Or.inl rfl

/-- Findings are about the place of their item. -/
theorem location_of_mem_findings (h : f ∈ p.findings lineOf item) : f.location = item.location := by
  obtain ⟨-, hpattern | ⟨-, hmetadata⟩⟩ := of_mem_findings h
  · exact (Walk.Item.location_of_pattern? hpattern).symm
  · obtain ⟨subject, hadvice⟩ := Walk.Item.isAdvice_of_mem_metadata hmetadata
    exact congrArg Prod.fst hadvice.key_eq

/-- **What comes from no dialect is a warning.** So every error comes from a dialect. -/
theorem severity_of_no_dialect (h : f ∈ p.findings lineOf item) (hdialect : f.dialect? = none) :
    f.severity = .warning := by
  obtain ⟨hincluded, -⟩ := of_mem_findings h
  cases hitem : item.pattern? with
  | none =>
    rw [findings_eq_metadata hincluded hitem] at h
    obtain ⟨subject, hadvice⟩ := Walk.Item.isAdvice_of_mem_metadata h
    exact hadvice.severity_eq
  | some key =>
    rw [findings_eq_patternFindings hincluded hitem] at h
    rcases of_mem_patternFindings h with ⟨d, -, rfl⟩ | ⟨advice, hadvice, rfl⟩
    · have hsome := Dialect.dialect?_validateWith (p.engines d) d key.1 key.2
      exact absurd (hsome.symm.trans hdialect) (Option.some_ne_none d)
    · exact hadvice.severity_eq

/-! ## Steps -/

/-- How a pattern gets its group. -/
def opening (p : Plan) : Walk.Item → List Grouper.Step
  | .pattern location pattern =>
    if p.excludes location then [] else [.opening location pattern]
  | _ => []

/-- What an item does to the groups. -/
def steps (p : Plan) (lineOf : String → Nat) (item : Walk.Item) : List Grouper.Step :=
  p.opening item ++ (p.findings lineOf item).map .pushing

theorem take_eq (p : Plan) (lineOf : String → Nat) (g : Grouper) (item : Walk.Item) :
    p.take lineOf g item = (p.steps lineOf item).foldl Grouper.perform g := by
  have hopen : p.openItem g item = (p.opening item).foldl Grouper.perform g := by
    cases item with
    | pattern location pattern =>
      simp only [openItem, opening]
      split <;> rfl
    | _ => rfl
  rw [take, steps, List.foldl_append, List.foldl_map, hopen]
  rfl

/-- A group is opened for a pattern that is not excluded. -/
theorem mem_opening {s : Grouper.Step} :
    s ∈ p.opening item ↔ ∃ location pattern, item = .pattern location pattern ∧
      p.excludes location = false ∧ s = .opening location pattern := by
  cases item with
  | pattern location pattern =>
    simp only [opening]
    split
    · rename_i hexcluded
      simp [hexcluded]
    · rename_i hincluded
      simp [hincluded]
  | _ => simp [opening]

/-- What an item does is done under keys of its place, and only if that is not excluded. -/
theorem key_of_mem_steps {s : Grouper.Step} (h : s ∈ p.steps lineOf item) :
    p.excludes item.location = false ∧ s.key.1 = item.location := by
  rcases List.mem_append.1 h with hopening | hpushing
  · obtain ⟨location, pattern, rfl, hincluded, rfl⟩ := mem_opening.1 hopening
    exact ⟨hincluded, rfl⟩
  · obtain ⟨f, hf, rfl⟩ := List.mem_map.1 hpushing
    exact ⟨(of_mem_findings hf).1, location_of_mem_findings hf⟩

/-- What the steps of items push are the findings on the items. -/
theorem finding?_steps (p : Plan) (lineOf : String → Nat) (items : List Walk.Item) :
    (items.flatMap (p.steps lineOf)).filterMap Grouper.Step.finding?
      = items.flatMap (p.findings lineOf) := by
  rw [List.filterMap_flatMap]
  refine List.flatMap_congr fun item _ => ?_
  have hopening : (p.opening item).filterMap Grouper.Step.finding? = [] := by
    rw [List.filterMap_eq_nil_iff]
    intro s hs
    obtain ⟨location, pattern, -, -, rfl⟩ := mem_opening.1 hs
    rfl
  rw [steps, List.filterMap_append, hopening, List.nil_append, List.filterMap_map]
  exact List.filterMap_some

end Plan

/-! ## Reports -/

namespace Report

/-- What the walk of an audit comes upon. -/
def items (p : Plan) (d : Description) : List Walk.Item := Walk.run ⟨d.root, p.limits⟩

/-- The line of a pattern in a description, as a plan asks for it. -/
def lineOf (p : Plan) (d : Description) : String → Nat :=
  (if p.resolvesLines then Lines.Index.ofText d.source else []).find

/-- What an audit does to its groups. -/
def steps (p : Plan) (d : Description) : List Grouper.Step :=
  (items p d).flatMap (p.steps (lineOf p d))

/-- The groups of a report are what the steps of the audit come to. -/
theorem groups_audit (p : Plan) (d : Description) :
    (audit p d).groups = (Grouper.after (steps p d)).finish := by
  have htake : p.take (lineOf p d)
      = fun g item => (p.steps (lineOf p d) item).foldl Grouper.perform g := by
    funext g item
    exact p.take_eq (lineOf p d) g item
  show ((items p d).foldl (p.take (lineOf p d)) .new).finish = _
  rw [htake, Grouper.after, steps, List.foldl_flatMap]

/-- The findings of a report are those on the items of the walk. -/
theorem findings_audit_perm (p : Plan) (d : Description) :
    (audit p d).findings.Perm
      ((items p d).flatMap (p.findings (lineOf p d))) := by
  rw [findings, groups_audit, ← p.finding?_steps]
  exact Grouper.findings_after_perm (steps p d)

/-- The findings of the group of a key are those on the items that have the key. -/
theorem findings_of_mem_groups {p : Plan} {d : Description} {g : Group}
    (h : g ∈ (audit p d).groups) :
    g.findings = ((items p d).flatMap (p.findings (lineOf p d))).filter
      fun f => f.key = g.key := by
  rw [groups_audit, Grouper.finish_after] at h
  obtain ⟨key, -, rfl⟩ := List.mem_map.1 h
  rw [← p.finding?_steps]
  rfl

end Report

end PatternAudit
