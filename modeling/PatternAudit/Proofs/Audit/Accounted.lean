/-
Every pattern is accounted for.

The patterns that an audit checks are those that the walk finds and the profile does not
exclude (`Plan.audited`). Each of them gets the findings of the dialects, in their order, and
no other item gets any; so the dialects that found something on the patterns with certain
keys are the dialects of the plan, once for each of these patterns (`dialects_of_findings`).
For all keys this counts the findings of a dialect. For one key it gives the findings of one
group, and there it comes in that no two patterns have one location.
-/
import PatternAudit.Proofs.Audit.Items
import PatternAudit.Proofs.Walk.Locations

set_option autoImplicit false

namespace PatternAudit

/-! ## Dialects of a profile -/

namespace Profile

/-- A dialect is active once, where it is first named, whatever the other names for it are. -/
theorem activeDialects_eq (p : Profile) :
    p.activeDialects = (p.dialects.filterMap Dialect.ofName?).eraseDups :=
  foldl_add_new _

theorem nodup_activeDialects (p : Profile) : p.activeDialects.Nodup := by
  rw [activeDialects_eq]
  exact nodup_eraseDups _

end Profile

/-! ## Audited patterns -/

namespace Plan

/-- The patterns that are checked, each with its location. -/
def audited (p : Plan) (items : List Walk.Item) : List (String × String) :=
  (items.filterMap Walk.Item.pattern?).filter fun key => !p.excludes key.1

variable {p : Plan} {lineOf : String → Nat} {item : Walk.Item} {items : List Walk.Item}

theorem audited_append (p : Plan) (a b : List Walk.Item) :
    p.audited (a ++ b) = p.audited a ++ p.audited b := by
  rw [audited, List.filterMap_append, List.filter_append]
  rfl

theorem mem_audited {key : String × String} :
    key ∈ p.audited items ↔
      ∃ item ∈ items, item.pattern? = some key ∧ p.excludes item.location = false := by
  simp only [audited, List.mem_filter, List.mem_filterMap, Bool.not_eq_true']
  constructor
  · rintro ⟨⟨item, hitem, hkey⟩, hincluded⟩
    refine ⟨item, hitem, hkey, ?_⟩
    rw [Walk.Item.location_of_pattern? hkey]
    exact hincluded
  · rintro ⟨item, hitem, hkey, hincluded⟩
    rw [Walk.Item.location_of_pattern? hkey] at hincluded
    exact ⟨⟨item, hitem, hkey⟩, hincluded⟩

theorem audited_of_not {item : Walk.Item}
    (h : item.pattern? = none ∨ p.excludes item.location = true) : p.audited [item] = [] := by
  rw [List.eq_nil_iff_forall_not_mem]
  intro key hkey
  obtain ⟨item', hitem, hpattern, hincluded⟩ := mem_audited.1 hkey
  rw [List.mem_singleton.1 hitem] at hpattern hincluded
  rcases h with hnone | hexcluded
  · rw [hnone] at hpattern
    cases hpattern
  · rw [hexcluded] at hincluded
    cases hincluded

theorem audited_of_pattern {key : String × String} (hkey : item.pattern? = some key)
    (h : p.excludes item.location = false) : p.audited [item] = [key] := by
  rw [Walk.Item.location_of_pattern? hkey] at h
  simp [audited, hkey, h]

/-- What is found on an item, with what is checked of it: nothing on one that is excluded, advice
on one that is no pattern, and all there is on a pattern. -/
theorem findings_cases (p : Plan) (lineOf : String → Nat) (item : Walk.Item) :
    (p.findings lineOf item = [] ∧ p.audited [item] = []) ∨
      (p.findings lineOf item = item.metadata p.checks ∧ p.audited [item] = []) ∨
      ∃ key, p.findings lineOf item = p.patternFindings (lineOf key.2) key.1 key.2 ∧
        p.audited [item] = [key] := by
  by_cases hexcluded : p.excludes item.location = true
  · exact Or.inl ⟨findings_of_excluded hexcluded, audited_of_not (Or.inr hexcluded)⟩
  have hincluded : p.excludes item.location = false := Bool.eq_false_iff.2 hexcluded
  cases hitem : item.pattern? with
  | none =>
    exact Or.inr (Or.inl ⟨findings_eq_metadata hincluded hitem, audited_of_not (Or.inl hitem)⟩)
  | some key =>
    exact Or.inr (Or.inr ⟨key, findings_eq_patternFindings hincluded hitem,
      audited_of_pattern hitem hincluded⟩)

/-- The dialects that found something on an item: those of the plan if it is a pattern that is
checked, and its key is asked for. -/
theorem dialects_of_item (p : Plan) (lineOf : String → Nat) (item : Walk.Item)
    (asked : String × String → Bool) :
    ((p.findings lineOf item).filter fun f => asked f.key).filterMap Finding.dialect?
      = (List.replicate ((p.audited [item]).countP asked) p.dialects).flatten := by
  rcases p.findings_cases lineOf item with ⟨hfindings, haudited⟩ | ⟨hfindings, haudited⟩
    | ⟨key, hfindings, haudited⟩
  · rw [hfindings, haudited]
    rfl
  · rw [hfindings, haudited, List.countP_nil, List.replicate_zero, List.flatten_nil,
      List.filterMap_eq_nil_iff]
    intro f hf
    obtain ⟨subject, hadvice⟩ := Walk.Item.isAdvice_of_mem_metadata (List.mem_filter.1 hf).1
    exact hadvice.dialect?_eq
  · rw [hfindings, haudited]
    -- all that is found on a pattern has its key, so it is asked for as a whole or not at all
    have hkeys : ∀ f ∈ p.patternFindings (lineOf key.2) key.1 key.2, f.key = key :=
      fun f hf => key_of_mem_patternFindings hf
    by_cases hasked : asked key = true
    · have hall : (p.patternFindings (lineOf key.2) key.1 key.2).filter (fun f => asked f.key)
          = p.patternFindings (lineOf key.2) key.1 key.2 := by
        rw [List.filter_eq_self]
        intro f hf
        rw [hkeys f hf, hasked]
      rw [hall, dialects_patternFindings]
      simp [hasked]
    · have hnone : (p.patternFindings (lineOf key.2) key.1 key.2).filter (fun f => asked f.key)
          = [] := by
        rw [List.filter_eq_nil_iff]
        intro f hf
        rw [hkeys f hf]
        exact hasked
      rw [hnone]
      simp [hasked]

/-- **What the dialects find.** On the patterns whose keys are asked for, every dialect finds
something once for each pattern that is checked. -/
theorem dialects_of_findings (p : Plan) (lineOf : String → Nat) (items : List Walk.Item)
    (asked : String × String → Bool) :
    ((items.flatMap (p.findings lineOf)).filter fun f => asked f.key).filterMap Finding.dialect?
      = (List.replicate ((p.audited items).countP asked) p.dialects).flatten := by
  induction items with
  | nil => rfl
  | cons item items ih =>
    have haudited : p.audited (item :: items) = p.audited [item] ++ p.audited items :=
      p.audited_append [item] items
    rw [List.flatMap_cons, List.filter_append, List.filterMap_append, dialects_of_item, ih,
      haudited, List.countP_append, List.replicate_add, List.flatten_append]

end Plan

/-! ## Groups -/

namespace Report

variable {p : Plan} {d : Description}

/-- A group has the key of a step. -/
theorem exists_group_iff {key : String × String} :
    (∃ g ∈ (audit p d).groups, g.key = key) ↔ ∃ s ∈ steps p d, s.key = key := by
  rw [← List.mem_map, ← List.mem_map, groups_audit, Grouper.map_key_finish_after,
    List.mem_eraseDups]

/-- A pattern that is checked has a group, with or without findings. -/
theorem exists_group_of_audited {key : String × String}
    (h : key ∈ p.audited (items p d)) :
    ∃ g ∈ (audit p d).groups, g.key = key := by
  obtain ⟨item, hitem, hkey, hincluded⟩ := Plan.mem_audited.1 h
  cases item with
  | pattern location pattern =>
    cases hkey
    have hopening : .opening location pattern ∈ p.opening (.pattern location pattern) :=
      Plan.mem_opening.2 ⟨location, pattern, rfl, hincluded, rfl⟩
    have hstep : .opening location pattern ∈ steps p d :=
      List.mem_flatMap.2 ⟨_, hitem, List.mem_append_left _ hopening⟩
    exact exists_group_iff.2 ⟨_, hstep, rfl⟩
  | _ => cases hkey

/-- A dialect finds something as often as a pattern is checked. -/
theorem countP_origin {dialect : Dialect} (hmem : dialect ∈ p.dialects)
    (hnodup : p.dialects.Nodup) :
    (audit p d).findings.countP (fun f => f.origin = .dialect dialect)
      = (p.audited (items p d)).length := by
  have hall := p.dialects_of_findings (lineOf p d) (items p d) fun _ => true
  rw [List.filter_true, List.countP_true] at hall
  have hcount := congrArg (List.count dialect) hall
  rw [List.count_flatten, List.map_replicate, List.sum_replicate_nat,
    List.count_eq_one_of_mem hnodup hmem, Nat.mul_one, List.count, List.countP_filterMap] at hcount
  rw [(findings_audit_perm p d).countP_eq, ← hcount]
  refine List.countP_congr fun f _ => ?_
  rw [decide_eq_true_eq, Finding.origin_eq_dialect_iff]
  cases f.dialect? <;> simp

/-- Where no two patterns have one location, every dialect finds one thing on a pattern, in the
order of the dialects. -/
theorem dialects_of_group {g : Group} (hg : g ∈ (audit p d).groups)
    (hmethods : Walk.MethodsDistinct d.root)
    (haudited : g.key ∈ p.audited (items p d)) :
    g.findings.filterMap Finding.dialect? = p.dialects := by
  -- the key of a pattern that is checked once comes once, so its dialects come once, too
  have hlocations := Walk.nodup_locations (w := ⟨d.root, p.limits⟩) d.distinct hmethods
  have hnodup : (p.audited (items p d)).Nodup := hlocations.of_map.filter _
  have hone := List.count_eq_one_of_mem hnodup haudited
  have hdialects := p.dialects_of_findings (lineOf p d) (items p d)
    fun key => key == g.key
  rw [← List.count, hone] at hdialects
  rw [findings_of_mem_groups hg]
  simpa [Bool.beq_eq_decide_eq] using hdialects

/-- A group of no pattern has findings, and all of them are what the checks say of an element
that is not excluded. -/
theorem findings_of_other_group {g : Group} (hg : g ∈ (audit p d).groups)
    (hother : g.key ∉ p.audited (items p d)) :
    g.findings ≠ [] ∧ ∀ f ∈ g.findings, ∃ item ∈ items p d,
      p.excludes item.location = false ∧ f ∈ item.metadata p.checks := by
  rw [findings_of_mem_groups hg]
  constructor
  · obtain ⟨s, hs, hkey⟩ := exists_group_iff.1 ⟨g, hg, rfl⟩
    obtain ⟨item, hitem, hs⟩ := List.mem_flatMap.1 hs
    rcases List.mem_append.1 hs with hopening | hpushing
    · -- the group was not opened for a pattern
      obtain ⟨location, pattern, rfl, hincluded, rfl⟩ := Plan.mem_opening.1 hopening
      exact absurd (Plan.mem_audited.2 ⟨_, hitem, congrArg some hkey, hincluded⟩) hother
    · obtain ⟨f, hf, rfl⟩ := List.mem_map.1 hpushing
      have hsame : f.key = g.key := hkey
      refine List.ne_nil_of_mem (a := f) ?_
      exact List.mem_filter.2 ⟨List.mem_flatMap.2 ⟨item, hitem, hf⟩, decide_eq_true hsame⟩
  · intro f hf
    obtain ⟨hf, hkey⟩ := List.mem_filter.1 hf
    obtain ⟨item, hitem, hf⟩ := List.mem_flatMap.1 hf
    obtain ⟨hincluded, hpattern | ⟨-, hmetadata⟩⟩ := Plan.of_mem_findings hf
    · rw [of_decide_eq_true hkey] at hpattern
      exact absurd (Plan.mem_audited.2 ⟨item, hitem, hpattern, hincluded⟩) hother
    · exact ⟨item, hitem, hincluded, hmetadata⟩

/-- **Every pattern is accounted for**, whatever the engines say of it. A pattern that the walk
finds and the profile does not exclude has a group under its key. Every active dialect finds
something once for each of these patterns. Where no path item has two keys for one method, the
dialects that found something in such a group are the active ones, once each and in their order;
a dialect is active once, however often and under whatever names the profile lists it. Every
other group holds what the checks say of an operation, a schema or a path that is not excluded,
and nothing else. And what the walk skipped is passed on as it is. -/
theorem every_pattern_accounted_for (engines : Dialect → Engine) (p : Profile) (d : Description) :
    let items := Walk.run ⟨d.root, p.limits⟩
    let audited := (items.filterMap Walk.Item.pattern?).filter fun key => !p.excludes key.1
    let report := audit (Plan.ofProfile engines p) d
    (∀ key ∈ audited, ∃ g ∈ report.groups, g.key = key) ∧
      (∀ dialect ∈ p.activeDialects,
        report.findings.countP (fun f => f.origin = .dialect dialect) = audited.length) ∧
      (Walk.MethodsDistinct d.root → ∀ g ∈ report.groups, g.key ∈ audited →
        g.findings.filterMap Finding.dialect? = p.activeDialects) ∧
      (p.activeDialects.Nodup ∧
        p.activeDialects = (p.dialects.filterMap Dialect.ofName?).eraseDups) ∧
      (∀ g ∈ report.groups, g.key ∉ audited → g.findings ≠ [] ∧ ∀ f ∈ g.findings,
        ∃ item ∈ items, p.excludes item.location = false ∧ f ∈ item.metadata p.checks) ∧
      report.skipped = items.filterMap Walk.Item.diagnostic? := by
  intro items audited report
  refine ⟨?_, ?_, ?_, ⟨p.nodup_activeDialects, p.activeDialects_eq⟩, ?_, rfl⟩
  · intro key hkey
    exact exists_group_of_audited hkey
  · intro dialect hdialect
    exact countP_origin hdialect p.nodup_activeDialects
  · intro hmethods g hg haudited
    exact dialects_of_group hg hmethods haudited
  · intro g hg hother
    exact findings_of_other_group hg hother

/-- A path with two operations. One of them has a pattern. -/
def twoOperations : Description where
  name := "items.yaml"
  root := .obj [("openapi", .str "3.0.0"), ("paths", .obj [("/items", .obj [
    ("GET", .obj [("parameters", .arr [
      .obj [("name", .str "prefix"), ("schema", .obj [("pattern", .str "^[a-z]+$")])]])]),
    ("post", .obj [("summary", .str "Adds an item.")])])])]
  source := ""
  distinct := by decide

/-- A profile that names two dialects, in several ways. -/
def manyNames : Profile :=
  { Profile.default with dialects := ["java", "Perl", "go", "pcre", "re2"] }

/-- The two dialects find one thing each on the pattern. -/
theorem twoOperations_accounted_for :
    Walk.MethodsDistinct twoOperations.root ∧ manyNames.activeDialects = [.pcre, .re2] ∧
      ∃ g ∈ (audit (Plan.ofProfile Dialect.engine manyNames) twoOperations).groups,
        g.key = ("#/paths/~1items/get/parameters/0/schema", "^[a-z]+$") ∧
          g.findings.filterMap Finding.dialect? = [.pcre, .re2] := by
  have hmethods : Walk.MethodsDistinct twoOperations.root := by
    refine Walk.methodsDistinct_of_members twoOperations.distinct rfl ?_ ?_
    · decide
    · intro m hm ms hms
      rw [List.mem_singleton.1 hm] at hms
      cases hms
      decide +kernel
  have hactive : manyNames.activeDialects = [.pcre, .re2] := by decide +kernel
  have hpatterns : Walk.patterns ⟨twoOperations.root, manyNames.limits⟩
      = [("#/paths/~1items/get/parameters/0/schema", "^[a-z]+$")] :=
    Walk.patterns_of_test 10 (by decide +kernel)
  obtain ⟨hgroups, -, hdialects, -⟩ :=
    every_pattern_accounted_for Dialect.engine manyNames twoOperations
  have haudited : ("#/paths/~1items/get/parameters/0/schema", "^[a-z]+$")
      ∈ (Walk.patterns ⟨twoOperations.root, manyNames.limits⟩).filter
          fun key => !manyNames.excludes key.1 := by
    rw [hpatterns]
    exact List.mem_singleton_self _
  obtain ⟨g, hg, hkey⟩ := hgroups _ haudited
  refine ⟨hmethods, hactive, g, hg, hkey, ?_⟩
  rw [hdialects hmethods g hg (hkey ▸ haudited), hactive]

end Report

end PatternAudit
