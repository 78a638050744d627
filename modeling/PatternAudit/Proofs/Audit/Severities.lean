/-
What the severity of a finding promises.

A finding is a record whose fields can be set one by one, and readers of reports go by one of
them: a summary counts by severity and origin, a log takes its level from the severity, an audit
fails for its errors. That the other fields go with it is said here once (`Finding.Proper`), for
the dialects and the checks that were asked for.

The three constructors of findings set the fields together, each under a condition on its rule
and its fix (`proper_valid`, `proper_error`, `proper_warning`). So it is left to see that whoever
makes a finding meets the condition: the dialects for every answer of their engines, and every
check, which also has to be on. Grouping takes findings as they are, so a report keeps what
holds of each of them.
-/
import PatternAudit.Proofs.Audit.Independence

set_option autoImplicit false

namespace PatternAudit

/-! ## Proper findings -/

/-- What goes together in a finding, where some dialects are active and some checks are on. -/
structure Finding.Proper (dialects : List Dialect) (checks : Checks) (f : Finding) : Prop where
  /-- an error comes from a dialect, whose pattern does not compile, and gives advice -/
  error : f.severity = .error →
    (∃ d ∈ dialects, f.origin = .dialect d) ∧ f.compiles = false ∧
      (f.rule = .dialectSyntax ∨ f.rule = .dialectFault) ∧ f.suggestion.isSome = true
  /-- an accepted pattern compiles and needs no advice -/
  valid : f.severity = .valid →
    (∃ d ∈ dialects, f.origin = .dialect d) ∧ f.compiles = true ∧
      f.suggestion = none ∧ f.suggestedFix = none
  /-- a warning comes from a check that is on, and gives advice -/
  warning : f.severity = .warning →
    f.origin = .quality ∧ f.compiles = true ∧
      checks.makes f.rule = true ∧ f.suggestion.isSome = true
  /-- three rules have fixes -/
  fix : f.suggestedFix.isSome = true →
    f.rule = .dialectSyntax ∨ f.rule = .missingAnchors ∨ f.rule = .pathNaming

namespace Finding

variable {dialects : List Dialect} {checks : Checks} {location pattern : String}

theorem proper_valid {d : Dialect} (hd : d ∈ dialects) :
    (valid location pattern d).Proper dialects checks where
  error h := by cases h
  valid _ := ⟨⟨d, hd, rfl⟩, rfl, rfl, rfl⟩
  warning h := by cases h
  fix h := by cases h

theorem proper_error {d : Dialect} {rule : Rule} {message suggestion : String}
    {suggestedFix : Option String} (hd : d ∈ dialects)
    (hrule : rule = .dialectSyntax ∨ rule = .dialectFault)
    (hfix : suggestedFix.isSome = true → rule = .dialectSyntax) :
    (error location pattern d rule message suggestion suggestedFix).Proper dialects checks where
  error _ := ⟨⟨d, hd, rfl⟩, rfl, hrule, rfl⟩
  valid h := by cases h
  warning h := by cases h
  fix h := Or.inl (hfix h)

theorem proper_warning {rule : Rule} {message suggestion : String} {suggestedFix : Option String}
    (hrule : checks.makes rule = true)
    (hfix : suggestedFix.isSome = true → rule = .missingAnchors ∨ rule = .pathNaming) :
    (warning location pattern rule message suggestion suggestedFix).Proper dialects checks where
  error h := by cases h
  valid h := by cases h
  warning _ := ⟨rfl, rfl, hrule, rfl⟩
  fix h := Or.inr (hfix h)

/-- The line is none of the fields that go together. -/
theorem Proper.atLine {f : Finding} (h : f.Proper dialects checks) (line : Nat) :
    (f.atLine line).Proper dialects checks :=
  ⟨h.error, h.valid, h.warning, h.fix⟩

end Finding

/-! ## Who makes findings -/

/-- Whatever its engine says, a dialect makes proper findings. -/
theorem Dialect.proper_validateWith {dialects : List Dialect} {d : Dialect} (hd : d ∈ dialects)
    (checks : Checks) (engine : Engine) (location pattern : String) :
    (d.validateWith engine location pattern).Proper dialects checks := by
  unfold validateWith
  split
  · exact Finding.proper_valid hd
  · exact Finding.proper_error hd (Or.inl rfl) fun _ => rfl
  · exact Finding.proper_error hd (Or.inr rfl) fun hnone => by cases hnone

section Checks

variable {dialects : List Dialect} {checks : Checks}

theorem Pattern.proper_of_mem_check {location pattern : String} {f : Finding}
    (h : f ∈ check location pattern checks) : f.Proper dialects checks := by
  simp only [check, List.mem_append] at h
  rcases h with (hpermissive | hanchors) | hbacktracking
  · split at hpermissive
    · split at hpermissive
      · rename_i hon
        rw [List.mem_singleton.1 hpermissive]
        exact Finding.proper_warning hon fun hnone => by cases hnone
      · exact absurd hpermissive List.not_mem_nil
    · exact absurd hpermissive List.not_mem_nil
  · split at hanchors
    · rename_i hfails
      simp only [Bool.and_eq_true] at hfails
      rw [List.mem_singleton.1 hanchors]
      exact Finding.proper_warning hfails.1.1 fun _ => Or.inl rfl
    · exact absurd hanchors List.not_mem_nil
  · split at hbacktracking
    · rename_i hfails
      rw [List.mem_singleton.1 hbacktracking]
      exact Finding.proper_warning (Bool.and_eq_true_iff.1 hfails).1 fun hnone => by cases hnone
    · exact absurd hbacktracking List.not_mem_nil

/-- A check on an element finds something only if it is on. -/
theorem Api.proper_of_mem_findingIf {flag lacks : Bool} {f g : Finding}
    (hg : flag = true → g.Proper dialects checks) (h : f ∈ findingIf (flag && lacks) g) :
    f.Proper dialects checks := by
  unfold findingIf at h
  split at h
  · rename_i hfails
    rw [List.mem_singleton.1 h]
    exact hg (Bool.and_eq_true_iff.1 hfails).1
  · exact absurd h List.not_mem_nil

theorem Walk.Item.proper_of_mem_metadata {item : Item} {f : Finding}
    (h : f ∈ item.metadata checks) : f.Proper dialects checks := by
  -- a check on an operation or a schema is a flag, a condition, and a warning without a fix
  have hplain : ∀ {flag lacks : Bool} {location pattern message suggestion : String} {rule : Rule},
      f ∈ Api.findingIf (flag && lacks) (.warning location pattern rule message suggestion none) →
      checks.makes rule = flag → f.Proper dialects checks := by
    rintro flag lacks location pattern message suggestion rule hfound rfl
    refine Api.proper_of_mem_findingIf (fun hon => ?_) hfound
    exact Finding.proper_warning hon fun hnone => by cases hnone
  cases item with
  | pattern | skipped => exact absurd h List.not_mem_nil
  | operation o =>
    rcases List.mem_append.1 h with hid | hsummary
    · exact hplain hid rfl
    · exact hplain hsummary rfl
  | schema s =>
    rcases List.mem_append.1 h with hdescription | hexample
    · exact hplain hdescription rfl
    · exact hplain hexample rfl
  | path e =>
    refine Api.proper_of_mem_findingIf (fun hon => ?_) h
    exact Finding.proper_warning hon fun _ => Or.inr rfl

end Checks

/-- What an item adds to an audit is proper. -/
theorem Plan.proper_of_mem_findings {p : Plan} {lineOf : String → Nat} {item : Walk.Item}
    {f : Finding} (h : f ∈ p.findings lineOf item) : f.Proper p.dialects p.checks := by
  have hincluded := (of_mem_findings h).1
  cases hitem : item.pattern? with
  | none =>
    rw [findings_eq_metadata hincluded hitem] at h
    exact Walk.Item.proper_of_mem_metadata h
  | some key =>
    rw [findings_eq_patternFindings hincluded hitem] at h
    obtain ⟨g, hg, rfl⟩ := List.mem_map.1 h
    refine Finding.Proper.atLine ?_ _
    rcases List.mem_append.1 hg with hdialect | hadvice
    · obtain ⟨d, hd, rfl⟩ := List.mem_map.1 hdialect
      exact Dialect.proper_validateWith hd ..
    · exact Pattern.proper_of_mem_check hadvice

/-! ## Reports -/

namespace Report

/-- **The findings of a report are proper.** Whatever the description is, whatever the profile
asks for and whatever the engines answer: the severity of a finding fixes its origin, its
verdict, its rule and its advice; fixes come under three rules only; and a finding stands in the
group of its own place and pattern. -/
theorem findings_proper (engines : Dialect → Engine) (p : Profile) (d : Description) {g : Group}
    {f : Finding} (hg : g ∈ (audit (Plan.ofProfile engines p) d).groups) (hf : f ∈ g.findings) :
    f.Proper p.activeDialects p.checks ∧ f.location = g.location ∧ f.pattern = g.pattern := by
  rw [findings_of_mem_groups hg] at hf
  obtain ⟨hf, hkey⟩ := List.mem_filter.1 hf
  obtain ⟨item, -, hf⟩ := List.mem_flatMap.1 hf
  have hkey : f.key = g.key := of_decide_eq_true hkey
  exact ⟨Plan.proper_of_mem_findings hf, congrArg Prod.fst hkey, congrArg Prod.snd hkey⟩

/-- A description whose one pattern lacks a bracket. -/
def unclosedClass : Description where
  name := "codes.yaml"
  root := .obj [("swagger", .str "2.0"),
    ("definitions", .obj [("Code", .obj [("pattern", .str "[a-z")])])]
  source := ""
  distinct := by decide

/-- An engine that accepts one pattern only. -/
def acceptsOnly (accepted : String) : Engine := fun pattern =>
  if pattern = accepted then .accepted else .rejected "unclosed class" none

/-- The one error on the pattern is proper. It has a fix, under the rule of the dialects. -/
theorem unclosedClass_findings_proper :
    let report := audit (Plan.ofProfile (fun _ => acceptsOnly "[a-z]") Profile.default) unclosedClass
    ∃ g ∈ report.groups, ∃ f ∈ g.findings,
      f.severity = .error ∧ f.suggestedFix = some "[a-z]" ∧
        f.Proper [.pcre] Checks.none ∧ f.location = g.location ∧ f.pattern = g.pattern := by
  intro report
  let plan := Plan.ofProfile (fun _ => acceptsOnly "[a-z]") Profile.default
  let item : Walk.Item := .pattern "#/definitions/Code" "[a-z"
  let f := (Dialect.pcre.validateWith (acceptsOnly "[a-z]") "#/definitions/Code" "[a-z").atLine
    (lineOf plan unclosedClass "[a-z")
  have hactive : Profile.default.activeDialects = [.pcre] := by decide +kernel
  have hpatterns : Walk.patterns ⟨unclosedClass.root, Profile.default.limits⟩
      = [("#/definitions/Code", "[a-z")] := Walk.patterns_of_test 4 (by decide +kernel)
  have hitem : item ∈ items plan unclosedClass :=
    Walk.mem_patterns.1 (hpatterns.symm ▸ List.mem_singleton_self _)
  have hfound : f ∈ plan.findings (lineOf plan unclosedClass) item := by
    rw [Plan.findings_eq_patternFindings (by decide +kernel) rfl]
    refine List.mem_map.2 ⟨_, List.mem_append_left _ ?_, rfl⟩
    refine List.mem_map.2 ⟨.pcre, ?_, rfl⟩
    show Dialect.pcre ∈ Profile.default.activeDialects
    rw [hactive]
    exact List.mem_singleton_self _
  obtain ⟨g, hg, hkey⟩ : ∃ g ∈ report.groups, g.key = f.key := by
    refine exists_group_iff.2 ⟨.pushing f, List.mem_flatMap.2 ⟨item, hitem, ?_⟩, rfl⟩
    exact List.mem_append_right _ (List.mem_map_of_mem hfound)
  have hf : f ∈ g.findings := by
    rw [findings_of_mem_groups hg]
    exact List.mem_filter.2
      ⟨List.mem_flatMap.2 ⟨item, hitem, hfound⟩, decide_eq_true hkey.symm⟩
  have hproper := findings_proper (fun _ => acceptsOnly "[a-z]") Profile.default unclosedClass hg hf
  rw [hactive] at hproper
  exact ⟨g, hg, f, hf, by decide +kernel, by decide +kernel, hproper⟩

end Report

end PatternAudit
