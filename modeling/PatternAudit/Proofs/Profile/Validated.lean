/-
Profiles that were validated.

Validation refuses names and globs that cannot be used; an audit passes over them. The two go
through the same lists, and what the one accepts is what the other can use: a profile is
accepted exactly if it is `Usable` (`validate_eq_ok_iff`). Of a usable profile nothing is
passed over. Every name gives a dialect, which is active, in the order in which the dialects
are first named, and every glob excludes what it matches.
-/
import PatternAudit.Proofs.Audit.Accounted

set_option autoImplicit false

namespace PatternAudit

/-! ## Lists that are read entry by entry -/

section Lists

variable {α β : Type} {f : α → Option β} {xs : List α}

/-- If every entry reads, none is passed over. -/
theorem forall₂_filterMap (h : ∀ x ∈ xs, (f x).isSome = true) :
    List.Forall₂ (fun x y => f x = some y) xs (xs.filterMap f) := by
  induction xs with
  | nil => exact .nil
  | cons x xs ih =>
    obtain ⟨hfirst, hothers⟩ := List.forall_mem_cons.1 h
    obtain ⟨y, hy⟩ := Option.isSome_iff_exists.1 hfirst
    rw [List.filterMap_cons_some hy]
    exact .cons hy (ih hothers)

/-- The first entry that gives something keeps its place when entries are added. -/
theorem findIdx_append_of_mem [DecidableEq β] {y : β} (h : y ∈ xs.filterMap f) (zs : List α) :
    ((xs ++ zs).findIdx fun x => f x = some y) = (xs.findIdx fun x => f x = some y) ∧
      (xs.findIdx fun x => f x = some y) < xs.length := by
  obtain ⟨x, hx, hfx⟩ := List.mem_filterMap.1 h
  have hlt := List.findIdx_lt_length_of_exists (p := fun x => f x = some y)
    ⟨x, hx, decide_eq_true hfx⟩
  rw [List.findIdx_append, if_pos hlt]
  exact ⟨rfl, hlt⟩

/-- What entries give, each once, stands in the order in which it is first given. -/
theorem pairwise_findIdx_eraseDups [DecidableEq β] (f : α → Option β) (xs : List α) :
    (xs.filterMap f).eraseDups.Pairwise fun a b =>
      (xs.findIdx fun x => f x = some a) < xs.findIdx fun x => f x = some b := by
  induction xs using List.reverseRecOn with
  | nil => exact List.Pairwise.nil
  | append_singleton xs x ih =>
    have hbefore : (xs.filterMap f).eraseDups.Pairwise fun a b =>
        ((xs ++ [x]).findIdx fun x => f x = some a) < (xs ++ [x]).findIdx fun x => f x = some b := by
      refine ih.imp_of_mem fun ha hb hlt => ?_
      rw [(findIdx_append_of_mem (List.mem_eraseDups.1 ha) [x]).1,
        (findIdx_append_of_mem (List.mem_eraseDups.1 hb) [x]).1]
      exact hlt
    rw [List.filterMap_append]
    cases hx : f x with
    | none =>
      rw [List.filterMap_cons_none hx, List.filterMap_nil, List.append_nil]
      exact hbefore
    | some y =>
      rw [List.filterMap_cons_some hx, List.filterMap_nil, eraseDups_concat]
      split
      · exact hbefore
      · rename_i hnew
        refine List.pairwise_append.2 ⟨hbefore, List.pairwise_singleton _ _, fun a ha b hb => ?_⟩
        -- what is new is given behind all the others
        obtain ⟨hplace, hlt⟩ := findIdx_append_of_mem (List.mem_eraseDups.1 ha) [x]
        have hlast : xs.length ≤ (xs ++ [x]).findIdx fun x => f x = some b := by
          rw [List.mem_singleton.1 hb, List.findIdx_append, if_neg]
          · omega
          · rw [List.findIdx_lt_length]
            rintro ⟨x', hx', hy⟩
            exact hnew (List.mem_filterMap.2 ⟨x', hx', of_decide_eq_true hy⟩)
        rw [hplace]
        omega

end Lists

namespace Profile

/-! ## What is accepted -/

/-- A test finds no fault if it passes every element. -/
theorem firstFault_eq_ok_iff {α ε : Type} {test : α → Except ε Unit} {xs : List α} :
    firstFault test xs = .ok () ↔ ∀ x ∈ xs, test x = .ok () := by
  induction xs with
  | nil => simp [firstFault]
  | cons x xs ih =>
    rw [firstFault, List.forall_mem_cons]
    cases test x with
    | ok => simpa using ih
    | error e => simp

theorem positive_eq_ok_iff {setting : String} {n : Nat} : positive setting n = .ok () ↔ 0 < n := by
  rw [positive]
  split
  · simp_all
  · simp_all [Nat.pos_iff_ne_zero]

theorem knownDialect_eq_ok_iff {name : String} :
    knownDialect name = .ok () ↔ (Dialect.ofName? name).isSome = true := by
  rw [knownDialect]
  split
  · simp_all
  · simp_all

theorem usableGlob_eq_ok_iff {glob : String} :
    usableGlob glob = .ok () ↔ (Glob.read glob).toOption.isSome = true := by
  rw [usableGlob]
  cases Glob.read glob with
  | ok parts => simp [Except.toOption]
  | error f => simp [Except.toOption]

/-- A profile that asks for something, and for nothing that cannot be done. -/
structure Usable (p : Profile) : Prop where
  asks : p.dialects ≠ [] ∨ p.checks.anyPattern = true ∨ p.checks.anyMetadata = true
  dialects : ∀ name ∈ p.dialects, (Dialect.ofName? name).isSome = true
  maxDepth : 0 < p.limits.maxDepth
  budget : 0 < p.limits.budget
  ecmaTimeout : 0 < p.ecmaTimeout
  excluded : ∀ glob ∈ p.excluded, (Glob.read glob).toOption.isSome = true
  maxEntries : 0 < p.cache.maxEntries

/-- The profiles that are accepted are those that can be used. -/
theorem validate_eq_ok_iff {p : Profile} : p.validate = .ok () ↔ p.Usable := by
  have hasks : (p.dialects.isEmpty && !p.checks.anyPattern && !p.checks.anyMetadata) = false ↔
      (p.dialects ≠ [] ∨ p.checks.anyPattern = true ∨ p.checks.anyMetadata = true) := by
    rw [Ne, ← List.isEmpty_iff]
    cases p.dialects.isEmpty <;> cases p.checks.anyPattern <;> cases p.checks.anyMetadata <;> simp
  have hthen : ∀ {x y : Except Error Unit}, (x >>= fun _ => y) = .ok () ↔ x = .ok () ∧ y = .ok () := by
    intro x y
    rw [bind_eq_ok_iff]
    exact ⟨fun ⟨(), h⟩ => h, fun h => ⟨(), h⟩⟩
  rw [validate]
  constructor
  · intro h
    split at h
    · cases h
    · rename_i hnot
      simp only [hthen, firstFault_eq_ok_iff, positive_eq_ok_iff, knownDialect_eq_ok_iff,
        usableGlob_eq_ok_iff] at h
      obtain ⟨hdialects, hdepth, hbudget, htimeout, hexcluded, hentries⟩ := h
      exact ⟨hasks.1 (Bool.eq_false_iff.2 hnot), hdialects, hdepth, hbudget, htimeout, hexcluded,
        hentries⟩
  · intro h
    rw [hasks.2 h.asks, if_neg Bool.false_ne_true]
    simp only [hthen, firstFault_eq_ok_iff, positive_eq_ok_iff, knownDialect_eq_ok_iff,
      usableGlob_eq_ok_iff]
    exact ⟨h.dialects, h.maxDepth, h.budget, h.ecmaTimeout, h.excluded, h.maxEntries⟩

end Profile

/-! ## What is used -/

/-- Whether a glob, as it is written, matches a location. -/
def Glob.Matches (glob location : String) : Prop :=
  ∃ parts, Glob.read glob = .ok parts ∧ Glob.isMatch parts location = true

/-- A glob that can be used is one that reads. -/
theorem Glob.toOption_read_eq_some_iff {glob : String} {parts : List GlobPart} :
    (Glob.read glob).toOption = some parts ↔ Glob.read glob = .ok parts := by
  cases Glob.read glob with
  | error f => simp [Except.toOption]
  | ok parts' => simp [Except.toOption]

namespace Profile

/-- The position of the first name of a dialect. -/
def firstNamed (p : Profile) (d : Dialect) : Nat :=
  p.dialects.findIdx fun name => Dialect.ofName? name = some d

/-- A location is left out for the globs that can be used and match it. -/
theorem excludes_iff (p : Profile) (location : String) :
    p.excludes location = true ↔ ∃ glob ∈ p.excluded, Glob.Matches glob location := by
  rw [excludes, exclusions, List.any_eq_true]
  constructor
  · rintro ⟨parts, hparts, hmatch⟩
    obtain ⟨glob, hglob, hread⟩ := List.mem_filterMap.1 hparts
    exact ⟨glob, hglob, parts, Glob.toOption_read_eq_some_iff.1 hread, hmatch⟩
  · rintro ⟨glob, hglob, parts, hread, hmatch⟩
    have hparts := Glob.toOption_read_eq_some_iff.2 hread
    exact ⟨parts, List.mem_filterMap.2 ⟨glob, hglob, hparts⟩, hmatch⟩

/-- **A profile that was accepted is used in full.** At least one dialect is active or one check
is on. Every name in it gives a dialect, which is active; the active dialects are those that are
named, each once, in the order in which they are first named. Every glob in it can be read, and
a location is left out if and only if one of the globs matches it. -/
theorem accepted_used_in_full (engines : Dialect → Engine) {p : Profile}
    (h : p.validate = .ok ()) :
    let plan := Plan.ofProfile engines p
    (plan.dialects ≠ [] ∨ plan.checks.anyPattern = true ∨ plan.checks.anyMetadata = true) ∧
      (∀ name ∈ p.dialects, ∃ d ∈ plan.dialects, Dialect.ofName? name = some d) ∧
      (∀ d ∈ plan.dialects, ∃ name ∈ p.dialects, Dialect.ofName? name = some d) ∧
      plan.dialects.Nodup ∧
      plan.dialects.Pairwise (fun d d' => p.firstNamed d < p.firstNamed d') ∧
      List.Forall₂ (fun glob parts => Glob.read glob = .ok parts) p.excluded p.exclusions ∧
      (∀ location, plan.excludes location = true ↔
        ∃ glob ∈ p.excluded, Glob.Matches glob location) := by
  intro plan
  have husable : p.Usable := validate_eq_ok_iff.1 h
  have hdialects : plan.dialects = (p.dialects.filterMap Dialect.ofName?).eraseDups :=
    activeDialects_eq p
  have hactive : ∀ {d}, d ∈ plan.dialects ↔ ∃ name ∈ p.dialects, Dialect.ofName? name = some d := by
    intro d
    rw [hdialects, List.mem_eraseDups, List.mem_filterMap]
  have hnames : ∀ name ∈ p.dialects, ∃ d ∈ plan.dialects, Dialect.ofName? name = some d := by
    intro name hname
    obtain ⟨d, hd⟩ := Option.isSome_iff_exists.1 (husable.dialects name hname)
    exact ⟨d, hactive.2 ⟨name, hname, hd⟩, hd⟩
  refine ⟨?_, hnames, fun d hd => hactive.1 hd, nodup_activeDialects p, ?_, ?_, excludes_iff p⟩
  · refine husable.asks.imp_left fun hnamed => ?_
    obtain ⟨name, hname⟩ := List.exists_mem_of_ne_nil _ hnamed
    obtain ⟨d, hd, -⟩ := hnames name hname
    exact List.ne_nil_of_mem hd
  · rw [hdialects]
    exact pairwise_findIdx_eraseDups Dialect.ofName? p.dialects
  · refine (forall₂_filterMap husable.excluded).imp fun glob parts hread => ?_
    exact Glob.toOption_read_eq_some_iff.1 hread

/-- A profile that names dialects by their languages, and one of them twice. -/
def languages : Profile :=
  { Profile.default with
    dialects := ["Go", " java ", "js", "pcre"]
    excluded := ["#/components/schemas/Legacy*", "**/internal/**"] }

/-- It is accepted. Each language has an active dialect, the first one in front, and a location
that one of the globs matches is left out. -/
theorem languages_used_in_full :
    let plan := Plan.ofProfile Dialect.engine languages
    languages.validate = .ok () ∧ plan.dialects = [.re2, .pcre, .ecma] ∧
      (∃ d ∈ plan.dialects, Dialect.ofName? " java " = some d) ∧ plan.dialects.Nodup ∧
      plan.excludes "#/paths/~1a/internal/get" = true := by
  intro plan
  have haccepted : languages.validate = .ok () := by decide +kernel
  obtain ⟨-, hnames, -, hnodup, -, -, hexcluded⟩ :=
    accepted_used_in_full Dialect.engine haccepted
  refine ⟨haccepted, by decide +kernel, hnames " java " (by decide), hnodup, ?_⟩
  rw [hexcluded]
  exact ⟨"**/internal/**", by decide, _, rfl, by decide +kernel⟩

end Profile

end PatternAudit
