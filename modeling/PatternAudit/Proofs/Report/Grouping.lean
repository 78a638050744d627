/-
What groups come to.

A grouper finds groups by their positions, and remembers the positions by keys. What that
comes to is a closed form: the keys in the order of their first use, and under each of them
the findings that were pushed with it (`finish_after`). One step does no more than the closed
form asks for, because the index leads to one group for each key: opening adds a group at
the end or nothing (`finish_openKey`), pushing changes the one group of a key
(`finish_push`).

All else about groups is read off the closed form, here and for whole audits.
-/
import Mathlib.Data.List.Basic
import Mathlib.Data.List.Induction
import Mathlib.Data.List.Nodup
import PatternAudit.Report.Group

set_option autoImplicit false

namespace PatternAudit

/-! ## First occurrences -/

section FirstOccurrences

variable {α : Type} [BEq α] [LawfulBEq α]

theorem eraseDups_concat [DecidableEq α] (ks : List α) (k : α) :
    (ks ++ [k]).eraseDups = if k ∈ ks then ks.eraseDups else ks.eraseDups ++ [k] := by
  rw [List.eraseDups_append]
  by_cases hk : k ∈ ks
  · simp [List.removeAll, hk]
  · simp [List.removeAll, hk, List.eraseDups_cons]

/-- Leaving elements out does not change which of the others come first. -/
theorem eraseDups_filter (p : α → Bool) (ks : List α) :
    (ks.filter p).eraseDups = ks.eraseDups.filter p := by
  classical
  induction ks using List.reverseRecOn with
  | nil => rfl
  | append_singleton ks k ih =>
    rw [List.filter_append, eraseDups_concat]
    by_cases hp : p k = true
    · have hone : [k].filter p = [k] := List.filter_cons_of_pos hp
      rw [hone, eraseDups_concat, ih]
      by_cases hk : k ∈ ks
      · rw [if_pos hk, if_pos (List.mem_filter.2 ⟨hk, hp⟩)]
      · rw [if_neg hk, if_neg fun h => hk (List.mem_filter.1 h).1, List.filter_append, hone]
    · have hnone : [k].filter p = [] := List.filter_cons_of_neg hp
      rw [hnone, List.append_nil, ih]
      split
      · rfl
      · rw [List.filter_append, hnone, List.append_nil]

theorem nodup_eraseDups (ks : List α) : ks.eraseDups.Nodup := by
  classical
  induction ks using List.reverseRecOn with
  | nil => exact List.nodup_nil
  | append_singleton ks k ih =>
    rw [eraseDups_concat]
    split
    · exact ih
    · rename_i hk
      rw [← List.concat_eq_append]
      exact ih.concat (mt List.mem_eraseDups.1 hk)

/-- Adding what is not there yet, one after the other. -/
theorem foldl_add_new [DecidableEq α] (ks : List α) :
    ks.foldl (fun seen k => if k ∈ seen then seen else seen ++ [k]) [] = ks.eraseDups := by
  induction ks using List.reverseRecOn with
  | nil => rfl
  | append_singleton ks k ih =>
    rw [List.foldl_append, ih, eraseDups_concat]
    simp only [List.foldl_cons, List.foldl_nil, List.mem_eraseDups]

end FirstOccurrences

/-- A list falls into the parts that lie under each of the keys of its elements. -/
theorem flatMap_filter_perm {α κ : Type} [DecidableEq κ] (key : α → κ) {ks : List κ}
    (hks : ks.Nodup) {xs : List α} (h : ∀ x ∈ xs, key x ∈ ks) :
    (ks.flatMap fun k => xs.filter fun x => key x = k).Perm xs := by
  induction ks generalizing xs with
  | nil =>
    rw [List.eq_nil_iff_forall_not_mem.2 fun x hx => List.not_mem_nil (h x hx)]
    exact .refl _
  | cons k ks ih =>
    obtain ⟨hk, hks⟩ := List.nodup_cons.1 hks
    -- what lies under the other keys is found among what does not lie under this one
    have hothers : (ks.flatMap fun k' => xs.filter fun x => key x = k')
        = ks.flatMap fun k' => (xs.filter fun x => !decide (key x = k)).filter
            fun x => key x = k' := by
      refine List.flatMap_congr fun k' hk' => ?_
      rw [List.filter_filter]
      refine List.filter_congr fun x _ => ?_
      by_cases hx : key x = k'
      · have hne : k' ≠ k := fun heq => hk (heq ▸ hk')
        simp [hx, hne]
      · simp [hx]
    have hrest : ∀ x ∈ xs.filter fun x => !decide (key x = k), key x ∈ ks := by
      intro x hx
      obtain ⟨hx, hne⟩ := List.mem_filter.1 hx
      rcases List.mem_cons.1 (h x hx) with heq | hmem
      · simp [heq] at hne
      · exact hmem
    rw [List.flatMap_cons, hothers]
    exact ((ih hks hrest).append_left _).trans (List.filter_append_perm _ xs)

namespace Grouper

/-! ## One step -/

/-- No two groups have the same key. -/
theorem nodup_keys (g : Grouper) : (g.finish.map Group.key).Nodup := by
  rw [List.nodup_iff_pairwise_ne, List.pairwise_iff_getElem]
  intro i j hi hj hlt heq
  -- the index knows one position for a key
  have hposition : ∀ n (hn : n < (g.finish.map Group.key).length),
      g.index[(g.finish.map Group.key)[n]]? = some n := by
    intro n hn
    rw [g.indexed, ← Array.getElem?_toList, ← List.getElem?_map]
    exact List.getElem?_eq_getElem hn
  have hboth := hposition i hi
  rw [heq, hposition j hj] at hboth
  cases hboth
  exact Nat.lt_irrefl i hlt

/-- The index knows the keys of the groups. -/
theorem index_eq_none_iff {g : Grouper} {key : String × String} :
    g.index[key]? = none ↔ key ∉ g.finish.map Group.key := by
  rw [Option.eq_none_iff_forall_ne_some]
  constructor
  · intro h hmem
    obtain ⟨i, hi⟩ := List.mem_iff_getElem?.1 hmem
    rw [List.getElem?_map] at hi
    apply h i
    rw [g.indexed, ← Array.getElem?_toList]
    exact hi
  · intro h i hi
    rw [g.indexed, ← Array.getElem?_toList, ← List.getElem?_map] at hi
    exact h (List.mem_of_getElem? hi)

/-- Opening a key adds a group at the end, if the key is new. -/
theorem finish_openKey (g : Grouper) (location pattern : String) :
    (g.openKey location pattern).1.finish
      = if (location, pattern) ∈ g.finish.map Group.key then g.finish
        else g.finish ++ [.opened location pattern] := by
  unfold openKey
  split
  · rename_i i hi
    have hmem : (location, pattern) ∈ g.finish.map Group.key := by
      by_contra hnew
      rw [← index_eq_none_iff, hi] at hnew
      cases hnew
    rw [if_pos hmem]
  · rename_i hnone
    rw [if_neg (index_eq_none_iff.1 hnone)]
    exact Array.toList_push

/-- Opening a key tells where its group stands. -/
theorem index_openKey (g : Grouper) (location pattern : String) :
    (g.openKey location pattern).1.index[(location, pattern)]?
      = some (g.openKey location pattern).2 := by
  unfold openKey
  split
  · rename_i i hi
    exact hi
  · exact Std.HashMap.getElem?_insert_self

/-- Pushing a finding changes the group of its key, which it opens before. -/
theorem finish_push (g : Grouper) (f : Finding) :
    (g.push f).finish
      = (g.openKey f.location f.pattern).1.finish.map
          fun x => if x.key = f.key then x.add f else x := by
  have hindex := index_openKey g f.location f.pattern
  have hfinish : (g.push f).finish = ((g.openKey f.location f.pattern).1.groups.modify
      (g.openKey f.location f.pattern).2 (·.add f)).toList := rfl
  generalize g.openKey f.location f.pattern = opened at hindex hfinish ⊢
  obtain ⟨g', i⟩ := opened
  rw [hfinish]
  apply List.ext_getElem?
  intro j
  rw [Array.getElem?_toList, Array.getElem?_modify, List.getElem?_map]
  show _ = (g'.groups.toList[j]?).map _
  rw [Array.getElem?_toList]
  -- the groups before and after agree at a position unless it is the one that the key has
  cases hj : g'.groups[j]? with
  | none => simp
  | some x =>
    have hkey : x.key = f.key ↔ i = j := by
      have hat := g'.indexed f.key j
      rw [hj, Option.map_some, Option.some_inj] at hat
      rw [← hat]
      show g'.index[(f.location, f.pattern)]? = some j ↔ i = j
      rw [hindex, Option.some_inj]
    by_cases hij : i = j
    · simp [hij, hkey.2 hij]
    · simp [hij, mt hkey.1 hij]

/-! ## Any steps -/

/-- Something that is done to a grouper. -/
inductive Step where
  /-- a key is opened -/
  | opening (location pattern : String)
  /-- a finding is pushed -/
  | pushing (f : Finding)

namespace Step

/-- The key that a step is about. -/
def key : Step → String × String
  | opening location pattern => (location, pattern)
  | pushing f => f.key

/-- The finding that a step pushes. -/
def finding? : Step → Option Finding
  | opening _ _ => none
  | pushing f => some f

end Step

/-- Takes a step. -/
def perform (g : Grouper) : Step → Grouper
  | .opening location pattern => (g.openKey location pattern).1
  | .pushing f => g.push f

/-- What comes of steps, one after the other. -/
def after (steps : List Step) : Grouper := steps.foldl perform .new

/-- The group of a key that holds what steps have pushed with it. -/
def groupOf (steps : List Step) (key : String × String) : Group :=
  ⟨key.1, key.2, (steps.filterMap Step.finding?).filter fun f => f.key = key⟩

/-- What is pushed is pushed with a key that is used. -/
theorem key_mem_of_pushed {steps : List Step} {f : Finding}
    (h : f ∈ steps.filterMap Step.finding?) : f.key ∈ steps.map Step.key := by
  obtain ⟨s, hs, hf⟩ := List.mem_filterMap.1 h
  cases s with
  | opening => cases hf
  | pushing f' =>
    cases hf
    exact List.mem_map.2 ⟨.pushing f, hs, rfl⟩

/-- Before a key is used, nothing is pushed with it. -/
theorem groupOf_of_not_mem {steps : List Step} {key : String × String}
    (h : key ∉ steps.map Step.key) : groupOf steps key = .opened key.1 key.2 := by
  have hnone : ((steps.filterMap Step.finding?).filter fun f => f.key = key) = [] := by
    rw [List.filter_eq_nil_iff]
    intro f hf hkey
    exact h (of_decide_eq_true hkey ▸ key_mem_of_pushed hf)
  rw [groupOf, hnone]
  rfl

/-- **The closed form.** The groups that any steps lead to: a group for each key, in the order
of first use, with the findings that were pushed with the key, in the order of pushing. -/
theorem finish_after (steps : List Step) :
    (after steps).finish = (steps.map Step.key).eraseDups.map (groupOf steps) := by
  induction steps using List.reverseRecOn with
  | nil => rfl
  | append_singleton steps s ih =>
    have hafter : after (steps ++ [s]) = (after steps).perform s := by
      rw [after, List.foldl_append]
      rfl
    have hkeys : (after steps).finish.map Group.key = (steps.map Step.key).eraseDups := by
      rw [ih, List.map_map]
      exact List.map_id _
    -- opening the key of the step is all that it does to the keys
    have hopen : ((after steps).openKey s.key.1 s.key.2).1.finish
        = ((steps ++ [s]).map Step.key).eraseDups.map (groupOf steps) := by
      rw [finish_openKey, hkeys, List.map_append, List.map_singleton, eraseDups_concat]
      by_cases hmem : s.key ∈ steps.map Step.key
      · rw [if_pos (List.mem_eraseDups.2 hmem), if_pos hmem, ih]
      · rw [if_neg (mt List.mem_eraseDups.1 hmem), if_neg hmem, List.map_append, ih,
          List.map_singleton, groupOf_of_not_mem hmem]
    rw [hafter]
    cases s with
    | opening location pattern =>
      have hsame : groupOf (steps ++ [.opening location pattern]) = groupOf steps := by
        funext key
        rw [groupOf, groupOf, List.filterMap_append]
        exact congrArg _ (congrArg _ (List.append_nil _))
      rw [hsame]
      exact hopen
    | pushing f =>
      show ((after steps).push f).finish = _
      rw [finish_push]
      refine (congrArg _ hopen).trans ?_
      rw [List.map_map]
      refine List.map_congr_left fun key _ => ?_
      show (if (groupOf steps key).key = f.key then (groupOf steps key).add f
        else groupOf steps key) = groupOf (steps ++ [.pushing f]) key
      have hown : (groupOf steps key).key = key := rfl
      rw [hown]
      by_cases hkey : f.key = key
      · rw [if_pos hkey.symm, groupOf, groupOf, List.filterMap_append, List.filter_append]
        simp [Group.add, Step.finding?, hkey]
      · rw [if_neg (Ne.symm hkey), groupOf, groupOf, List.filterMap_append, List.filter_append]
        simp [Step.finding?, hkey]

theorem map_key_finish_after (steps : List Step) :
    (after steps).finish.map Group.key = (steps.map Step.key).eraseDups := by
  rw [finish_after, List.map_map]
  exact List.map_id _

/-- What is pushed by the steps whose keys are kept. -/
theorem filterMap_finding?_filter (keep : String × String → Bool) (steps : List Step) :
    (steps.filter fun s => keep s.key).filterMap Step.finding?
      = (steps.filterMap Step.finding?).filter fun f => keep f.key := by
  rw [List.filterMap_filter, List.filter_filterMap]
  refine List.filterMap_congr fun s _ => ?_
  cases s with
  | opening => simp [Step.finding?]
  | pushing f =>
    by_cases hkeep : keep f.key = true <;> simp [Step.finding?, Step.key, Option.filter, hkeep]

/-- Steps that are left out for their keys take the groups of these keys with them, and leave
the others as they are. -/
theorem finish_after_filter (keep : String × String → Bool) (steps : List Step) :
    (after (steps.filter fun s => keep s.key)).finish
      = (after steps).finish.filter fun g => keep g.key := by
  have hkeys : ((steps.filter fun s => keep s.key).map Step.key).eraseDups
      = (steps.map Step.key).eraseDups.filter keep := by
    rw [← eraseDups_filter, List.filter_map]
    rfl
  rw [finish_after, finish_after, hkeys, List.filter_map]
  refine List.map_congr_left fun key hkey => ?_
  have hkeep : keep key = true := (List.mem_filter.1 hkey).2
  -- under a key that is kept, the same findings are pushed
  rw [groupOf, groupOf, filterMap_finding?_filter, List.filter_filter]
  congr 1
  refine List.filter_congr fun f _ => ?_
  by_cases hf : f.key = key
  · simp [hf, hkeep]
  · simp [hf]

/-- In the groups of a key is what was pushed with it, in the order of pushing. -/
theorem flatMap_findings_filter (steps : List Step) (key : String × String) :
    ((after steps).finish.filter fun g => g.key = key).flatMap (·.findings)
      = (steps.filterMap Step.finding?).filter fun f => f.key = key := by
  have hkeys := nodup_keys (after steps)
  rw [map_key_finish_after] at hkeys
  have hone : ((steps.map Step.key).eraseDups.filter fun k => (groupOf steps k).key = key)
      = List.replicate ((steps.map Step.key).eraseDups.count key) key := by
    rw [← List.filter_beq]
    refine List.filter_congr fun k _ => ?_
    show decide (k = key) = (k == key)
    by_cases hk : k = key <;> simp [hk]
  rw [finish_after, List.filter_map, Function.comp_def, hone]
  by_cases hmem : key ∈ steps.map Step.key
  · rw [List.count_eq_one_of_mem hkeys (List.mem_eraseDups.2 hmem)]
    exact List.append_nil _
  · -- what no step is about has no group, and nothing is pushed with it
    rw [List.count_eq_zero_of_not_mem (mt List.mem_eraseDups.1 hmem)]
    exact (congrArg Group.findings (groupOf_of_not_mem hmem)).symm

/-- The findings of all groups are those that were pushed. -/
theorem findings_after_perm (steps : List Step) :
    ((after steps).finish.flatMap (·.findings)).Perm (steps.filterMap Step.finding?) := by
  have hnodup := nodup_keys (after steps)
  rw [map_key_finish_after] at hnodup
  rw [finish_after, List.flatMap_map]
  refine flatMap_filter_perm Finding.key hnodup fun f hf => ?_
  exact List.mem_eraseDups.2 (key_mem_of_pushed hf)

theorem after_pushing (fs : List Finding) :
    after (fs.map .pushing) = fs.foldl push .new :=
  List.foldl_map

/-- **The law of grouping.** Whatever is opened and pushed, in any order: no two groups have
the same key, the groups stand in the order in which their keys were first used, and a group
holds what was pushed with its key, in the order of pushing. So no finding is lost, doubled
or put elsewhere; a list of findings that is grouped is rearranged and nothing else. -/
theorem groups_hold_what_was_pushed (steps : List Step) (fs : List Finding) :
    ((after steps).finish.map Group.key).Nodup ∧
      (after steps).finish.map Group.key = (steps.map Step.key).eraseDups ∧
      (∀ g ∈ (after steps).finish,
        g.findings = (steps.filterMap Step.finding?).filter fun f => f.key = g.key) ∧
      ((after steps).finish.flatMap (·.findings)).Perm (steps.filterMap Step.finding?) ∧
      ((Groups.ofFindings fs).flatMap (·.findings)).Perm fs := by
  refine ⟨nodup_keys _, map_key_finish_after steps, ?_, findings_after_perm steps, ?_⟩
  · intro g hg
    rw [finish_after] at hg
    obtain ⟨key, -, rfl⟩ := List.mem_map.1 hg
    rfl
  · have hpushed : (fs.map Step.pushing).filterMap Step.finding? = fs := by
      rw [List.filterMap_map]
      exact List.filterMap_some
    have hperm := findings_after_perm (fs.map .pushing)
    rw [after_pushing, hpushed] at hperm
    exact hperm

end Grouper

end PatternAudit
