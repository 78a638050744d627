/-
What a walk never exceeds.

A description may refer to itself, and its references may be shared, so the tree that a
walk goes through has no bound of its own. The limits bound it. Three things hold in
every state that a walk goes through: it has followed no more references than the budget
allows, no schema on the stack is nested more than one level deeper than the bound, and
no task's descent went through a reference twice, or through more than the bound.

The budget is kept because a step spends only what is left (`expand_spends`). A schema
is gone into only down to the bound, and what is below it is one level deeper
(`expand_nested`). What a descent went through comes from the trails that tasks are on
(`Trail.chainOk`).
-/
import PatternAudit.Proofs.Walk.Located

set_option autoImplicit false

namespace PatternAudit.Walk

/-! ## Depth -/

/-- How deep a schema is nested in others; all else is nested in none. -/
def Role.depth : Role → Nat
  | .schema depth _ => depth
  | _ => 0

theorem spreadSlots_depth {m : Nat} {location : String} {ms : List (String × Json)}
    {slots : List Slot} (hslots : ∀ slot ∈ slots, slot.role.depth ≤ m) {t : Task}
    (ht : t ∈ (spreadSlots location ms slots).tasks) : t.role.depth ≤ m := by
  obtain ⟨slot, hslot, v, -, ht⟩ := mem_spreadSlots_tasks.1 ht
  rw [role_of_mem_spread ht]
  exact hslots slot hslot

/-- What an object yields is nested at most one level deeper. -/
theorem yield_depth {role : Role} {location : String} {members : List (String × Json)}
    {refs : List String} {t : Task} (ht : t ∈ (role.yield location members refs).tasks) :
    t.role.depth ≤ role.depth + 1 := by
  cases role with
  | definitions =>
    obtain ⟨_, _, _, rfl⟩ := mem_memberTasks.1 ht
    exact Nat.zero_le _
  | paths =>
    obtain ⟨_, _, rfl⟩ := List.mem_map.1 ht
    exact Nat.zero_le _
  | pathItem template =>
    rw [Role.yield, Yield.tasks_append] at ht
    rcases List.mem_append.1 ht with ht | ht
    · exact spreadSlots_depth (by simp [parametersSlot, Role.depth]) ht
    · obtain ⟨_, _, _, _, _, rfl⟩ := mem_operationTasks.1 ht
      exact Nat.zero_le _
  | operation template method =>
    rw [Role.yield, Yield.tasks_own] at ht
    exact spreadSlots_depth (by simp [operationSlots, parametersSlot, Role.depth]) ht
  | parameter =>
    rw [Role.yield, Yield.tasks_own] at ht
    exact spreadSlots_depth (by simp [parameterSlots, Role.depth]) ht
  | requestBody =>
    rw [Role.yield] at ht
    exact spreadSlots_depth (by simp [requestBodySlots, Role.depth]) ht
  | response =>
    rw [Role.yield] at ht
    exact spreadSlots_depth (by simp [responseSlots, Role.depth]) ht
  | schema depth rs =>
    rw [Role.yield, Yield.tasks_own] at ht
    exact spreadSlots_depth (by simp [schemaSlots, Role.depth]) ht

/-- The schema of a header is nested in no other. -/
theorem headerYield_depth {location : String} {l : Except Skip (Json × List String)} {t : Task}
    (ht : t ∈ (headerYield location l).tasks) : t.role.depth = 0 := by
  unfold headerYield at ht
  split at ht
  · exact absurd ht List.not_mem_nil
  · simp only at ht
    split at ht
    · rw [List.mem_singleton.1 ht]
      rfl
    · exact absurd ht List.not_mem_nil

theorem readObject_depth {w : Walker} {role : Role} {location : String}
    {members : List (String × Json)} {refs : List String} {n : Nat} {t : Task}
    (ht : t ∈ (readObject w role location members refs n).tasks) :
    t.role.depth ≤ role.depth + 1 := by
  rcases List.mem_append.1 ht with ht | ht
  · exact yield_depth ht
  · unfold Role.headers at ht
    split at ht
    · obtain ⟨name, header, m, -, ht⟩ := of_mem_headers ht
      rw [headerYield_depth ht]
      exact Nat.zero_le _
    · exact absurd ht List.not_mem_nil

/-- **No step goes deeper than one level below the bound.** A schema that is nested
deeper than the bound is not gone into. -/
theorem expand_nested {w : Walker} {n : Nat} {t t' : Task} (ht' : t' ∈ (expand w n t).tasks) :
    t'.role.depth ≤ w.limits.maxDepth + 1 := by
  unfold expand at ht'
  split at ht'
  · rename_i y hbarred
    rw [Yield.keeping, barred?_tasks hbarred] at ht'
    exact absurd ht' List.not_mem_nil
  · rename_i hentered
    have hdepth : t.role.depth ≤ w.limits.maxDepth := by
      unfold barred? at hentered
      split at hentered
      · rename_i depth refs hrole
        split at hentered
        · cases hentered
        · rename_i hdeep
          rw [hrole]
          exact Nat.le_of_not_lt hdeep
      · rename_i hrole
        -- only schemas are nested
        cases hkind : t.role with
        | schema depth refs => exact absurd hkind (hrole depth refs)
        | _ => exact Nat.zero_le _
    unfold Landing.arrive at ht'
    split at ht'
    · exact absurd ht' List.not_mem_nil
    · have hbelow := readObject_depth ht'
      omega
    · exact absurd ht' List.not_mem_nil

/-! ## All states -/

/-- A state of a walk that keeps to the limits. -/
structure State.Bounded (w : Walker) (s : State) : Prop where
  spent : s.resolved ≤ w.limits.budget
  nested : ∀ t ∈ s.stack, t.role.depth ≤ w.limits.maxDepth + 1
  chains : ∀ t ∈ s.stack, ChainOk w t.role.refs

theorem step_spends {w : Walker} {s s' : State} {items : List Item}
    (h : step w s = some (items, s')) : Spends w s.resolved s'.resolved := by
  unfold step at h
  split at h
  · cases h
    exact Spends.refl w s.resolved
  · split at h
    · cases h
      exact expand_spends ..
    · cases h

theorem resolved_le_budget {w : Walker} {n : Nat} {found : List Item} {s : State}
    (h : turns w n = some (found, s)) : s.resolved ≤ w.limits.budget := by
  refine turns_induction (P := fun s => s.resolved ≤ w.limits.budget) (Nat.zero_le _) ?_ h
  intro s₀ items s₁ hle hstep
  -- a count that has not risen is still below the budget, and one that has is by the step
  obtain ⟨hmono, hspent⟩ := step_spends hstep
  by_cases hmore : s₀.resolved < s₁.resolved
  · exact hspent hmore
  · omega

/-- **Every walk ends, and keeps to its limits until then.** -/
theorem walk_keeps_to_limits (w : Walker) :
    (∃ n, turns w n = none) ∧
      ∀ n found s, turns w n = some (found, s) → s.Bounded w := by
  refine ⟨turns_end w, fun n found s h => ?_⟩
  have htrails := forall_stack (P := Task.OnTrail w) (rootTasks_onTrail w)
    (fun m t ht => (expand_keeps m ht).onTrail) h
  refine ⟨resolved_le_budget h, ?_, ?_⟩
  · have hroot : ∀ t ∈ rootTasks w, t.role.depth ≤ w.limits.maxDepth + 1 := by
      intro t ht
      rcases mem_rootTasks.1 ht with ⟨_, _, _, _, rfl⟩ | ⟨_, _, rfl⟩ | ⟨_, _, rfl⟩ <;>
        exact Nat.zero_le _
    exact forall_stack hroot (fun m t _ t' ht' => expand_nested ht') h
  · -- the references of a task are those of the trail that it is on
    intro t ht
    obtain ⟨segs, -, htrail⟩ := htrails t ht
    exact htrail.chainOk

/-- A schema with two properties that are the schema again. -/
def binaryTree : Json :=
  .obj [
    ("swagger", .str "2.0"),
    ("definitions", .obj [("Tree", .obj [("properties", .obj [
      ("left", .obj [("$ref", .str "#/definitions/Tree")]),
      ("right", .obj [("$ref", .str "#/definitions/Tree")])])])])]

theorem binaryTree_keeps_to_limits :
    (∃ n, turns ⟨binaryTree, ⟨1, 1⟩⟩ n = none) ∧
      ∃ found s, turns ⟨binaryTree, ⟨1, 1⟩⟩ 4 = some (found, s) ∧
        (∃ t ∈ s.stack, t.role.refs = ["#/definitions/Tree"]) ∧
        s.Bounded ⟨binaryTree, ⟨1, 1⟩⟩ := by
  obtain ⟨hends, hbounded⟩ := walk_keeps_to_limits ⟨binaryTree, ⟨1, 1⟩⟩
  have hfour : ((turns ⟨binaryTree, ⟨1, 1⟩⟩ 4).any fun r =>
      r.2.stack.any fun t => t.role.refs == ["#/definitions/Tree"]) = true := by decide +kernel
  match hturns : turns ⟨binaryTree, ⟨1, 1⟩⟩ 4 with
  | none =>
    rw [hturns] at hfour
    cases hfour
  | some (found, s) =>
    rw [hturns] at hfour
    obtain ⟨t, ht, hrefs⟩ := Array.any_eq_true'.1 hfour
    exact ⟨hends, found, s, rfl, ⟨t, ht, eq_of_beq hrefs⟩, hbounded 4 found s hturns⟩

end PatternAudit.Walk
