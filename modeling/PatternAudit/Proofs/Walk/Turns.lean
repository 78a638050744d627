/-
A walk, turn by turn.

`run` takes all turns of a walk at once and hands out what they come to. `turns` stops
after any number of them, so the states that a walk goes through can be spoken of: what
holds in the beginning and is kept by every turn holds in all of these states
(`turns_induction`), and there are finitely many (`turns_end`).

`turns` recurses on the number of turns alone and so can be evaluated; that is how a walk
over a given description is known item by item (`run_of_test`).
-/
import PatternAudit.Proofs.Walk.Visit

set_option autoImplicit false

namespace PatternAudit.Walk

/-- What the first turns of a walk hand out, and the walk after them; nothing if the
walk has ended before. -/
def turns (w : Walker) : Nat → Option (List Item × State)
  | 0 => some ([], start w)
  | n + 1 => (turns w n).bind fun r => (step w r.2).map fun next => (r.1 ++ next.1, next.2)

/-- One more turn. -/
theorem turns_succ_of_some {w : Walker} {n : Nat} {found : List Item} {s : State}
    (h : turns w n = some (found, s)) :
    turns w (n + 1) = (step w s).map fun next => (found ++ next.1, next.2) := by
  rw [turns, h]
  rfl

/-- The last of some turns. -/
theorem turns_succ_eq_some {w : Walker} {n : Nat} {found : List Item} {s : State}
    (h : turns w (n + 1) = some (found, s)) :
    ∃ before s₀ items, turns w n = some (before, s₀) ∧ step w s₀ = some (items, s) ∧
      found = before ++ items := by
  rw [turns] at h
  obtain ⟨⟨before, s₀⟩, hbefore, h⟩ := Option.bind_eq_some_iff.1 h
  obtain ⟨⟨items, s'⟩, hstep, hnext⟩ := Option.map_eq_some_iff.1 h
  cases hnext
  exact ⟨before, s₀, items, hbefore, hstep, rfl⟩

/-- What holds in the beginning and is kept by every turn holds in every state that a
walk goes through. -/
theorem turns_induction {w : Walker} {P : State → Prop} (hstart : P (start w))
    (hturn : ∀ s items s', P s → step w s = some (items, s') → P s') {n : Nat}
    {found : List Item} {s : State} (h : turns w n = some (found, s)) : P s := by
  induction n generalizing found s with
  | zero =>
    cases h
    exact hstart
  | succ n ih =>
    obtain ⟨before, s₀, items, hbefore, hstep, rfl⟩ := turns_succ_eq_some h
    exact hturn s₀ items s (ih hbefore) hstep

theorem mem_tasks {s : State} {t : Task} : t ∈ s.tasks ↔ t ∈ s.stack := by
  rw [State.tasks, List.mem_reverse, Array.mem_toList_iff]

/-- The tasks after a turn were there before, or are below one that was. -/
theorem of_mem_tasks_of_step {w : Walker} {s s' : State} {items : List Item}
    (h : step w s = some (items, s')) {t : Task} (ht : t ∈ s'.tasks) :
    t ∈ s.tasks ∨ ∃ above ∈ s.tasks, t ∈ (expand w s.resolved above).tasks := by
  unfold step at h
  split at h
  · cases h
    exact Or.inl ht
  · split at h
    · rename_i above htop
      cases h
      -- only the top of the stack gives way to other tasks
      rw [tasks_after] at ht
      rw [tasks_of_back? htop]
      rcases List.mem_append.1 ht with hbelow | hrest
      · exact Or.inr ⟨above, List.mem_cons_self .., hbelow⟩
      · exact Or.inl (List.mem_cons_of_mem _ hrest)
    · cases h

/-- What holds of the tasks that a walk sets out with, and passes from a task to those
below it, holds of every task on the stack at any time. -/
theorem forall_stack {w : Walker} {P : Task → Prop} (hroot : ∀ t ∈ rootTasks w, P t)
    (hexpand : ∀ n t, P t → ∀ t' ∈ (expand w n t).tasks, P t') {n : Nat} {found : List Item}
    {s : State} (h : turns w n = some (found, s)) : ∀ t ∈ s.stack, P t := by
  have htasks : ∀ t ∈ s.tasks, P t := by
    refine turns_induction (P := fun s => ∀ t ∈ s.tasks, P t) ?_ ?_ h
    · rw [tasks_start]
      exact hroot
    · intro s₀ items s₁ hall hstep t ht
      rcases of_mem_tasks_of_step hstep ht with hmem | ⟨above, habove, hbelow⟩
      · exact hall t hmem
      · exact hexpand s₀.resolved above (hall above habove) t hbelow
  exact fun t ht => htasks t (mem_tasks.2 ht)

/-- From any state that a walk goes through, it ends. -/
theorem turns_end_of_some {w : Walker} (n : Nat) (found : List Item) (s : State)
    (h : turns w n = some (found, s)) : ∃ m, turns w m = none := by
  have hnext := turns_succ_of_some h
  -- a turn leaves less to do, so the recursion is on what is left
  match hstep : step w s with
  | none =>
    rw [hstep] at hnext
    exact ⟨n + 1, hnext⟩
  | some (items, s') =>
    rw [hstep] at hnext
    exact turns_end_of_some (n + 1) (found ++ items) s' hnext
termination_by s.measure w
decreasing_by exact step_lt hstep

/-- **A walk ends after finitely many turns.** -/
theorem turns_end (w : Walker) : ∃ n, turns w n = none :=
  turns_end_of_some 0 [] (start w) rfl

/-- What a walk hands out altogether is what it has handed out at any time, and what is
then to come. -/
theorem run_eq_of_turns {w : Walker} {n : Nat} {found : List Item} {s : State}
    (h : turns w n = some (found, s)) : run w = found ++ s.toCome w := by
  induction n generalizing found s with
  | zero =>
    cases h
    rw [run, runFrom_eq]
  | succ n ih =>
    obtain ⟨before, s₀, items, hbefore, hstep, rfl⟩ := turns_succ_eq_some h
    -- the last turn has handed out what it took from what was to come
    rw [ih hbefore, (step_toCome hstep).1, List.append_assoc]

/-- Whether a walk ends after a number of turns and a test succeeds on what it handed
out. -/
def endsWith (w : Walker) (n : Nat) (test : List Item → Bool) : Bool :=
  match turns w n with
  | some (found, s) => (step w s).isNone && test found
  | none => false

/-- A test that succeeds after the last turn succeeds on the whole walk. -/
theorem run_of_test {w : Walker} (n : Nat) {test : List Item → Bool}
    (h : endsWith w n test = true) : test (run w) = true := by
  unfold endsWith at h
  split at h
  · rename_i found s hturns
    rw [Bool.and_eq_true, Option.isNone_iff_eq_none] at h
    rw [run_eq_of_turns hturns, (toCome_of_step_eq_none h.1).1, List.append_nil]
    exact h.2
  · cases h

/-- What a test says of each item after the last turn holds of all items of the walk. -/
theorem forall_run_of_test {w : Walker} (n : Nat) {p : Item → Bool}
    (h : (endsWith w n fun items => items.all p) = true) : ∀ i ∈ run w, p i = true :=
  List.all_eq_true.1 (run_of_test n h)

theorem mem_patterns {w : Walker} {location pattern : String} :
    (location, pattern) ∈ patterns w ↔ .pattern location pattern ∈ run w := by
  rw [patterns, List.mem_filterMap]
  constructor
  · rintro ⟨item, hitem, hpattern⟩
    cases item <;> cases hpattern
    exact hitem
  · intro hitem
    exact ⟨_, hitem, rfl⟩

/-- The patterns of a walk, by its turns. -/
theorem patterns_of_test {w : Walker} (n : Nat) {found : List (String × String)}
    (h : (endsWith w n fun items => items.filterMap Item.pattern? == found) = true) :
    patterns w = found :=
  eq_of_beq (run_of_test n h)

end PatternAudit.Walk
