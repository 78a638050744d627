/-
The walk as a plain recursion.

`run` works a stack off, one task at a time, and hands items out of a queue in
between. This file says what that comes to: `visitNodes` reads the first of its
nodes, then all that is below it, then the other nodes, and gives the count of
followed references from each to the next. The two agree because what a walk has
still to hand out, `State.toCome`, is the queue followed by a visit of the stack, and
a turn takes from it exactly what it hands out (`step_toCome`).

`readings` records with which count each node was read. Two walks that agree on it
have followed the same references, and cut the same ones for want of budget.
-/
import PatternAudit.Walk.Run

set_option autoImplicit false

namespace PatternAudit.Walk

/-! ## The recursion -/

/-- What a visit comes to. -/
structure Visit where
  items : List Item
  /-- the nodes that were read, each with the number of references followed before -/
  readings : List (Nat × Task)
  /-- how many references were followed in the end -/
  resolved : Nat

/-- What is below a node is less to visit than the node and what comes after it: the
budget has shrunk, or the tree has. -/
theorem lex_expand (w : Walker) (resolved : Nat) (t : Task) (rest : List Task) :
    Prod.Lex (· < ·) (· < ·)
      (w.limits.budget - (expand w resolved t).resolved, tasksWeight (expand w resolved t).tasks)
      (w.limits.budget - resolved, tasksWeight (t :: rest)) := by
  have hspends := expand_spends w resolved t
  by_cases hkeeps : (expand w resolved t).resolved = resolved
  · have hlt := weight_expand_lt hkeeps
    rw [hkeeps]
    refine Prod.Lex.right _ ?_
    simp only [tasksWeight]
    omega
  · have hmore : resolved < (expand w resolved t).resolved :=
      Nat.lt_of_le_of_ne hspends.1 (Ne.symm hkeeps)
    have hle := hspends.2 hmore
    exact Prod.Lex.left _ _ (by omega)

/-- What comes after a node is less to visit than both, with any higher count. -/
theorem lex_rest (w : Walker) {resolved n : Nat} (t : Task) (rest : List Task)
    (h : resolved ≤ n) :
    Prod.Lex (· < ·) (· < ·) (w.limits.budget - n, tasksWeight rest)
      (w.limits.budget - resolved, tasksWeight (t :: rest)) := by
  have hpos := Json.weight_pos t.node
  refine Prod.Lex.right' _ (Nat.sub_le_sub_left h _) ?_
  simp only [tasksWeight]
  omega

/-- Visits nodes in order: the items of the first one, then what is below it, then the
other nodes. The bound is carried along because the recursion ends by it: the other
nodes are visited with a count that the first one may have raised. -/
def visitNodes (w : Walker) (resolved : Nat) : List Task → { v : Visit // resolved ≤ v.resolved }
  | [] => ⟨⟨[], [], resolved⟩, Nat.le_refl resolved⟩
  | t :: rest =>
    let e := expand w resolved t
    have hown : resolved ≤ e.resolved := (expand_spends w resolved t).1
    let below := visitNodes w e.resolved e.tasks
    let others := visitNodes w below.1.resolved rest
    ⟨⟨e.items ++ below.1.items ++ others.1.items,
      (resolved, t) :: (below.1.readings ++ others.1.readings), others.1.resolved⟩,
      Nat.le_trans hown (Nat.le_trans below.2 others.2)⟩
termination_by ts => (w.limits.budget - resolved, tasksWeight ts)
decreasing_by
  · exact lex_expand w resolved t rest
  · exact lex_rest w t rest (Nat.le_trans hown below.2)

/-- The visit of a whole description. -/
def visit (w : Walker) : Visit := (visitNodes w 0 (rootTasks w)).1

theorem visitNodes_nil (w : Walker) (resolved : Nat) :
    (visitNodes w resolved []).1 = ⟨[], [], resolved⟩ := by
  rw [visitNodes]

/-- The recursion of a visit, without the bound that it ends by. -/
theorem visitNodes_cons (w : Walker) (resolved : Nat) (t : Task) (rest : List Task) :
    (visitNodes w resolved (t :: rest)).1 =
      let e := expand w resolved t
      let below := (visitNodes w e.resolved e.tasks).1
      let others := (visitNodes w below.resolved rest).1
      ⟨e.items ++ below.items ++ others.items,
        (resolved, t) :: (below.readings ++ others.readings), others.resolved⟩ := by
  rw [visitNodes]

/-- Induction along a visit. -/
theorem visitNodes_induction {w : Walker} {motive : Nat → List Task → Prop}
    (nil : ∀ n, motive n [])
    (cons : ∀ n t rest, motive (expand w n t).resolved (expand w n t).tasks →
      motive (visitNodes w (expand w n t).resolved (expand w n t).tasks).1.resolved rest →
      motive n (t :: rest))
    (resolved : Nat) (ts : List Task) : motive resolved ts := by
  fun_induction visitNodes w resolved ts with
  | case1 n => exact nil n
  | case2 n t rest e hown below others ihbelow _ ihothers => exact cons n t rest ihbelow ihothers

/-- Visiting one list of nodes after another: the second visit starts with the count
that the first one ended with. -/
theorem visitNodes_append (w : Walker) (resolved : Nat) (a b : List Task) :
    (visitNodes w resolved (a ++ b)).1 =
      let first := (visitNodes w resolved a).1
      let second := (visitNodes w first.resolved b).1
      ⟨first.items ++ second.items, first.readings ++ second.readings, second.resolved⟩ := by
  induction a generalizing resolved with
  | nil =>
    rw [visitNodes_nil]
    rfl
  | cons t rest ih =>
    rw [List.cons_append, visitNodes_cons, visitNodes_cons]
    simp only [ih, List.append_assoc, List.cons_append]

/-- A visit of one node: its own items, and then what comes of the nodes below it. -/
theorem visitNodes_one (w : Walker) (n : Nat) (t : Task) :
    (visitNodes w n [t]).1.items = (expand w n t).items
      ++ (visitNodes w (expand w n t).resolved (expand w n t).tasks).1.items := by
  rw [visitNodes_cons]
  dsimp only
  rw [visitNodes_nil, List.append_nil]

/-- A visit follows only as many references as the budget has left. -/
theorem visitNodes_spends (w : Walker) (resolved : Nat) (ts : List Task) :
    Spends w resolved (visitNodes w resolved ts).1.resolved := by
  induction resolved, ts using visitNodes_induction (w := w) with
  | nil n =>
    rw [visitNodes_nil]
    exact Spends.refl w n
  | cons n t rest ihbelow ihothers =>
    rw [visitNodes_cons]
    exact (expand_spends w n t).trans (ihbelow.trans ihothers)

/-! ## What a visit reads -/

/-- The items of a visit are those of the nodes it reads, node after node. -/
theorem visitNodes_items (w : Walker) (resolved : Nat) (ts : List Task) :
    (visitNodes w resolved ts).1.items
      = (visitNodes w resolved ts).1.readings.flatMap fun r => (expand w r.1 r.2).items := by
  induction resolved, ts using visitNodes_induction (w := w) with
  | nil n =>
    rw [visitNodes_nil]
    rfl
  | cons n t rest ihbelow ihothers =>
    rw [visitNodes_cons]
    simp only [List.flatMap_cons, List.flatMap_append]
    rw [ihbelow, ihothers, List.append_assoc]

/-- Every node of the list is read. -/
theorem mem_readings_of_mem {w : Walker} (resolved : Nat) {ts : List Task} {t : Task}
    (h : t ∈ ts) : ∃ n, (n, t) ∈ (visitNodes w resolved ts).1.readings := by
  induction ts generalizing resolved with
  | nil => cases h
  | cons t' rest ih =>
    rw [visitNodes_cons]
    rcases List.mem_cons.1 h with rfl | hrest
    · exact ⟨resolved, List.mem_cons_self ..⟩
    · obtain ⟨n, hn⟩ := ih _ hrest
      exact ⟨n, List.mem_cons_of_mem _ (List.mem_append_right _ hn)⟩

/-- What a node that was read has below it is read, too. -/
theorem mem_readings_of_mem_tasks {w : Walker} {resolved : Nat} {ts : List Task} {n : Nat}
    {t t' : Task} (h : (n, t) ∈ (visitNodes w resolved ts).1.readings)
    (ht' : t' ∈ (expand w n t).tasks) :
    ∃ n', (n', t') ∈ (visitNodes w resolved ts).1.readings := by
  induction resolved, ts using visitNodes_induction (w := w) with
  | nil m =>
    rw [visitNodes_nil] at h
    cases h
  | cons m first rest ihbelow ihothers =>
    rw [visitNodes_cons] at h ⊢
    rcases List.mem_cons.1 h with heq | h
    · cases heq
      obtain ⟨n', hn'⟩ := mem_readings_of_mem (w := w) (expand w n t).resolved ht'
      exact ⟨n', List.mem_cons_of_mem _ (List.mem_append_left _ hn')⟩
    · rcases List.mem_append.1 h with hbelow | hothers
      · obtain ⟨n', hn'⟩ := ihbelow hbelow
        exact ⟨n', List.mem_cons_of_mem _ (List.mem_append_left _ hn')⟩
      · obtain ⟨n', hn'⟩ := ihothers hothers
        exact ⟨n', List.mem_cons_of_mem _ (List.mem_append_right _ hn')⟩

/-- What holds of the nodes of a list, and passes from a node to those below it, holds
of all that is read. -/
theorem forall_readings {w : Walker} {P : Task → Prop}
    (hstep : ∀ n t, P t → ∀ t' ∈ (expand w n t).tasks, P t') (resolved : Nat) (ts : List Task)
    (h : ∀ t ∈ ts, P t) : ∀ r ∈ (visitNodes w resolved ts).1.readings, P r.2 := by
  induction resolved, ts using visitNodes_induction (w := w) with
  | nil n =>
    intro r hr
    rw [visitNodes_nil] at hr
    cases hr
  | cons n first rest ihbelow ihothers =>
    have hfirst : P first := h first (List.mem_cons_self ..)
    intro r hr
    rw [visitNodes_cons] at hr
    rcases List.mem_cons.1 hr with rfl | hr
    · exact hfirst
    · rcases List.mem_append.1 hr with hbelow | hothers
      · exact ihbelow (hstep n first hfirst) r hbelow
      · exact ihothers (fun t ht => h t (List.mem_cons_of_mem _ ht)) r hothers

/-! ## The stack machine -/

/-- The tasks of a walk in progress, the next one first. -/
def State.tasks (s : State) : List Task := s.stack.toList.reverse

/-- The reading that the next turn makes, if it makes one. -/
def State.reading? (s : State) : Option (Nat × Task) :=
  match s.pending with
  | [] => s.stack.back?.map fun t => (s.resolved, t)
  | _ :: _ => none

/-- What a walk in progress has still to hand out, by the recursion: the queue, and a
visit of the stack. -/
def State.toCome (w : Walker) (s : State) : List Item :=
  s.pending ++ (visitNodes w s.resolved s.tasks).1.items

/-- The readings that a walk in progress has still to make, by the recursion. -/
def State.toRead (w : Walker) (s : State) : List (Nat × Task) :=
  (visitNodes w s.resolved s.tasks).1.readings

theorem tasks_pushAll (s : State) (ts : List Task) : (s.pushAll ts).tasks = ts ++ s.tasks := by
  simp only [State.tasks, State.pushAll, Array.toList_appendList, List.reverse_append,
    List.reverse_reverse]

theorem tasks_start (w : Walker) : (start w).tasks = rootTasks w := by
  rw [start, tasks_pushAll]
  exact List.append_nil _

theorem tasks_of_back? {s : State} {t : Task} (h : s.stack.back? = some t) :
    s.tasks = t :: s.stack.pop.toList.reverse := by
  rw [State.tasks, toList_of_back? h, List.reverse_append]
  rfl

/-- Where the next task is done, what is below it comes before the rest of the stack. -/
theorem tasks_after (s : State) (e : Expansion) :
    (s.after e).tasks = e.tasks ++ s.stack.pop.toList.reverse :=
  tasks_pushAll _ _

/-- A turn takes from what is to come exactly what it hands out, and from what is to be
read exactly what it reads. -/
theorem step_toCome {w : Walker} {s s' : State} {items : List Item}
    (h : step w s = some (items, s')) :
    s.toCome w = items ++ s'.toCome w ∧ s.toRead w = s.reading?.toList ++ s'.toRead w := by
  unfold step at h
  unfold State.reading?
  split at h
  · rename_i item rest hpending
    cases h
    rw [hpending]
    exact ⟨by rw [State.toCome, hpending]; rfl, rfl⟩
  · rename_i hpending
    split at h
    · rename_i t htop
      cases h
      -- the recursion reads the task, what is below it, and the rest of the stack: the
      -- turn has read the task and has put what is below it before the rest
      have hvisit := visitNodes_cons w s.resolved t s.stack.pop.toList.reverse
      have hafter := visitNodes_append w (expand w s.resolved t).resolved
        (expand w s.resolved t).tasks s.stack.pop.toList.reverse
      rw [← tasks_of_back? htop] at hvisit
      rw [← tasks_after] at hafter
      rw [hpending, htop]
      constructor
      · rw [State.toCome, State.toCome, hvisit, hpending]
        show _ = (expand w s.resolved t).items ++ (visitNodes w (expand w s.resolved t).resolved
          (s.after (expand w s.resolved t)).tasks).1.items
        rw [hafter]
        simp only [List.nil_append, List.append_assoc]
      · rw [State.toRead, State.toRead, hvisit]
        show _ = (s.resolved, t) :: (visitNodes w (expand w s.resolved t).resolved
          (s.after (expand w s.resolved t)).tasks).1.readings
        rw [hafter]
    · cases h

/-- Where no turn is left to take, nothing is to come. -/
theorem toCome_of_step_eq_none {w : Walker} {s : State} (h : step w s = none) :
    s.toCome w = [] ∧ s.toRead w = [] := by
  unfold step at h
  split at h
  · cases h
  · rename_i hpending
    split at h
    · cases h
    · rename_i htop
      have hstack : s.tasks = [] := by
        rw [Array.back?_eq_none_iff] at htop
        rw [State.tasks, htop]
        rfl
      rw [State.toCome, State.toRead, hpending, hstack, visitNodes_nil]
      exact ⟨rfl, rfl⟩

theorem runFrom_eq (w : Walker) (s : State) (found : Array Item) :
    (runFrom w s found).toList = found.toList ++ s.toCome w := by
  fun_induction runFrom w s found with
  | case1 s found hend => rw [(toCome_of_step_eq_none hend).1, List.append_nil]
  | case2 s found items s' hstep ih =>
    rw [ih, (step_toCome hstep).1, Array.toList_appendList, List.append_assoc]

/-- The readings that a walk makes from a state on, turn by turn. -/
def readingsFrom (w : Walker) (s : State) : List (Nat × Task) :=
  match _h : step w s with
  | none => []
  | some (_, s') => s.reading?.toList ++ readingsFrom w s'
termination_by s.measure w
decreasing_by exact step_lt _h

theorem readingsFrom_eq (w : Walker) (s : State) : readingsFrom w s = s.toRead w := by
  fun_induction readingsFrom w s with
  | case1 s hend => exact (toCome_of_step_eq_none hend).2.symm
  | case2 s items s' hstep ih => rw [ih, (step_toCome hstep).2]

theorem run_eq_visit (w : Walker) : run w = (visit w).items := by
  rw [run, runFrom_eq, State.toCome, tasks_start]
  rfl

/-- **A walk is a preorder visit.** The stack machine hands out the items of the plain
recursion, in its order, and reads every node with the same number of references
followed before. -/
theorem walk_is_preorder (w : Walker) :
    run w = (visit w).items ∧ readingsFrom w (start w) = (visit w).readings := by
  refine ⟨run_eq_visit w, ?_⟩
  rw [readingsFrom_eq, State.toRead, tasks_start]
  rfl

end PatternAudit.Walk
