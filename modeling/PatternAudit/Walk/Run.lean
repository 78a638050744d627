/-
The walk over a whole description.

A walk keeps a stack of tasks, the next one last, and a queue of items that were
found and not yet handed out. A turn hands out the first of these items; when there
is none, it does the next task and puts the tasks below it on the stack in its place.
So the walk goes through the description in the order in which it is declared: named
schemas first, then the paths. `run` takes turns until nothing is left; it ends
because every step follows one of finitely many references or leaves less to read
than it found (`step_lt`).
-/
import PatternAudit.Walk.Expand

set_option autoImplicit false

namespace PatternAudit.Walk

/-- A walk in progress. -/
structure State where
  /-- what is left to do, the next task last -/
  stack : Array Task
  /-- what was found and not yet handed out -/
  pending : List Item
  /-- how many references were followed -/
  resolved : Nat

/-- Puts tasks on the stack, so that they are done in the order given. -/
def State.pushAll (s : State) (tasks : List Task) : State :=
  { s with stack := s.stack ++ tasks.reverse }

/-- The task of a member of the root, if the member is there. -/
def rootTask (role : Role) (location : String) : Option Json → List Task
  | some v => [⟨role, v, location⟩]
  | none => []

/-- What a walk sets out to do: named schemas, old style definitions, paths. -/
def rootTasks (w : Walker) : List Task :=
  rootTask .definitions "#/components/schemas" ((w.root.get? "components").bind (·.get? "schemas"))
    ++ rootTask .definitions "#/definitions" (w.root.get? "definitions")
    ++ rootTask .paths "#/paths" (w.root.get? "paths")

/-- The beginning of a walk. -/
def start (w : Walker) : State := State.pushAll ⟨#[], [], 0⟩ (rootTasks w)

/-- A walk that has done a task: what it found is pending, what is below comes next. -/
def State.after (s : State) (e : Expansion) : State :=
  State.pushAll ⟨s.stack.pop, e.items, e.resolved⟩ e.tasks

/-- One turn: the items that are handed out, and the walk after it. -/
def step (w : Walker) (s : State) : Option (List Item × State) :=
  match s.pending with
  | item :: rest => some ([item], { s with pending := rest })
  | [] =>
    match s.stack.back? with
    | some t => some ([], s.after (expand w s.resolved t))
    | none => none

/-- How much a walk has left to do: references first, then nodes, then items. -/
def State.measure (w : Walker) (s : State) : Nat × Nat × Nat :=
  (w.limits.budget - s.resolved, tasksWeight s.stack.toList, s.pending.length)

theorem tasksWeight_reverse (ts : List Task) : tasksWeight ts.reverse = tasksWeight ts := by
  induction ts with
  | nil => rfl
  | cons t ts ih =>
    rw [List.reverse_cons, tasksWeight_append, ih]
    simp only [tasksWeight]
    omega

/-- A stack is its lower part and the task on top. -/
theorem toList_of_back? {stack : Array Task} {t : Task} (h : stack.back? = some t) :
    stack.toList = stack.pop.toList ++ [t] := by
  obtain ⟨lower, rfl⟩ := Array.back?_eq_some_iff.1 h
  rw [Array.pop_push, Array.toList_push]

theorem step_lt {w : Walker} {s s' : State} {items : List Item} (h : step w s = some (items, s')) :
    Prod.Lex (· < ·) (Prod.Lex (· < ·) (· < ·)) (s'.measure w) (s.measure w) := by
  unfold step at h
  split at h
  · rename_i item rest hpending
    cases h
    simp only [State.measure, hpending]
    exact Prod.Lex.right _ (Prod.Lex.right _ (Nat.lt_succ_self _))
  · split at h
    · rename_i t htop
      cases h
      have hspends := expand_spends w s.resolved t
      have hweight : tasksWeight s.stack.toList
          = tasksWeight s.stack.pop.toList + t.node.weight := by
        rw [toList_of_back? htop, tasksWeight_append]
        rfl
      by_cases hkeeps : (expand w s.resolved t).resolved = s.resolved
      · have hlt := weight_expand_lt hkeeps
        simp only [State.measure, State.after, State.pushAll, hkeeps, hweight]
        refine Prod.Lex.right _ (Prod.Lex.left _ _ ?_)
        rw [Array.toList_appendList, tasksWeight_append, tasksWeight_reverse]
        omega
      · have hmore : s.resolved < (expand w s.resolved t).resolved :=
          Nat.lt_of_le_of_ne hspends.1 (Ne.symm hkeeps)
        have hle := hspends.2 hmore
        refine Prod.Lex.left _ _ ?_
        simp only [State.after, State.pushAll]
        omega
    · cases h

/-- Takes turns until nothing is left to do, on top of the items handed out before. -/
def runFrom (w : Walker) (s : State) (found : Array Item) : Array Item :=
  match _h : step w s with
  | none => found
  | some (items, s') => runFrom w s' (found ++ items)
termination_by s.measure w
decreasing_by exact step_lt _h

/-- The items of a walk, in order. -/
def run (w : Walker) : List Item := (runFrom w (start w) #[]).toList

/-- The patterns of a walk alone, each with its location. -/
def patterns (w : Walker) : List (String × String) := (run w).filterMap Item.pattern?

end PatternAudit.Walk
