/-
Where the nodes below a node stand.

A slot is a member of an object that holds further nodes: one, a list of them,
a map of them, or, for media types, a map of objects that each hold one schema.
`Slot.spread` answers the nodes with their locations, in the order of the
description, and a diagnostic for each value that has not the type of its slot.
A location grows by one segment for each step down: the member's key, then an
index or an escaped key.

No slot answers more than it is given: by any measure that sums up over a tree, all
nodes together come to no more than the value they come from (`sum_spread_le`), and the
slots of a table together to no more than the members under its keys (`sum_slots_le`).
-/
import PatternAudit.Pointer
import PatternAudit.Walk.Item

set_option autoImplicit false

namespace PatternAudit.Walk

/-! ## Tasks -/

/-- What a node is read as. A schema knows how deep it is nested and which references
the descent to it went through, innermost first. -/
inductive Role where
  | definitions
  | paths
  | pathItem (template : String)
  | operation (template method : String)
  | parameter
  | requestBody
  | response
  | schema (depth : Nat) (refs : List String)
  deriving DecidableEq

/-- A node to be read, in its role and at its location. -/
structure Task where
  role : Role
  node : Json
  location : String

/-- The location one segment further down. -/
def below (location segment : String) : String := location ++ "/" ++ segment

/-- The location of a member with any key. -/
def belowKey (location key : String) : String := below location (Pointer.escape key)

/-- The items of a list, in one role. -/
def itemTasks (role : Role) (location : String) : Nat → List Json → List Task
  | _, [] => []
  | i, v :: rest => ⟨role, v, below location (toString i)⟩ :: itemTasks role location (i + 1) rest

/-- The members of a map, in one role. -/
def memberTasks (role : Role) (location : String) (members : List (String × Json)) : List Task :=
  members.map fun m => ⟨role, m.2, belowKey location m.1⟩

/-- The weight of the nodes of tasks. -/
def tasksWeight : List Task → Nat
  | [] => 0
  | t :: rest => t.node.weight + tasksWeight rest

/-! ## What a node yields -/

/-- Items, and the tasks to go on with, each in order. -/
structure Yield where
  items : List Item
  tasks : List Task

namespace Yield

/-- Nothing. -/
def nothing : Yield := ⟨[], []⟩

/-- A diagnostic alone. -/
def skip (location : String) (why : Skip) : Yield := ⟨[.skipped location why], []⟩

/-- One after the other. -/
def append (a b : Yield) : Yield := ⟨a.items ++ b.items, a.tasks ++ b.tasks⟩

/-- A node's own items before what comes from below it. -/
def own (items : List Item) (y : Yield) : Yield := ⟨items ++ y.items, y.tasks⟩

theorem tasks_append (a b : Yield) : (a.append b).tasks = a.tasks ++ b.tasks := rfl

theorem items_append (a b : Yield) : (a.append b).items = a.items ++ b.items := rfl

theorem tasks_own (items : List Item) (y : Yield) : (y.own items).tasks = y.tasks := rfl

theorem items_own (items : List Item) (y : Yield) : (y.own items).items = items ++ y.items := rfl

end Yield

/-- What a `pattern` member yields at the location of its node. -/
def patternAt (location : String) : Option Json → List Item
  | some (.str p) => [.pattern location p]
  | some _ => [.skipped location .patternNotString]
  | none => []

/-! ## Slots -/

/-- How the nodes of a slot are spread. -/
inductive Spread where
  | one
  /-- one, unless the value is no object, which is legal and holds none -/
  | oneObject
  | list (what : String)
  | listOrOne
  | map (what : String)
  | mediaTypes

/-- The schema of a media type. -/
def mediaSchema (role : Role) (location : String) : Json → Yield
  | .obj members =>
    match Json.lookup "schema" members with
    | some schema => ⟨[], [⟨role, schema, below location "schema"⟩]⟩
    | none => .nothing
  | _ => .skip location (.expected "a media type object")

/-- The schemas of a map of media types. -/
def mediaSchemas (role : Role) (location : String) : List (String × Json) → Yield
  | [] => .nothing
  | (key, media) :: rest =>
    (mediaSchema role (belowKey location key) media).append (mediaSchemas role location rest)

/-- Spreads the nodes of a value at its location, in one role. -/
def Spread.at (s : Spread) (role : Role) (location : String) (v : Json) : Yield :=
  match s with
  | one => ⟨[], [⟨role, v, location⟩]⟩
  | oneObject => match v with
    | .obj _ => ⟨[], [⟨role, v, location⟩]⟩
    | _ => .nothing
  | list what => match v with
    | .arr items => ⟨[], itemTasks role location 0 items⟩
    | _ => .skip location (.expected what)
  | listOrOne => match v with
    | .arr items => ⟨[], itemTasks role location 0 items⟩
    | _ => ⟨[], [⟨role, v, location⟩]⟩
  | map what => match v with
    | .obj members => ⟨[], memberTasks role location members⟩
    | _ => .skip location (.expected what)
  | mediaTypes => match v with
    | .obj members => mediaSchemas role location members
    | _ => .skip location (.expected "a map of media types")

/-- A member that holds further nodes, and what they are read as. -/
structure Slot where
  key : String
  spread : Spread
  role : Role

/-- What a slot yields for an object. -/
def Slot.yield (slot : Slot) (location : String) (members : List (String × Json)) : Yield :=
  match Json.lookup slot.key members with
  | some v => slot.spread.at slot.role (below location slot.key) v
  | none => .nothing

/-- What the slots of a table yield for an object. -/
def spreadSlots (location : String) (members : List (String × Json)) : List Slot → Yield
  | [] => .nothing
  | slot :: rest => (slot.yield location members).append (spreadSlots location members rest)

/-! ## Sums

Whatever is measured, the nodes that a slot yields come to no more than the value they
come from. -/

/-- What a measure comes to over the nodes of tasks. -/
def sumTasks (f : Json → Nat) : List Task → Nat
  | [] => 0
  | t :: rest => f t.node + sumTasks f rest

theorem sumTasks_append (f : Json → Nat) (a b : List Task) :
    sumTasks f (a ++ b) = sumTasks f a + sumTasks f b := by
  induction a with
  | nil => simp [sumTasks]
  | cons s a ih => simp [sumTasks, ih, Nat.add_assoc]

theorem tasksWeight_eq (ts : List Task) : tasksWeight ts = sumTasks Json.weight ts := by
  induction ts with
  | nil => rfl
  | cons t ts ih => rw [tasksWeight, sumTasks, ih]

theorem tasksWeight_append (a b : List Task) :
    tasksWeight (a ++ b) = tasksWeight a + tasksWeight b := by
  rw [tasksWeight_eq, tasksWeight_eq, tasksWeight_eq, sumTasks_append]

section Sums

variable {f : Json → Nat}

theorem sum_itemTasks (role : Role) (location : String) (i : Nat) (vs : List Json) :
    sumTasks f (itemTasks role location i vs) = Json.sumItems f vs := by
  induction vs generalizing i with
  | nil => rfl
  | cons v vs ih => rw [itemTasks, sumTasks, Json.sumItems, ih]

theorem sum_memberTasks (role : Role) (location : String) (ms : List (String × Json)) :
    sumTasks f (memberTasks role location ms) = Json.sumMembers f ms := by
  induction ms with
  | nil => rfl
  | cons m ms ih =>
    rw [memberTasks] at ih ⊢
    rw [List.map_cons, sumTasks, Json.sumMembers, ih]

theorem sum_mediaSchema_le (hf : Json.Additive f) (role : Role) (location : String) (media : Json) :
    sumTasks f (mediaSchema role location media).tasks ≤ f media := by
  unfold mediaSchema
  split
  · rename_i members
    split
    · rename_i hschema
      exact Nat.le_trans (Json.sum_lookup_le f hschema) (hf.obj members)
    · exact Nat.zero_le _
  · exact Nat.zero_le _

theorem sum_mediaSchemas_le (hf : Json.Additive f) (role : Role) (location : String)
    (ms : List (String × Json)) :
    sumTasks f (mediaSchemas role location ms).tasks ≤ Json.sumMembers f ms := by
  induction ms with
  | nil => exact Nat.le_refl 0
  | cons m ms ih =>
    rw [mediaSchemas, Yield.tasks_append, sumTasks_append, Json.sumMembers]
    exact Nat.add_le_add (sum_mediaSchema_le hf ..) ih

/-- The nodes of a slot come to no more than its value. -/
theorem sum_spread_le (hf : Json.Additive f) (s : Spread) (role : Role) (location : String)
    (v : Json) : sumTasks f (s.at role location v).tasks ≤ f v := by
  have hself : sumTasks f [⟨role, v, location⟩] ≤ f v := Nat.le_refl _
  have hitems : ∀ vs, sumTasks f (itemTasks role location 0 vs) ≤ f (.arr vs) := fun vs => by
    rw [sum_itemTasks]
    exact hf.arr vs
  unfold Spread.at
  cases s with
  | one => exact hself
  | oneObject => cases v <;> first | exact hself | exact Nat.zero_le _
  | list what => cases v <;> first | exact hitems _ | exact Nat.zero_le _
  | listOrOne => cases v <;> first | exact hitems _ | exact hself
  | map what =>
    cases v with
    | obj ms =>
      rw [sum_memberTasks]
      exact hf.obj ms
    | _ => exact Nat.zero_le _
  | mediaTypes =>
    cases v with
    | obj ms => exact Nat.le_trans (sum_mediaSchemas_le hf ..) (hf.obj ms)
    | _ => exact Nat.zero_le _

/-- The nodes of a table's slots come to no more than the members under its keys. -/
theorem sum_slots_le (hf : Json.Additive f) (location : String) (ms : List (String × Json))
    (slots : List Slot) :
    sumTasks f (spreadSlots location ms slots).tasks
      ≤ Json.sumUnder f ms (slots.map (·.key)) := by
  induction slots with
  | nil => exact Nat.le_refl 0
  | cons slot rest ih =>
    rw [spreadSlots, Yield.tasks_append, sumTasks_append, List.map_cons, Json.sumUnder]
    refine Nat.add_le_add ?_ ih
    unfold Slot.yield
    cases Json.lookup slot.key ms with
    | none => exact Nat.le_refl 0
    | some v => exact sum_spread_le hf _ _ _ _

end Sums

end PatternAudit.Walk
