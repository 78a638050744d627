/-
All that a walk finds in a part of a document lies there.

A step writes the locations of what it finds, and of the tasks that it leaves, by going on
from its own location; so does every step below it. Hence whatever comes of a task is located
at the task or below it (`expand_allWithin`, `isWithin_visitNodes`), wherever its references
lead. A diagnostic is no exception: it is located at the value that it complains about.
-/
import PatternAudit.Proofs.Walk.Spread
import PatternAudit.Proofs.Walk.Visit

set_option autoImplicit false

namespace PatternAudit.Walk

/-! ## Locations at or below another one -/

/-- Whether a location is a given one or lies below it. -/
def isWithin (top location : String) : Bool :=
  location == top || (top.toList ++ ['/']).isPrefixOf location.toList

theorem isWithin_iff {top location : String} :
    isWithin top location = true ↔ location = top ∨ top.toList ++ ['/'] <+: location.toList := by
  rw [isWithin, Bool.or_eq_true, beq_iff_eq, List.isPrefixOf_iff_prefix]

theorem isWithin_self (location : String) : isWithin location location = true :=
  isWithin_iff.2 (Or.inl rfl)

theorem toList_below (location segment : String) :
    (below location segment).toList = location.toList ++ ['/'] ++ segment.toList := by
  simp [below]

theorem isWithin_below (location segment : String) :
    isWithin location (below location segment) = true :=
  isWithin_iff.2 (Or.inr (toList_below location segment ▸ List.prefix_append _ _))

theorem isWithin_belowKey (location key : String) : isWithin location (belowKey location key) = true :=
  isWithin_below location _

theorem isWithin_trans {top middle location : String} (h : isWithin top middle = true)
    (h' : isWithin middle location = true) : isWithin top location = true := by
  rw [isWithin_iff] at h h' ⊢
  rcases h' with rfl | hbelow
  · exact h
  · have hmiddle : middle.toList <+: location.toList := (List.prefix_append _ ['/']).trans hbelow
    rcases h with rfl | habove
    · exact Or.inr hbelow
    · exact Or.inr (habove.trans hmiddle)

/-- Going down by any keys stays within. -/
theorem isWithin_foldl (location : String) (keys : List String) :
    isWithin location (keys.foldl belowKey location) = true := by
  induction keys generalizing location with
  | nil => exact isWithin_self location
  | cons key keys ih => exact isWithin_trans (isWithin_belowKey location key) (ih _)

/-- What a step answers, without the count of references. -/
def Expansion.yield (e : Expansion) : Yield := ⟨e.items, e.tasks⟩

/-- Items and tasks that all lie at a location or below it. -/
structure AllWithin (top : String) (y : Yield) : Prop where
  items : ∀ i ∈ y.items, isWithin top i.location = true
  tasks : ∀ t ∈ y.tasks, isWithin top t.location = true

namespace AllWithin

variable {top location : String} {y y' : Yield}

theorem nothing (top : String) : AllWithin top .nothing where
  items _ hi := absurd hi List.not_mem_nil
  tasks _ ht := absurd ht List.not_mem_nil

theorem skip (location : String) (why : Skip) : AllWithin location (.skip location why) where
  items _ hi := List.mem_singleton.1 hi ▸ isWithin_self location
  tasks _ ht := absurd ht List.not_mem_nil

/-- Tasks alone. -/
theorem of_tasks {ts : List Task} (h : ∀ t ∈ ts, isWithin top t.location = true) :
    AllWithin top ⟨[], ts⟩ where
  items _ hi := absurd hi List.not_mem_nil
  tasks := h

theorem task (role : Role) (node : Json) (location : String) :
    AllWithin location ⟨[], [⟨role, node, location⟩]⟩ :=
  of_tasks fun _ ht => List.mem_singleton.1 ht ▸ isWithin_self location

theorem append (h : AllWithin top y) (h' : AllWithin top y') : AllWithin top (y.append y') where
  items := List.forall_mem_append.2 ⟨h.items, h'.items⟩
  tasks := List.forall_mem_append.2 ⟨h.tasks, h'.tasks⟩

theorem own {items : List Item} (hitems : ∀ i ∈ items, isWithin top i.location = true)
    (h : AllWithin top y) : AllWithin top (y.own items) where
  items := List.forall_mem_append.2 ⟨hitems, h.items⟩
  tasks := h.tasks

/-- What lies below a location lies below everything above. -/
theorem mono (hwithin : isWithin top location = true) (h : AllWithin location y) :
    AllWithin top y where
  items i hi := isWithin_trans hwithin (h.items i hi)
  tasks t ht := isWithin_trans hwithin (h.tasks t ht)

end AllWithin

/-! ## Slots -/

theorem isWithin_memberTasks {role : Role} {location : String} {ms : List (String × Json)} :
    ∀ t ∈ memberTasks role location ms, isWithin location t.location = true := by
  intro t ht
  obtain ⟨key, v, -, rfl⟩ := mem_memberTasks.1 ht
  exact isWithin_belowKey location key

theorem isWithin_itemTasks {role : Role} {location : String} {i : Nat} {vs : List Json} :
    ∀ t ∈ itemTasks role location i vs, isWithin location t.location = true := by
  intro t ht
  obtain ⟨j, v, -, rfl⟩ := mem_itemTasks.1 ht
  exact isWithin_below location _

theorem mediaSchema_allWithin (role : Role) (location : String) (media : Json) :
    AllWithin location (mediaSchema role location media) := by
  unfold mediaSchema
  split
  · split
    · exact .mono (isWithin_below location "schema") (.task ..)
    · exact .nothing location
  · exact .skip ..

theorem mediaSchemas_allWithin (role : Role) (location : String) (ms : List (String × Json)) :
    AllWithin location (mediaSchemas role location ms) := by
  induction ms with
  | nil => exact .nothing location
  | cons m ms ih =>
    exact ((mediaSchema_allWithin role _ m.2).mono (isWithin_belowKey location m.1)).append ih

theorem spread_allWithin (s : Spread) (role : Role) (location : String) (v : Json) :
    AllWithin location (s.at role location v) := by
  unfold Spread.at
  repeat' split
  all_goals first
    | exact .nothing location
    | exact .task ..
    | exact .skip ..
    | exact .of_tasks isWithin_itemTasks
    | exact .of_tasks isWithin_memberTasks
    | exact mediaSchemas_allWithin ..

theorem slot_allWithin (slot : Slot) (location : String) (ms : List (String × Json)) :
    AllWithin location (slot.yield location ms) := by
  unfold Slot.yield
  split
  · exact (spread_allWithin ..).mono (isWithin_below location slot.key)
  · exact .nothing location

theorem spreadSlots_allWithin (location : String) (ms : List (String × Json)) (slots : List Slot) :
    AllWithin location (spreadSlots location ms slots) := by
  induction slots with
  | nil => exact .nothing location
  | cons slot slots ih => exact (slot_allWithin slot location ms).append ih

/-! ## Steps -/

theorem isWithin_patternAt {location : String} {v : Option Json} {i : Item}
    (hi : i ∈ patternAt location v) : isWithin location i.location = true := by
  unfold patternAt at hi
  split at hi
  · exact List.mem_singleton.1 hi ▸ isWithin_self location
  · exact List.mem_singleton.1 hi ▸ isWithin_self location
  · exact absurd hi List.not_mem_nil

theorem isWithin_schemaItem {location name : String} {v : Json} {i : Item}
    (hi : i ∈ schemaItem location name v) : isWithin location i.location = true := by
  unfold schemaItem at hi
  split at hi
  · exact List.mem_singleton.1 hi ▸ isWithin_self location
  · exact absurd hi List.not_mem_nil

theorem yield_allWithin (role : Role) (location : String) (ms : List (String × Json))
    (refs : List String) : AllWithin location (role.yield location ms refs) := by
  cases role with
  | definitions =>
    refine ⟨fun i hi => ?_, isWithin_memberTasks⟩
    obtain ⟨m, -, hi⟩ := List.mem_flatMap.1 hi
    exact isWithin_trans (isWithin_belowKey location m.1) (isWithin_schemaItem hi)
  | paths =>
    constructor
    · intro i hi
      obtain ⟨m, -, rfl⟩ := List.mem_map.1 hi
      exact isWithin_belowKey location m.1
    · intro t ht
      obtain ⟨m, -, rfl⟩ := List.mem_map.1 ht
      exact isWithin_belowKey location m.1
  | pathItem template =>
    refine (spreadSlots_allWithin location ms _).append (.of_tasks fun t ht => ?_)
    obtain ⟨key, v, method, -, -, rfl⟩ := mem_operationTasks.1 ht
    exact isWithin_below location method
  | operation template method =>
    refine .own (fun i hi => ?_) (spreadSlots_allWithin location ms _)
    exact List.mem_singleton.1 hi ▸ isWithin_self location
  | requestBody | response => exact spreadSlots_allWithin location ms _
  | parameter | schema =>
    exact .own (fun _ hi => isWithin_patternAt hi) (spreadSlots_allWithin location ms _)

theorem headerYield_allWithin (location : String) (result : Except Skip (Json × List String)) :
    AllWithin location (headerYield location result) := by
  rcases result with why | ⟨node, refs⟩
  · exact .skip location why
  · refine ⟨fun i hi => isWithin_patternAt hi, fun t ht => ?_⟩
    cases hschema : node.get? "schema" with
    | none => simp [headerYield, hschema] at ht
    | some v =>
      simp only [headerYield, hschema, List.mem_singleton] at ht
      exact ht ▸ isWithin_below location "schema"

section Steps

variable (w : Walker) (n : Nat)

theorem headers_allWithin (location : String) (refs : List String) (hs : List (String × Json)) :
    AllWithin location (headers w location refs n hs).yield := by
  induction hs generalizing n with
  | nil => exact .nothing location
  | cons h hs ih =>
    exact ((headerYield_allWithin (belowKey location h.1) _).mono
      (isWithin_belowKey location h.1)).append (ih _)

theorem Role.headers_allWithin (role : Role) (location : String) (ms : List (String × Json))
    (refs : List String) :
    AllWithin (below location "headers") (role.headers w location ms refs n).yield := by
  unfold Role.headers
  split
  · exact Walk.headers_allWithin ..
  · exact .nothing _

/-- **What a step comes to lies at its task or below.** -/
theorem expand_allWithin (t : Task) : AllWithin t.location (expand w n t).yield := by
  unfold expand
  split
  · rename_i y hbarred
    rcases barred?_eq_some hbarred with ⟨_, _, _, _, rfl⟩ | ⟨_, _, _, _, _, rfl⟩
    · exact .skip ..
    · exact .nothing t.location
  · unfold Landing.arrive
    split
    · exact .skip ..
    · exact (yield_allWithin ..).append
        ((Role.headers_allWithin ..).mono (isWithin_below _ "headers"))
    · exact .skip ..

end Steps

/-! ## Walks -/

/-- Whatever is found lies at one of the nodes that were visited, or below it. -/
theorem exists_isWithin_of_mem {w : Walker} {n : Nat} {ts : List Task} {i : Item}
    (hi : i ∈ (visitNodes w n ts).1.items) : ∃ t ∈ ts, isWithin t.location i.location = true := by
  rw [visitNodes_items] at hi
  obtain ⟨⟨m, t⟩, hread, hi⟩ := List.mem_flatMap.1 hi
  -- the task that found it is one of those visited, or lies below one
  have hbelow : ∃ top ∈ ts, isWithin top.location t.location = true := by
    refine forall_readings (P := fun t => ∃ top ∈ ts, isWithin top.location t.location = true)
      ?_ n ts (fun t ht => ⟨t, ht, isWithin_self t.location⟩) (m, t) hread
    rintro m t ⟨top, htop, ht⟩ t' ht'
    exact ⟨top, htop, ((expand_allWithin w m t).mono ht).tasks t' ht'⟩
  obtain ⟨top, htop, ht⟩ := hbelow
  exact ⟨top, htop, ((expand_allWithin w m t).mono ht).items i hi⟩

/-- What comes of tasks that lie at a location or below it lies there, too. -/
theorem isWithin_visitNodes {w : Walker} {top : String} (n : Nat) {ts : List Task}
    (h : ∀ t ∈ ts, isWithin top t.location = true) :
    ∀ i ∈ (visitNodes w n ts).1.items, isWithin top i.location = true := by
  intro i hi
  obtain ⟨t, ht, hwithin⟩ := exists_isWithin_of_mem hi
  exact isWithin_trans (h t ht) hwithin

end PatternAudit.Walk
