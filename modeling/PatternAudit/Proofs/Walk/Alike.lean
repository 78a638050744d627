/-
What a step makes of two nodes that differ in one value.

Two documents differ in one value, at one position. Walks over both come to nodes at the same
locations, and any two such nodes are equal or differ in that value (`Alike`). If the position
lies further down, the two are objects with the same keys, or lists of the same length, and
all below them is equal but for one member or element, which is alike in turn.

What a step yields for the two agrees, then, outside of the position (`Agree`): the same items,
and tasks that match. What the value itself yields lies at its position or below, whatever the
value is, and so is left aside. The members that a step looks at for themselves, such as the
text of a pattern, never lead to a position (`Child.not_silent`).
-/
import Mathlib.Data.List.Forall2
import PatternAudit.Proofs.Walk.Beneath
import PatternAudit.Proofs.Walk.Located
import PatternAudit.Proofs.Walk.Replaced

set_option autoImplicit false

namespace PatternAudit.Walk

/-! ## Members that lead nowhere -/

/-- The members that steps look at for themselves. -/
def silent : List String :=
  ["$ref", "pattern", "description", "example", "examples", "operationId", "summary"]

theorem Place.keyOf_of_not_method {p : Place} {key : String}
    (h : p = .pathItem → methodOf? key = none) : p.keyOf key = key := by
  unfold keyOf
  split
  · rename_i hp
    rw [h hp, Option.getD_none]
  · rfl

theorem Place.keyOf_silent {p : Place} {key : String} (h : key ∈ silent) : p.keyOf key = key := by
  have hall : ∀ key ∈ silent, methodOf? key = none := by decide +kernel
  exact keyOf_of_not_method fun _ => hall key h

theorem Place.keyOf_member {p q : Place} {key : String} (h : (key, q) ∈ p.members) :
    p.keyOf key = key := by
  refine keyOf_of_not_method ?_
  rintro rfl
  have hall : ∀ m ∈ members .pathItem, methodOf? m.1 = none := by decide +kernel
  exact hall _ h

theorem Place.keyOf_entry {p q : Place} {key : String} (h : p.entry? = some q) :
    p.keyOf key = key := by
  refine keyOf_of_not_method ?_
  rintro rfl
  cases h

/-- A place whose nodes are neither maps nor lists. -/
def Place.isRecord (p : Place) : Bool := p.entry?.isNone && p.element?.isNone

theorem Place.isRecord_iff {p : Place} :
    p.isRecord = true ↔ p.entry? = none ∧ p.element? = none := by
  simp [isRecord]

theorem Place.isRecord_of_refers {p : Place} (h : p.refers = true) : p.isRecord = true := by
  cases p <;> first | rfl | cases h

/-- No step down from a record goes along a silent member. -/
theorem Child.not_silent {p q : Place} {v below : Json} {key : String} (hplace : p.isRecord = true)
    (h : Child p v key q below) : key ∉ silent := by
  obtain ⟨hentries, helements⟩ := Place.isRecord_iff.1 hplace
  cases h with
  | member hmember =>
    have hall : ∀ m ∈ p.members, m.1 ∉ silent := by cases p <;> decide
    exact hall _ hmember
  | tuple => decide
  | items => decide
  | additional => decide
  | method _ hmethod =>
    have hall : ∀ method ∈ methods, method ∉ silent := by decide
    exact hall _ hmethod
  | entry hentry =>
    rw [hentries] at hentry
    cases hentry
  | element helement =>
    rw [helements] at helement
    cases helement

/-! ## Alike nodes -/

/-- Two nodes at the same place and location that are equal, or differ in one value. `here` is
where the value is located. -/
def Alike (here : String) (p : Place) (location : String) (v v' : Json) : Prop :=
  v = v' ∨ ∃ keys a new, Position p v keys a ∧ v' = v.replaceAt a new ∧
    keys.foldl belowKey location = here

/-- Two members of alike objects: the same key, and values that are equal or differ further
down. `v` is the object that the first one is a member of. -/
structure AlikeMember (here : String) (p : Place) (location : String) (v : Json)
    (m m' : String × Json) : Prop where
  key : m.1 = m'.1
  value : m.2 = m'.2 ∨ ∃ q, Child p v (p.keyOf m.1) q m.2 ∧
    Alike here q (belowKey location (p.keyOf m.1)) m.2 m'.2

/-- Where one element of a list changes, all others stay. -/
theorem forall₂_modify {α : Type} {R : α → α → Prop} (hrefl : ∀ x, R x x) {f : α → α} {l : List α}
    {i : Nat} (h : ∀ x, l[i]? = some x → R x (f x)) : List.Forall₂ R l (l.modify i f) := by
  induction l generalizing i with
  | nil => simp
  | cons x l ih =>
    cases i with
    | zero => exact .cons (h x rfl) (List.forall₂_same.2 fun y _ => hrefl y)
    | succ i => exact .cons (hrefl x) (ih fun y hy => h y hy)

section Alike

variable {here location : String} {p q : Place} {v v' : Json} {ms ms' : List (String × Json)}

theorem AlikeMember.refl (m : String × Json) : AlikeMember here p location v m m :=
  ⟨rfl, Or.inl rfl⟩

/-- Alike nodes above the position, where there are no lists: they are equal, or objects with
alike members. -/
theorem Alike.cases_obj (h : Alike here p location v v') (hne : location ≠ here)
    (hplace : p.element? = none) :
    v = v' ∨ ∃ ms ms', v = .obj ms ∧ v' = .obj ms' ∧ p.Reads v ∧
      List.Forall₂ (AlikeMember here p location v) ms ms' := by
  rcases h with rfl | ⟨keys, a, new, hposition, rfl, hhere⟩
  · exact Or.inl rfl
  cases hposition with
  | here => exact absurd hhere hne
  | @member _ q ms i key u keys a hreads hi hchild hbelow =>
    refine Or.inr ⟨ms, _, rfl, rfl, hreads, forall₂_modify .refl fun m hm => ?_⟩
    have hsame : m = (key, u) := Option.some.inj (hm.symm.trans hi)
    rw [hsame]
    exact ⟨rfl, Or.inr ⟨q, hchild, Or.inr ⟨keys, a, new, hbelow, rfl, hhere⟩⟩⟩
  | element helement =>
    rw [hplace] at helement
    cases helement

/-- Alike lists above the position: they are equal, or one element has changed. -/
theorem Alike.cases_arr (h : Alike here p location v v') (hne : location ≠ here)
    (hplace : p.element? = some q) :
    v = v' ∨ ∃ vs i g, v = .arr vs ∧ v' = .arr (vs.modify i g) ∧
      ∀ u, vs[i]? = some u → Alike here q (belowKey location (toString i)) u (g u) := by
  rcases h with rfl | ⟨keys, a, new, hposition, rfl, hhere⟩
  · exact Or.inl rfl
  cases hposition with
  | here => exact absurd hhere hne
  | member _ _ hchild =>
    obtain ⟨_, _, _, hobj, _⟩ := hchild.of_element hplace
    cases hobj
  | @element _ r vs i u keys a helement hi hbelow =>
    rw [hplace] at helement
    cases helement
    refine Or.inr ⟨vs, i, _, rfl, rfl, fun x hx => ?_⟩
    have hsame : x = u := Option.some.inj (hx.symm.trans hi)
    exact Or.inr ⟨keys, a, new, hsame ▸ hbelow, rfl, hhere⟩

/-- What is found under a key of alike members. -/
theorem lookup_alike (h : List.Forall₂ (AlikeMember here p location v) ms ms') (key : String) :
    Option.Rel (fun u u' => u = u' ∨ ∃ q, Child p v (p.keyOf key) q u ∧
        Alike here q (belowKey location (p.keyOf key)) u u')
      (Json.lookup key ms) (Json.lookup key ms') := by
  induction h with
  | nil => exact .none
  | @cons m m' ms ms' hm _ ih =>
    rw [Json.lookup, Json.lookup, ← hm.key]
    by_cases hkey : m.1 = key
    · rw [if_pos hkey, if_pos hkey]
      exact .some (hkey ▸ hm.value)
    · rw [if_neg hkey, if_neg hkey]
      exact ih

theorem lookup_member_alike (h : List.Forall₂ (AlikeMember here p location v) ms ms')
    {key : String} (hmember : (key, q) ∈ p.members) :
    Option.Rel (Alike here q (belowKey location key)) (Json.lookup key ms)
      (Json.lookup key ms') := by
  have hfound := lookup_alike h key
  rw [Place.keyOf_member hmember] at hfound
  generalize Json.lookup key ms = found, Json.lookup key ms' = found' at hfound ⊢
  cases hfound with
  | none => exact .none
  | some hvalue =>
    rcases hvalue with rfl | ⟨r, hchild, halike⟩
    · exact .some (Or.inl rfl)
    · obtain ⟨rfl, -⟩ := hchild.of_member hmember
      exact .some halike

/-- Silent members of alike records are the same. -/
theorem lookup_silent (h : List.Forall₂ (AlikeMember here p location v) ms ms')
    (hplace : p.isRecord = true) {key : String} (hkey : key ∈ silent) :
    Json.lookup key ms' = Json.lookup key ms := by
  have hfound := lookup_alike h key
  rw [Place.keyOf_silent hkey] at hfound
  generalize Json.lookup key ms = found, Json.lookup key ms' = found' at hfound ⊢
  cases hfound with
  | none => rfl
  | some hvalue =>
    rcases hvalue with rfl | ⟨r, hchild, -⟩
    · rfl
    · exact absurd hkey (hchild.not_silent hplace)

/-- The entries of alike maps. -/
theorem entries_alike (h : List.Forall₂ (AlikeMember here p location v) ms ms')
    (hplace : p.entry? = some q) :
    List.Forall₂ (fun m m' => m.1 = m'.1 ∧ Alike here q (belowKey location m.1) m.2 m'.2)
      ms ms' := by
  refine h.imp fun m m' hm => ⟨hm.key, ?_⟩
  rcases hm.value with hsame | ⟨r, hchild, halike⟩
  · exact Or.inl hsame
  · obtain ⟨rfl, -⟩ := hchild.of_entry hplace
    rw [Place.keyOf_entry hplace] at halike
    exact halike

end Alike

/-! ## Answers that agree -/

/-- Tasks in the same role at the same location, for alike nodes. -/
structure Matches (here : String) (t t' : Task) : Prop where
  role : t'.role = t.role
  location : t'.location = t.location
  node : Alike here t.role.place t.location t.node t'.node

/-- Whether a location lies outside of what is at another one or below. -/
def isOutside (here location : String) : Bool := !isWithin here location

/-- The items that lie outside of a location. -/
def itemsOutside (here : String) (items : List Item) : List Item :=
  items.filter fun i => isOutside here i.location

/-- The tasks that lie outside of a location. -/
def tasksOutside (here : String) (ts : List Task) : List Task :=
  ts.filter fun t => isOutside here t.location

/-- Answers that agree outside of a location: the same items, and tasks that match. -/
structure Agree (here : String) (y y' : Yield) : Prop where
  items : itemsOutside here y'.items = itemsOutside here y.items
  tasks : List.Forall₂ (Matches here) (tasksOutside here y.tasks) (tasksOutside here y'.tasks)

theorem itemsOutside_eq_nil {here : String} {items : List Item}
    (h : ∀ i ∈ items, isWithin here i.location = true) : itemsOutside here items = [] :=
  List.filter_eq_nil_iff.2 fun i hi => by simp [isOutside, h i hi]

theorem tasksOutside_eq_nil {here : String} {ts : List Task}
    (h : ∀ t ∈ ts, isWithin here t.location = true) : tasksOutside here ts = [] :=
  List.filter_eq_nil_iff.2 fun t ht => by simp [isOutside, h t ht]

theorem itemsOutside_append (here : String) (a b : List Item) :
    itemsOutside here (a ++ b) = itemsOutside here a ++ itemsOutside here b :=
  List.filter_append ..

namespace Agree

variable {here : String} {y y' z z' : Yield}

theorem refl (here : String) (y : Yield) : Agree here y y where
  items := rfl
  tasks := List.forall₂_same.2 fun _ _ => ⟨rfl, rfl, Or.inl rfl⟩

theorem append (h : Agree here y y') (h' : Agree here z z') :
    Agree here (y.append z) (y'.append z') where
  items := by
    rw [Yield.items_append, Yield.items_append, itemsOutside_append, itemsOutside_append, h.items,
      h'.items]
  tasks := by
    rw [Yield.tasks_append, Yield.tasks_append, tasksOutside, tasksOutside, List.filter_append,
      List.filter_append]
    exact List.rel_append h.tasks h'.tasks

/-- The same items may come before. -/
theorem own (h : Agree here y y') (items : List Item) : Agree here (y.own items) (y'.own items) :=
  (refl here ⟨items, []⟩).append h

/-- What lies inside is left aside. -/
theorem of_within (h : AllWithin here y) (h' : AllWithin here y') : Agree here y y' where
  items := by rw [itemsOutside_eq_nil h.items, itemsOutside_eq_nil h'.items]
  tasks := by
    rw [tasksOutside_eq_nil h.tasks, tasksOutside_eq_nil h'.tasks]
    exact .nil

/-- Two answers at one location need to be compared only if it is not the position. -/
theorem of_ne {location : String} (hy : AllWithin location y) (hy' : AllWithin location y')
    (h : location ≠ here → Agree here y y') : Agree here y y' := by
  by_cases hinside : location = here
  · subst hinside
    exact of_within hy hy'
  · exact h hinside

theorem task {role : Role} {location : String} {v v' : Json}
    (h : Alike here role.place location v v') :
    Agree here ⟨[], [⟨role, v, location⟩]⟩ ⟨[], [⟨role, v', location⟩]⟩ where
  items := rfl
  tasks := by
    rw [tasksOutside, tasksOutside, List.filter_singleton, List.filter_singleton]
    cases isOutside here location with
    | false => exact .nil
    | true => exact .cons ⟨rfl, rfl, h⟩ .nil

end Agree

/-! ## Slots -/

theorem belowKey_of_plain {key : String} (h : Pointer.escape key = key) (location : String) :
    belowKey location key = below location key := by
  rw [belowKey, h]

section Slots

variable {here location : String} {p q : Place} {role : Role} {v v' : Json}
  {ms ms' : List (String × Json)}

theorem itemTasks_agree {vs : List Json} {i j : Nat} {g : Json → Json}
    (h : ∀ u, vs[j]? = some u →
      Alike here role.place (belowKey location (toString (i + j))) u (g u)) :
    Agree here ⟨[], itemTasks role location i vs⟩
      ⟨[], itemTasks role location i (vs.modify j g)⟩ := by
  induction vs generalizing i j with
  | nil =>
    rw [List.modify_nil]
    exact .refl ..
  | cons u vs ih =>
    cases j with
    | zero =>
      have halike := h u rfl
      rw [belowKey_of_plain (Pointer.escape_toString _)] at halike
      exact (Agree.task halike).append (.refl here ⟨[], itemTasks role location _ vs⟩)
    | succ j =>
      have hrest := ih (i := i + 1) (j := j) fun x hx => by
        rw [Nat.add_right_comm, Nat.add_assoc]
        exact h x hx
      exact (Agree.refl here ⟨[], [⟨role, u, below location (toString i)⟩]⟩).append hrest

theorem list_agree (h : Alike here q location v v') (hplace : q.element? = some role.place)
    (what : String) :
    Agree here ((Spread.list what).at role location v) ((Spread.list what).at role location v') := by
  refine .of_ne (spread_allWithin ..) (spread_allWithin ..) fun hne => ?_
  rcases h.cases_arr hne hplace with rfl | ⟨vs, i, g, rfl, rfl, hg⟩
  · exact .refl ..
  · refine itemTasks_agree fun u hu => ?_
    rw [Nat.zero_add]
    exact hg u hu

/-- The tasks of the entries of alike maps. -/
theorem entryTasks_agree (role : String → Role)
    (h : List.Forall₂ (fun m m' => m.1 = m'.1 ∧
      Alike here (role m.1).place (belowKey location m.1) m.2 m'.2) ms ms') :
    Agree here ⟨[], ms.map fun m => ⟨role m.1, m.2, belowKey location m.1⟩⟩
      ⟨[], ms'.map fun m => ⟨role m.1, m.2, belowKey location m.1⟩⟩ := by
  induction h with
  | nil => exact .refl ..
  | @cons m m' ms ms' hm _ ih =>
    obtain ⟨hkey, halike⟩ := hm
    rw [List.map_cons, List.map_cons, ← hkey]
    exact (Agree.task halike).append ih

theorem map_agree (h : Alike here q location v v') (hplace : q.entry? = some role.place)
    (what : String) :
    Agree here ((Spread.map what).at role location v) ((Spread.map what).at role location v') := by
  refine .of_ne (spread_allWithin ..) (spread_allWithin ..) fun hne => ?_
  rcases h.cases_obj hne (Place.only_entry hplace).2 with rfl | ⟨ms, ms', rfl, rfl, -, hmembers⟩
  · exact .refl ..
  · exact entryTasks_agree (fun _ => role) (entries_alike hmembers hplace)

/-- What a slot yields agrees if what its spread makes of the two values does. -/
theorem Agree.slot {slot : Slot} (hescape : Pointer.escape slot.key = slot.key)
    (h : Option.Rel (fun u u' =>
        Agree here (slot.spread.at slot.role (belowKey location slot.key) u)
          (slot.spread.at slot.role (belowKey location slot.key) u'))
      (Json.lookup slot.key ms) (Json.lookup slot.key ms')) :
    Agree here (slot.yield location ms) (slot.yield location ms') := by
  rw [belowKey_of_plain hescape] at h
  unfold Slot.yield
  generalize Json.lookup slot.key ms = found, Json.lookup slot.key ms' = found' at h ⊢
  cases h with
  | none => exact .refl ..
  | some hagree => exact hagree

theorem rel_imp {α : Type} {R S : α → α → Prop} (h : ∀ a b, R a b → S a b) {a b : Option α}
    (hab : Option.Rel R a b) : Option.Rel S a b := by
  cases hab with
  | none => exact .none
  | some hab => exact .some (h _ _ hab)

theorem mediaSchema_agree (h : Alike here .mediaType location v v')
    (hplace : role.place = .schema) :
    Agree here (mediaSchema role location v) (mediaSchema role location v') := by
  refine .of_ne (mediaSchema_allWithin ..) (mediaSchema_allWithin ..) fun hne => ?_
  rcases h.cases_obj hne rfl with rfl | ⟨ms, ms', rfl, rfl, -, hmembers⟩
  · exact .refl ..
  · -- a media type is an object with one slot
    have hmember : ("schema", Place.schema) ∈ Place.members .mediaType := List.mem_singleton_self _
    have hescape : Pointer.escape "schema" = "schema" := by decide
    show Agree here (Slot.yield ⟨"schema", .one, role⟩ location ms)
      (Slot.yield ⟨"schema", .one, role⟩ location ms')
    refine .slot hescape (rel_imp (fun u u' halike => ?_)
      (lookup_member_alike hmembers hmember))
    exact .task (hplace ▸ halike)

theorem mediaTypes_agree (h : Alike here .content location v v') (hplace : role.place = .schema) :
    Agree here (Spread.mediaTypes.at role location v) (Spread.mediaTypes.at role location v') := by
  refine .of_ne (spread_allWithin ..) (spread_allWithin ..) fun hne => ?_
  rcases h.cases_obj hne rfl with rfl | ⟨ms, ms', rfl, rfl, -, hmembers⟩
  · exact .refl ..
  · have hmedia := entries_alike hmembers (q := .mediaType) rfl
    show Agree here (mediaSchemas role location ms) (mediaSchemas role location ms')
    clear hmembers hne h
    induction hmedia with
    | nil => exact .refl ..
    | cons hm _ ih =>
      rw [mediaSchemas, mediaSchemas, ← hm.1]
      exact (mediaSchema_agree hm.2 hplace).append ih

/-- What a sound slot yields for alike objects agrees. -/
theorem slot_agree {slot : Slot} {refs : List String} (hslot : slot.Sound p refs)
    (h : List.Forall₂ (AlikeMember here p location v) ms ms') :
    Agree here (slot.yield location ms) (slot.yield location ms') := by
  refine .slot hslot.escape_key ?_
  cases hslot with
  | one q hmember hplace =>
    refine rel_imp (fun u u' halike => ?_) (lookup_member_alike h hmember)
    exact .task (hplace ▸ halike)
  | list q hmember helement =>
    exact rel_imp (fun u u' halike => list_agree halike helement _) (lookup_member_alike h hmember)
  | map q hmember _ hentry =>
    exact rel_imp (fun u u' halike => map_agree halike hentry _) (lookup_member_alike h hmember)
  | mediaTypes hmember hplace =>
    exact rel_imp (fun u u' halike => mediaTypes_agree halike hplace)
      (lookup_member_alike h hmember)
  | oneObject hplace =>
    refine rel_imp (fun u u' hvalue => ?_) (lookup_alike h _)
    rcases hvalue with rfl | ⟨q, hchild, halike⟩
    · exact .refl ..
    · refine .of_ne (spread_allWithin ..) (spread_allWithin ..) fun hne => ?_
      rcases hchild.of_schema with hmember | ⟨hkey, -⟩ | ⟨-, -, rfl, ms₀, rfl⟩
      · simp [Place.keyOf, Place.members] at hmember
      · simp [Place.keyOf] at hkey
      · rcases halike.cases_obj hne rfl with rfl | ⟨_, _, -, rfl, -, -⟩
        · exact .refl ..
        · exact .task (hplace ▸ halike)
  | listOrOne hplace =>
    refine rel_imp (fun u u' hvalue => ?_) (lookup_alike h _)
    rcases hvalue with rfl | ⟨q, hchild, halike⟩
    · exact .refl ..
    · refine .of_ne (spread_allWithin ..) (spread_allWithin ..) fun hne => ?_
      rcases hchild.of_schema with hmember | ⟨-, -, ⟨rfl, vs, rfl⟩ | ⟨rfl, hone⟩⟩ | ⟨hkey, -⟩
      · simp [Place.keyOf, Place.members] at hmember
      · -- a tuple, whose elements are tasks
        rcases halike.cases_arr hne rfl with rfl | ⟨vs, i, g, hvs, rfl, hg⟩
        · exact .refl ..
        · cases hvs
          refine itemTasks_agree fun u hu => ?_
          rw [Nat.zero_add, hplace]
          exact hg u hu
      · rcases halike.cases_obj hne rfl with rfl | ⟨_, _, rfl, rfl, -, -⟩
        · exact .refl ..
        · exact .task (hplace ▸ halike)
      · simp [Place.keyOf] at hkey

theorem spreadSlots_agree {slots : List Slot} {refs : List String}
    (hslots : ∀ slot ∈ slots, slot.Sound p refs)
    (h : List.Forall₂ (AlikeMember here p location v) ms ms') :
    Agree here (spreadSlots location ms slots) (spreadSlots location ms' slots) := by
  induction slots with
  | nil => exact .refl ..
  | cons slot slots ih =>
    obtain ⟨hslot, hothers⟩ := List.forall_mem_cons.1 hslots
    exact (slot_agree hslot h).append (ih hothers)

end Slots

/-! ## Objects -/

section Objects

variable {here location : String} {v v' : Json} {ms ms' : List (String × Json)}

/-- The item of a named schema is the same, unless it lies inside. -/
theorem schemaItem_agree (h : Alike here .schema location v v') (name : String) :
    itemsOutside here (schemaItem location name v')
      = itemsOutside here (schemaItem location name v) := by
  by_cases hinside : location = here
  · subst hinside
    rw [itemsOutside_eq_nil fun _ hi => isWithin_schemaItem hi,
      itemsOutside_eq_nil fun _ hi => isWithin_schemaItem hi]
  · rcases h.cases_obj hinside rfl with rfl | ⟨ms, ms', rfl, rfl, -, hmembers⟩
    · rfl
    · have hdescription := lookup_silent hmembers rfl (show "description" ∈ silent by decide)
      have hexample := lookup_silent hmembers rfl (show "example" ∈ silent by decide)
      have hexamples := lookup_silent hmembers rfl (show "examples" ∈ silent by decide)
      rw [schemaItem, schemaItem, hasExample, hasExample, hdescription, hexample, hexamples]

theorem definitions_agree (h : List.Forall₂ (AlikeMember here .schemas location v) ms ms')
    (refs : List String) :
    Agree here (Role.definitions.yield location ms refs)
      (Role.definitions.yield location ms' refs) where
  items := by
    have hentries := entries_alike h (q := .schema) rfl
    show itemsOutside here (ms'.flatMap fun m => schemaItem (belowKey location m.1) m.1 m.2)
      = itemsOutside here (ms.flatMap fun m => schemaItem (belowKey location m.1) m.1 m.2)
    clear h
    induction hentries with
    | nil => rfl
    | cons hm _ ih =>
      rw [List.flatMap_cons, List.flatMap_cons, itemsOutside_append, itemsOutside_append, ih,
        ← hm.1, schemaItem_agree hm.2]
  tasks := (entryTasks_agree (fun _ => .schema 0 []) (entries_alike h (q := .schema) rfl)).tasks

/-- What depends on the keys alone is the same for alike maps. -/
theorem map_keys_eq {α : Type} {R : String × Json → String × Json → Prop} (f : String → α)
    (h : List.Forall₂ (fun m m' => m.1 = m'.1 ∧ R m m') ms ms') :
    ms'.map (fun m => f m.1) = ms.map fun m => f m.1 := by
  induction h with
  | nil => rfl
  | cons hm _ ih => rw [List.map_cons, List.map_cons, ih, hm.1]

theorem filter_keys {R : String × Json → String × Json → Prop} (keep : String → Bool)
    (h : List.Forall₂ (fun m m' => m.1 = m'.1 ∧ R m m') ms ms') :
    List.Forall₂ (fun m m' => m.1 = m'.1 ∧ R m m') (ms.filter fun m => keep m.1)
      (ms'.filter fun m => keep m.1) := by
  refine List.rel_filter (fun m m' hm => ?_) h
  show keep m.1 = true ↔ keep m'.1 = true
  rw [hm.1]

theorem paths_agree (h : List.Forall₂ (AlikeMember here .paths location v) ms ms')
    (refs : List String) :
    Agree here (Role.paths.yield location ms refs) (Role.paths.yield location ms' refs) := by
  -- whether a member is a path depends on its key
  have hpaths := filter_keys (fun key => !isExtension key) (entries_alike h (q := .pathItem) rfl)
  have hitems := map_keys_eq (fun key => Item.path ⟨belowKey location key, key⟩) hpaths
  exact ⟨congrArg (itemsOutside here) hitems, (entryTasks_agree .pathItem hpaths).tasks⟩

/-- A step down from a path item along a method goes to the operation. -/
theorem Child.of_method {q : Place} {v below : Json} {method : String}
    (h : Child .pathItem v method q below) (hmethod : method ∈ methods) : q = .operation := by
  cases h with
  | member hmember =>
    have hkey : method = "parameters" := congrArg Prod.fst (List.mem_singleton.1 hmember)
    rw [hkey] at hmethod
    exact absurd hmethod (by decide)
  | method => rfl
  | entry hentry => cases hentry
  | element helement => cases helement

theorem operationTasks_agree (template : String)
    (h : List.Forall₂ (AlikeMember here .pathItem location v) ms ms') :
    Agree here ⟨[], operationTasks template location ms⟩
      ⟨[], operationTasks template location ms'⟩ := by
  induction h with
  | nil => exact .refl ..
  | @cons m m' ms ms' hm _ ih =>
    obtain ⟨key, u⟩ := m
    obtain ⟨key', u'⟩ := m'
    obtain ⟨hkey, hvalue⟩ := hm
    dsimp only at hkey hvalue
    subst hkey
    rw [operationTasks, operationTasks]
    cases hfound : methodOf? key with
    | none => exact ih
    | some method =>
      have hmethod := (methodOf?_eq_some_iff.1 hfound).1
      have halike : Alike here .operation (below location method) u u' := by
        rcases hvalue with rfl | ⟨q, hchild, halike⟩
        · exact Or.inl rfl
        · have hstep : Place.pathItem.keyOf key = method := by simp [Place.keyOf, hfound]
          rw [hstep] at hchild halike
          rw [hchild.of_method hmethod, belowKey_of_plain (escape_method hmethod)] at halike
          exact halike
      exact Agree.append (.task halike) ih

/-- What alike objects yield in a role agrees, their headers apart. -/
theorem yield_agree {role : Role} {refs : List String}
    (h : List.Forall₂ (AlikeMember here role.place location v) ms ms') :
    Agree here (role.yield location ms refs) (role.yield location ms' refs) := by
  cases role with
  | definitions => exact definitions_agree h refs
  | paths => exact paths_agree h refs
  | pathItem template =>
    have hslot : parametersSlot.Sound .pathItem refs := parametersSlot_sound (by decide) rfl
    exact (spreadSlots_agree (List.forall_mem_singleton.2 hslot) h).append
      (operationTasks_agree template h)
  | operation template method =>
    have hid := lookup_silent h rfl (show "operationId" ∈ silent by decide)
    have hsummary := lookup_silent h rfl (show "summary" ∈ silent by decide)
    rw [Role.yield, Role.yield, hid, hsummary]
    exact (spreadSlots_agree operationSlots_sound h).own _
  | parameter =>
    have hpattern := lookup_silent h rfl (show "pattern" ∈ silent by decide)
    rw [Role.yield, Role.yield, hpattern]
    exact (spreadSlots_agree (parameterSlots_sound refs) h).own _
  | requestBody => exact spreadSlots_agree (requestBodySlots_sound refs) h
  | response => exact spreadSlots_agree (responseSlots_sound refs) h
  | schema depth rs =>
    have hpattern := lookup_silent h rfl (show "pattern" ∈ silent by decide)
    rw [Role.yield, Role.yield, hpattern]
    exact (spreadSlots_agree (schemaSlots_sound (depth + 1) refs) h).own _

end Objects

end PatternAudit.Walk
