/-
What the slots of an object yield, as membership.

The walk builds its tasks by recursion on lists and maps. What a proof wants to know of
them is which tasks there are: one for each element, each member, each media type with a
schema. All of these have the role of their slot, and everything else that a slot yields
is a diagnostic.
-/
import PatternAudit.Walk.Expand

set_option autoImplicit false

namespace PatternAudit.Walk

/-! ## Tasks -/

theorem mem_itemTasks {role : Role} {location : String} {i : Nat} {vs : List Json} {t : Task} :
    t ∈ itemTasks role location i vs ↔
      ∃ j v, vs[j]? = some v ∧ t = ⟨role, v, below location (toString (i + j))⟩ := by
  induction vs generalizing i with
  | nil => simp [itemTasks]
  | cons v vs ih =>
    rw [itemTasks, List.mem_cons, ih]
    constructor
    · rintro (rfl | ⟨j, v', hj, rfl⟩)
      · exact ⟨0, v, rfl, rfl⟩
      · exact ⟨j + 1, v', hj, by rw [Nat.add_right_comm, Nat.add_assoc]⟩
    · rintro ⟨j, v', hj, rfl⟩
      cases j with
      | zero =>
        rw [List.getElem?_cons_zero] at hj
        cases hj
        exact Or.inl rfl
      | succ j =>
        rw [List.getElem?_cons_succ] at hj
        exact Or.inr ⟨j, v', hj, by rw [Nat.add_right_comm, Nat.add_assoc]⟩

theorem mem_memberTasks {role : Role} {location : String} {ms : List (String × Json)} {t : Task} :
    t ∈ memberTasks role location ms ↔
      ∃ key v, (key, v) ∈ ms ∧ t = ⟨role, v, belowKey location key⟩ := by
  rw [memberTasks, List.mem_map]
  constructor
  · rintro ⟨⟨key, v⟩, hmem, rfl⟩
    exact ⟨key, v, hmem, rfl⟩
  · rintro ⟨key, v, hmem, rfl⟩
    exact ⟨(key, v), hmem, rfl⟩

theorem mem_mediaSchema_tasks {role : Role} {location : String} {media : Json} {t : Task} :
    t ∈ (mediaSchema role location media).tasks ↔
      ∃ schema, media.get? "schema" = some schema ∧
        t = ⟨role, schema, below location "schema"⟩ := by
  cases media with
  | obj members =>
    rw [mediaSchema, Json.get?]
    cases Json.lookup "schema" members with
    | none => simp [Yield.nothing]
    | some schema => simp
  | _ => simp [mediaSchema, Yield.skip, Json.get?]

theorem mem_mediaSchemas_tasks {role : Role} {location : String} {ms : List (String × Json)}
    {t : Task} :
    t ∈ (mediaSchemas role location ms).tasks ↔
      ∃ key media schema, (key, media) ∈ ms ∧ media.get? "schema" = some schema ∧
        t = ⟨role, schema, below (belowKey location key) "schema"⟩ := by
  induction ms with
  | nil => simp [mediaSchemas, Yield.nothing]
  | cons m ms ih =>
    obtain ⟨key, media⟩ := m
    rw [mediaSchemas, Yield.append, List.mem_append, mem_mediaSchema_tasks, ih]
    constructor
    · rintro (⟨schema, hschema, rfl⟩ | ⟨key', media', schema, hmem, hschema, rfl⟩)
      · exact ⟨key, media, schema, List.mem_cons_self .., hschema, rfl⟩
      · exact ⟨key', media', schema, List.mem_cons_of_mem _ hmem, hschema, rfl⟩
    · rintro ⟨key', media', schema, hmem, hschema, rfl⟩
      rcases List.mem_cons.1 hmem with heq | hmem
      · cases heq
        exact Or.inl ⟨schema, hschema, rfl⟩
      · exact Or.inr ⟨key', media', schema, hmem, hschema, rfl⟩

theorem mem_slot_tasks {slot : Slot} {location : String} {ms : List (String × Json)} {t : Task} :
    t ∈ (slot.yield location ms).tasks ↔
      ∃ v, Json.lookup slot.key ms = some v ∧
        t ∈ (slot.spread.at slot.role (below location slot.key) v).tasks := by
  unfold Slot.yield
  cases Json.lookup slot.key ms with
  | none => simp [Yield.nothing]
  | some v => simp

theorem mem_spreadSlots_tasks {location : String} {ms : List (String × Json)} {slots : List Slot}
    {t : Task} :
    t ∈ (spreadSlots location ms slots).tasks ↔
      ∃ slot ∈ slots, ∃ v, Json.lookup slot.key ms = some v ∧
        t ∈ (slot.spread.at slot.role (below location slot.key) v).tasks := by
  induction slots with
  | nil => simp [spreadSlots, Yield.nothing]
  | cons slot slots ih =>
    rw [spreadSlots, Yield.append, List.mem_append, mem_slot_tasks, ih]
    constructor
    · rintro (⟨v, hv, ht⟩ | ⟨slot', hslot, hrest⟩)
      · exact ⟨slot, List.mem_cons_self .., v, hv, ht⟩
      · exact ⟨slot', List.mem_cons_of_mem _ hslot, hrest⟩
    · rintro ⟨slot', hslot, v, hv, ht⟩
      rcases List.mem_cons.1 hslot with rfl | hslot
      · exact Or.inl ⟨v, hv, ht⟩
      · exact Or.inr ⟨slot', hslot, v, hv, ht⟩

/-- A key names a method if it spells it, in any case. -/
theorem methodOf?_eq_some_iff {key method : String} :
    methodOf? key = some method ↔
      method ∈ methods ∧ method.toList = key.toList.map Text.lowerAscii := by
  unfold methodOf?
  constructor
  · intro h
    exact ⟨List.mem_of_find?_eq_some h, by simpa using List.find?_some h⟩
  · rintro ⟨hmem, hspelled⟩
    cases hfind : methods.find? fun m => m.toList == key.toList.map Text.lowerAscii with
    | none =>
      have hnone := List.find?_eq_none.1 hfind method hmem
      rw [hspelled] at hnone
      exact absurd (beq_self_eq_true _) hnone
    | some found =>
      -- two methods that spell the same key are the same
      have hfound : found.toList = key.toList.map Text.lowerAscii := by
        simpa using List.find?_some hfind
      rw [← hspelled] at hfound
      rw [String.toList_inj.1 hfound]

theorem mem_operationTasks {template location : String} {ms : List (String × Json)} {t : Task} :
    t ∈ operationTasks template location ms ↔
      ∃ key v method, (key, v) ∈ ms ∧ methodOf? key = some method ∧
        t = ⟨.operation template method, v, below location method⟩ := by
  induction ms with
  | nil => simp [operationTasks]
  | cons m ms ih =>
    obtain ⟨key, v⟩ := m
    rw [operationTasks]
    cases hkey : methodOf? key with
    | none =>
      simp only [ih]
      constructor
      · rintro ⟨key', v', method, hmem, hrest⟩
        exact ⟨key', v', method, List.mem_cons_of_mem _ hmem, hrest⟩
      · rintro ⟨key', v', method, hmem, hmethod, rfl⟩
        rcases List.mem_cons.1 hmem with heq | hmem
        · cases heq
          rw [hkey] at hmethod
          cases hmethod
        · exact ⟨key', v', method, hmem, hmethod, rfl⟩
    | some found =>
      simp only [List.mem_cons, ih]
      constructor
      · rintro (rfl | ⟨key', v', method, hmem, hrest⟩)
        · exact ⟨key, v, found, Or.inl rfl, hkey, rfl⟩
        · exact ⟨key', v', method, Or.inr hmem, hrest⟩
      · rintro ⟨key', v', method, heq | hmem, hmethod, rfl⟩
        · cases heq
          rw [hkey] at hmethod
          cases hmethod
          exact Or.inl rfl
        · exact Or.inr ⟨key', v', method, hmem, hmethod, rfl⟩

/-- The tasks of a slot have its role. -/
theorem role_of_mem_spread {s : Spread} {role : Role} {location : String} {v : Json} {t : Task}
    (h : t ∈ (s.at role location v).tasks) : t.role = role := by
  unfold Spread.at at h
  repeat' split at h
  all_goals first
    | exact absurd h List.not_mem_nil
    | exact (List.mem_singleton.1 h) ▸ rfl
    | (obtain ⟨_, _, _, rfl⟩ := mem_itemTasks.1 h; rfl)
    | (obtain ⟨_, _, _, rfl⟩ := mem_memberTasks.1 h; rfl)
    | (obtain ⟨_, _, _, _, _, rfl⟩ := mem_mediaSchemas_tasks.1 h; rfl)

/-! ## Items -/

theorem skip_items {location : String} {why : Skip} {i : Item}
    (h : i ∈ (Yield.skip location why).items) : i.pattern? = none := by
  rw [List.mem_singleton.1 h]
  rfl

theorem mediaSchemas_items {role : Role} {location : String} {ms : List (String × Json)}
    {i : Item} (h : i ∈ (mediaSchemas role location ms).items) : i.pattern? = none := by
  induction ms with
  | nil => exact absurd h List.not_mem_nil
  | cons m ms ih =>
    rw [mediaSchemas] at h
    rcases List.mem_append.1 h with hown | hrest
    · unfold mediaSchema at hown
      repeat' split at hown
      all_goals first
        | exact absurd hown List.not_mem_nil
        | exact (List.mem_singleton.1 hown) ▸ rfl
    · exact ih hrest

theorem spread_items {s : Spread} {role : Role} {location : String} {v : Json} {i : Item}
    (h : i ∈ (s.at role location v).items) : i.pattern? = none := by
  unfold Spread.at at h
  repeat' split at h
  all_goals first
    | exact absurd h List.not_mem_nil
    | exact (List.mem_singleton.1 h) ▸ rfl
    | exact mediaSchemas_items h

/-- Slots yield no patterns of their own. -/
theorem spreadSlots_items {location : String} {ms : List (String × Json)} {slots : List Slot}
    {i : Item} (h : i ∈ (spreadSlots location ms slots).items) : i.pattern? = none := by
  induction slots with
  | nil => exact absurd h List.not_mem_nil
  | cons slot slots ih =>
    rw [spreadSlots] at h
    rcases List.mem_append.1 h with hown | hrest
    · unfold Slot.yield at hown
      split at hown
      · exact spread_items hown
      · exact absurd hown List.not_mem_nil
    · exact ih hrest

/-- A pattern at a node is the text of its `pattern` member, at the node's location. -/
theorem mem_patternAt {here : String} {v : Option Json} {location pattern : String} :
    .pattern location pattern ∈ patternAt here v ↔ location = here ∧ v = some (.str pattern) := by
  cases v with
  | none => simp [patternAt]
  | some v => cases v <;> simp [patternAt, eq_comm]

/-! ## Headers -/

/-- The tasks of a response's headers come from one of them, with its references followed
at some count. -/
theorem of_mem_headers {w : Walker} {location : String} {refs : List String} {n : Nat}
    {hs : List (String × Json)} {t : Task} (ht : t ∈ (headers w location refs n hs).tasks) :
    ∃ name header m, (name, header) ∈ hs ∧
      t ∈ (headerYield (belowKey location name) (follow w m header refs).1).tasks := by
  induction hs generalizing n with
  | nil => exact absurd ht List.not_mem_nil
  | cons h hs ih =>
    obtain ⟨name, header⟩ := h
    rcases List.mem_append.1 ht with ht | ht
    · exact ⟨name, header, n, List.mem_cons_self .., ht⟩
    · obtain ⟨name', header', m, hmem, ht⟩ := ih ht
      exact ⟨name', header', m, List.mem_cons_of_mem _ hmem, ht⟩

/-- Each header of a response yields what it yields. -/
theorem mem_headers_of_mem {w : Walker} {location : String} {refs : List String} (n : Nat)
    {hs : List (String × Json)} {name : String} {header : Json} (hmem : (name, header) ∈ hs) :
    ∃ m, (∀ t ∈ (headerYield (belowKey location name) (follow w m header refs).1).tasks,
        t ∈ (headers w location refs n hs).tasks) ∧
      (∀ i ∈ (headerYield (belowKey location name) (follow w m header refs).1).items,
        i ∈ (headers w location refs n hs).items) := by
  induction hs generalizing n with
  | nil => cases hmem
  | cons h hs ih =>
    rcases List.mem_cons.1 hmem with rfl | hmem
    · exact ⟨n, fun t ht => List.mem_append_left _ ht, fun i hi => List.mem_append_left _ hi⟩
    · obtain ⟨m, htasks, hitems⟩ := ih (follow w n h.2 refs).2 hmem
      exact ⟨m, fun t ht => List.mem_append_right _ (htasks t ht),
        fun i hi => List.mem_append_right _ (hitems i hi)⟩

end PatternAudit.Walk
