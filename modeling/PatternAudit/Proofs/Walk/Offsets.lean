/-
Where the nodes below a node stand in its tree.

What an object yields is told apart by its location, which names what the walk has gone
through. Its offset says where it stands in the tree of the object. The offsets follow the
tables of `Role.yield`, slot by slot. The nodes that an object passes on stand at offsets
that are apart, each further down than the object (`stands_yield`); the headers of a
response stand apart from these, too (`headers_apart`).

An object finds one pattern at most, and it is its own (`yield_ownOnly`).
-/
import PatternAudit.Proofs.Walk.Addresses
import PatternAudit.Proofs.Walk.Spread
import PatternAudit.Walk.Run

set_option autoImplicit false

namespace PatternAudit.Walk

open Json (Address Apart Stands Through each within inside here)

/-- The nodes of tasks. -/
def nodes (ts : List Task) : List Json := ts.map (·.node)

theorem nodes_append (a b : List Task) : nodes (a ++ b) = nodes a ++ nodes b := List.map_append

theorem nodes_itemTasks (role : Role) (location : String) (i : Nat) (vs : List Json) :
    nodes (itemTasks role location i vs) = vs := by
  induction vs generalizing i with
  | nil => rfl
  | cons v vs ih => rw [itemTasks, nodes, List.map_cons, ← nodes, ih]

theorem nodes_memberTasks (role : Role) (location : String) (ms : List (String × Json)) :
    nodes (memberTasks role location ms) = ms.map Prod.snd := by
  rw [nodes, memberTasks, List.map_map]
  rfl

/-! ## Slots -/

/-- The offsets of the nodes of a value that is spread. -/
def Spread.offsets (s : Spread) (v : Json) : List Address :=
  match s with
  | one => [[]]
  | oneObject => match v with
    | .obj _ => [[]]
    | _ => []
  | list _ => match v with
    | .arr vs => each here 0 vs
    | _ => []
  | listOrOne => match v with
    | .arr vs => each here 0 vs
    | _ => [[]]
  | map _ => match v with
    | .obj ms => each here 0 ms
    | _ => []
  | mediaTypes => match v with
    | .obj ms => each (fun m => inside "schema" here m.2) 0 ms
    | _ => []

/-- The offsets of the nodes of a slot of an object. -/
def Slot.offsets (slot : Slot) (ms : List (String × Json)) : List Address :=
  within slot.key slot.spread.offsets 0 ms

/-- The offsets of the nodes of the slots of a table. -/
def slotsOffsets (ms : List (String × Json)) (slots : List Slot) : List Address :=
  slots.flatMap (·.offsets ms)

theorem stands_member (key : String) (v : Json) :
    Stands v (inside key here v) (v.get? key).toList := by
  have hinside := Stands.inside (v := v) (f := here) Stands.self key
  cases hkey : v.get? key <;> simpa [hkey] using hinside

theorem stands_items (vs : List Json) : Stands (.arr vs) (each here 0 vs) vs := by
  have hchildren : (Json.arr vs).children.drop 0 = vs.map id := (List.map_id _).symm
  have heach := Stands.each (f := here) Stands.self hchildren
  simpa using heach

theorem stands_members (ms : List (String × Json)) :
    Stands (.obj ms) (each here 0 ms) (ms.map Prod.snd) := by
  have hchildren : (Json.obj ms).children.drop 0 = ms.map Prod.snd := rfl
  have heach := Stands.each (f := here) (fun m : String × Json => Stands.self m.2) hchildren
  simpa [List.map_eq_flatMap] using heach

theorem nodes_mediaSchema (role : Role) (location : String) (media : Json) :
    nodes (mediaSchema role location media).tasks = (media.get? "schema").toList := by
  cases media with
  | obj members =>
    rw [mediaSchema, Json.get?]
    cases Json.lookup "schema" members <;> rfl
  | _ => rfl

theorem nodes_mediaSchemas (role : Role) (location : String) (ms : List (String × Json)) :
    nodes (mediaSchemas role location ms).tasks
      = ms.flatMap fun m => (m.2.get? "schema").toList := by
  induction ms with
  | nil => rfl
  | cons m ms ih =>
    rw [mediaSchemas, Yield.tasks_append, nodes_append, nodes_mediaSchema, ih, List.flatMap_cons]

/-- What a value is spread into stands at its offsets. -/
theorem stands_spread (s : Spread) (role : Role) (location : String) (v : Json) :
    Stands v (s.offsets v) (nodes (s.at role location v).tasks) := by
  unfold Spread.offsets Spread.at
  cases s with
  | one => exact .self v
  | oneObject => cases v <;> first | exact .self _ | exact .nil _
  | list what =>
    cases v with
    | arr vs =>
      rw [nodes_itemTasks]
      exact stands_items vs
    | _ => exact .nil _
  | listOrOne =>
    cases v with
    | arr vs =>
      rw [nodes_itemTasks]
      exact stands_items vs
    | _ => exact .self _
  | map what =>
    cases v with
    | obj ms =>
      rw [nodes_memberTasks]
      exact stands_members ms
    | _ => exact .nil _
  | mediaTypes =>
    cases v with
    | obj ms =>
      rw [nodes_mediaSchemas]
      exact .each (fun m : String × Json => stands_member "schema" m.2) rfl
    | _ => exact .nil _

theorem stands_slot (slot : Slot) (location : String) (ms : List (String × Json)) :
    Stands (.obj ms) (slot.offsets ms) (nodes (slot.yield location ms).tasks) := by
  have hchildren : (Json.obj ms).children.drop 0 = ms.map Prod.snd := rfl
  have hwithin := Stands.within
    (stands_spread slot.spread slot.role (below location slot.key)) slot.key hchildren
  unfold Slot.offsets Slot.yield
  cases hkey : Json.lookup slot.key ms with
  | none =>
    rw [hkey] at hwithin
    exact hwithin
  | some v =>
    rw [hkey] at hwithin
    exact hwithin

/-- The nodes of a slot stand in the member that it is about. -/
theorem through_of_mem_slots {ms : List (String × Json)} {slots : List Slot} {a : Address}
    (h : a ∈ slotsOffsets ms slots) : ∃ slot ∈ slots, Through ms slot.key a := by
  obtain ⟨slot, hslot, ha⟩ := List.mem_flatMap.1 h
  exact ⟨slot, hslot, Json.through_of_mem_within ha⟩

/-- What the slots of a table yield stands apart if they are about different members. -/
theorem stands_slots (location : String) (ms : List (String × Json)) (slots : List Slot)
    (distinct : (slots.map (·.key)).Nodup) :
    Stands (.obj ms) (slotsOffsets ms slots) (nodes (spreadSlots location ms slots).tasks) := by
  induction slots with
  | nil => exact .nil _
  | cons slot slots ih =>
    obtain ⟨hfirst, hothers⟩ := List.nodup_cons.1 distinct
    rw [slotsOffsets, List.flatMap_cons, spreadSlots, Yield.tasks_append, nodes_append]
    refine (stands_slot slot location ms).append (ih hothers) fun a ha b hb => ?_
    obtain ⟨other, hother, hb⟩ := through_of_mem_slots hb
    refine (Json.through_of_mem_within ha).apart hb fun hkey => ?_
    exact hfirst (List.mem_map.2 ⟨other, hother, hkey.symm⟩)

/-! ## Objects -/

/-- The offset of a path, which no extension has. -/
def pathOffsets (m : String × Json) : List Address := if isExtension m.1 then [] else [[]]

/-- The offset of an operation, which only methods have. -/
def methodOffsets (m : String × Json) : List Address :=
  if (methodOf? m.1).isSome then [[]] else []

/-- The offsets of the nodes that an object passes on in its role, the headers of a
response apart. -/
def Role.offsets (role : Role) (ms : List (String × Json)) (refs : List String) : List Address :=
  match role with
  | .definitions => each here 0 ms
  | .paths => each pathOffsets 0 ms
  | .pathItem _ => slotsOffsets ms [parametersSlot] ++ each methodOffsets 0 ms
  | .operation _ _ => slotsOffsets ms operationSlots
  | .parameter => slotsOffsets ms (parameterSlots refs)
  | .requestBody => slotsOffsets ms (requestBodySlots refs)
  | .response => slotsOffsets ms (responseSlots refs)
  | .schema depth _ => slotsOffsets ms (schemaSlots (depth + 1) refs)

theorem stands_paths (location : String) (ms : List (String × Json)) :
    Stands (.obj ms) (each pathOffsets 0 ms)
      (nodes ((ms.filter fun m => !isExtension m.1).map fun m =>
        ⟨.pathItem m.1, m.2, belowKey location m.1⟩)) := by
  have hpath : ∀ m, Stands m.2 (pathOffsets m) (if isExtension m.1 then [] else [m.2]) := by
    intro m
    unfold pathOffsets
    split
    · exact .nil _
    · exact .self _
  have hnodes : (nodes ((ms.filter fun m => !isExtension m.1).map fun m =>
        ⟨.pathItem m.1, m.2, belowKey location m.1⟩))
      = ms.flatMap fun m => if isExtension m.1 then [] else [m.2] := by
    rw [nodes, List.map_map]
    induction ms with
    | nil => rfl
    | cons m ms ih =>
      rw [List.filter_cons, List.flatMap_cons, ← ih]
      cases isExtension m.1 <;> rfl
  rw [hnodes]
  exact .each hpath rfl

theorem stands_operations (template location : String) (ms : List (String × Json)) :
    Stands (.obj ms) (each methodOffsets 0 ms) (nodes (operationTasks template location ms)) := by
  have hmethod : ∀ m, Stands m.2 (methodOffsets m)
      (if (methodOf? m.1).isSome then [m.2] else []) := by
    intro m
    unfold methodOffsets
    split
    · exact .self _
    · exact .nil _
  have hnodes : nodes (operationTasks template location ms)
      = ms.flatMap fun m => if (methodOf? m.1).isSome then [m.2] else [] := by
    induction ms with
    | nil => rfl
    | cons m ms ih =>
      rw [operationTasks, List.flatMap_cons, ← ih]
      cases methodOf? m.1 <;> rfl
  rw [hnodes]
  exact .each hmethod rfl

/-- Operations stand under methods. -/
theorem through_of_mem_methods {ms : List (String × Json)} {a : Address}
    (h : a ∈ each methodOffsets 0 ms) : ∃ key, (methodOf? key).isSome = true ∧ Through ms key a := by
  obtain ⟨i, ⟨key, v⟩, rest, hi, hrest, rfl⟩ := Json.mem_each.1 h
  unfold methodOffsets at hrest
  split at hrest
  · rename_i hmethod
    exact ⟨key, hmethod, i, v, rest, hi, by rw [Nat.zero_add]⟩
  · cases hrest

/-- **What an object passes on stands at its offsets, and apart.** -/
theorem stands_yield (role : Role) (location : String) (ms : List (String × Json))
    (refs : List String) :
    Stands (.obj ms) (role.offsets ms refs) (nodes (role.yield location ms refs).tasks) := by
  cases role with
  | definitions =>
    rw [Role.yield, nodes_memberTasks]
    exact stands_members ms
  | paths => exact stands_paths location ms
  | pathItem template =>
    rw [Role.yield, Yield.tasks_append, nodes_append]
    refine (stands_slots location ms [parametersSlot] (by simp)).append
      (stands_operations template location ms) fun a ha b hb => ?_
    obtain ⟨slot, hslot, ha⟩ := through_of_mem_slots ha
    obtain ⟨key, hmethod, hb⟩ := through_of_mem_methods hb
    refine ha.apart hb ?_
    -- no method is spelled like the list of parameters
    rintro rfl
    rw [List.mem_singleton.1 hslot] at hmethod
    exact absurd hmethod (by decide +kernel)
  | operation template method => exact stands_slots location ms operationSlots (by decide)
  | parameter => exact stands_slots location ms (parameterSlots refs) (by simp [parameterSlots])
  | requestBody =>
    exact stands_slots location ms (requestBodySlots refs) (by simp [requestBodySlots])
  | response => exact stands_slots location ms (responseSlots refs) (by simp [responseSlots])
  | schema depth rs =>
    exact stands_slots location ms (schemaSlots (depth + 1) refs) (by simp [schemaSlots])

/-- What an object passes on stands further down. -/
theorem offsets_ne_nil (role : Role) (ms : List (String × Json)) (refs : List String) :
    ∀ a ∈ role.offsets ms refs, a ≠ [] := by
  have heach : ∀ f : String × Json → List Address, ∀ a ∈ each f 0 ms, a ≠ [] := by
    intro f a ha
    obtain ⟨i, m, rest, -, -, rfl⟩ := Json.mem_each.1 ha
    exact List.cons_ne_nil _ rest
  have hslots : ∀ slots, ∀ a ∈ slotsOffsets ms slots, a ≠ [] := by
    intro slots a ha
    obtain ⟨slot, -, hthrough⟩ := through_of_mem_slots ha
    exact hthrough.ne_nil
  cases role with
  | definitions => exact heach _
  | paths => exact heach _
  | pathItem template =>
    intro a ha
    rcases List.mem_append.1 ha with ha | ha
    · exact hslots _ a ha
    · exact heach _ a ha
  | _ => exact hslots _

/-! ## Headers -/

/-- The offset of the map of headers of a response. -/
def headersOffset (ms : List (String × Json)) : Address :=
  (within "headers" here 0 ms).head?.getD []

/-- The map of headers stands at its offset, in the member of that name. -/
theorem of_lookup_headers {ms : List (String × Json)} {v : Json}
    (h : Json.lookup "headers" ms = some v) :
    (Json.obj ms).nodeAt? (headersOffset ms) = some v ∧ Through ms "headers" (headersOffset ms) := by
  have hfound := (stands_member "headers" (.obj ms)).found
  have hmem := @Json.through_of_mem_within ms "headers" (headersOffset ms) here
  unfold headersOffset at hmem ⊢
  rw [inside, Json.get?, h, Option.toList_some, List.map_singleton] at hfound
  obtain ⟨a, hwithin, hnode⟩ := List.map_eq_singleton_iff.1 hfound
  rw [hwithin] at hmem ⊢
  exact ⟨hnode, hmem (List.mem_singleton_self _)⟩

/-- Headers stand apart from each other and from all else that a response passes on. -/
theorem headers_apart {ms hs : List (String × Json)} (refs : List String)
    (h : Json.lookup "headers" ms = some (.obj hs)) :
    (Role.response.offsets ms refs
      ++ (each here 0 hs).map (headersOffset ms ++ ·)).Pairwise Apart := by
  obtain ⟨-, hheaders⟩ := of_lookup_headers h
  refine List.pairwise_append.2 ⟨(stands_yield .response "" ms refs).apart, ?_, ?_⟩
  · refine List.pairwise_map.2 ((stands_members hs).apart.imp fun hapart => ?_)
    exact ⟨fun hle => hapart.1 ((List.prefix_append_right_inj _).1 hle),
      fun hle => hapart.2 ((List.prefix_append_right_inj _).1 hle)⟩
  · intro a ha b hb
    obtain ⟨slot, hslot, ha⟩ := through_of_mem_slots ha
    obtain ⟨rest, -, rfl⟩ := List.mem_map.1 hb
    refine ha.apart (hheaders.append rest) fun hkey => ?_
    have hkeys : "headers" ∉ (responseSlots refs).map (·.key) := by simp [responseSlots]
    exact hkeys (List.mem_map.2 ⟨slot, hslot, hkey⟩)

theorem stands_header (location : String) (node : Json) (refs : List String) :
    Stands node (inside "schema" here node)
      (nodes (headerYield location (.ok (node, refs))).tasks) := by
  have hmember := stands_member "schema" node
  unfold headerYield
  cases hschema : node.get? "schema" <;> simpa [nodes, hschema] using hmember

/-! ## The root -/

/-- The offsets of what a walk sets out to do. -/
def rootOffsets (root : Json) : List Address :=
  inside "components" (inside "schemas" here) root ++ inside "definitions" here root
    ++ inside "paths" here root

theorem rootOffsets_ne_nil (root : Json) : ∀ a ∈ rootOffsets root, a ≠ [] := by
  have hinside : ∀ key f, ∀ a ∈ inside key f root, a ≠ [] := by
    intro key f a ha
    obtain ⟨ms, -, hthrough⟩ := Json.through_of_mem_inside ha
    exact hthrough.ne_nil
  intro a ha
  rcases List.mem_append.1 ha with ha | ha
  · rcases List.mem_append.1 ha with ha | ha
    · exact hinside _ _ a ha
    · exact hinside _ _ a ha
  · exact hinside _ _ a ha

theorem stands_root (w : Walker) : Stands w.root (rootOffsets w.root) (nodes (rootTasks w)) := by
  have htask : ∀ role location v, nodes (rootTask role location v) = v.toList := by
    intro role location v
    cases v <;> rfl
  have hinside : Stands w.root (inside "components" (inside "schemas" here) w.root)
      ((w.root.get? "components").bind (·.get? "schemas")).toList := by
    have hinside := Stands.inside (v := w.root) (stands_member "schemas") "components"
    cases hkey : w.root.get? "components" <;> simpa [hkey] using hinside
  have hapart : ∀ {key other : String} {f g : Json → List Address} {a b : Address},
      a ∈ inside key f w.root → b ∈ inside other g w.root → key ≠ other → Apart a b := by
    intro key other f g a b ha hb hne
    obtain ⟨ms, hms, ha⟩ := Json.through_of_mem_inside ha
    obtain ⟨ms', hms', hb⟩ := Json.through_of_mem_inside hb
    rw [hms] at hms'
    cases hms'
    exact ha.apart hb hne
  rw [rootTasks, nodes_append, nodes_append, htask, htask, htask]
  refine (hinside.append (stands_member "definitions" w.root) fun a ha b hb => ?_).append
    (stands_member "paths" w.root) fun a ha b hb => ?_
  · exact hapart ha hb (by decide)
  · rcases List.mem_append.1 ha with ha | ha
    · exact hapart ha hb (by decide)
    · exact hapart ha hb (by decide)

/-! ## Patterns -/

/-- Whether items hold no pattern but the one that a node has. -/
def OwnOnly (v : Json) (items : List Item) : Prop :=
  ∃ location, (items.filterMap Item.pattern?).Sublist (v.pattern?.map (location, ·)).toList

section OwnOnly

variable {v : Json} {items : List Item}

theorem OwnOnly.of_no_pattern (h : ∀ i ∈ items, i.pattern? = none) : OwnOnly v items := by
  refine ⟨"", ?_⟩
  rw [List.filterMap_eq_nil_iff.2 h]
  exact List.nil_sublist _

theorem OwnOnly.length_le (h : OwnOnly v items) : (items.filterMap Item.pattern?).length ≤ 1 := by
  obtain ⟨location, hsub⟩ := h
  refine Nat.le_trans hsub.length_le ?_
  cases v.pattern? <;> simp

theorem OwnOnly.of_mem {location p : String} (h : OwnOnly v items)
    (hmem : .pattern location p ∈ items) : v.pattern? = some p := by
  obtain ⟨location', hsub⟩ := h
  have hin := hsub.subset (List.mem_filterMap.2 ⟨.pattern location p, hmem, rfl⟩)
  cases hv : v.pattern? with
  | none =>
    rw [hv] at hin
    cases hin
  | some p' =>
    rw [hv] at hin
    cases List.mem_singleton.1 hin
    rfl

/-- What is found at a node is its own. -/
theorem patternAt_ownOnly (location : String) (v : Json) :
    OwnOnly v (patternAt location (v.get? "pattern")) := by
  refine ⟨location, ?_⟩
  unfold Json.pattern?
  cases v.get? "pattern" with
  | none => exact List.Sublist.refl _
  | some u => cases u <;> exact List.Sublist.refl _

/-- Items without patterns add none. -/
theorem OwnOnly.append (h : OwnOnly v items) {others : List Item}
    (hothers : ∀ i ∈ others, i.pattern? = none) : OwnOnly v (items ++ others) := by
  obtain ⟨location, hsub⟩ := h
  refine ⟨location, ?_⟩
  rw [List.filterMap_append, List.filterMap_eq_nil_iff.2 hothers, List.append_nil]
  exact hsub

end OwnOnly

/-- **An object finds no pattern but its own.** -/
theorem yield_ownOnly (role : Role) (location : String) (ms : List (String × Json))
    (refs : List String) : OwnOnly (.obj ms) (role.yield location ms refs).items := by
  have hslots : ∀ slots, ∀ i ∈ (spreadSlots location ms slots).items, i.pattern? = none :=
    fun slots i hi => spreadSlots_items hi
  cases role with
  | definitions =>
    refine .of_no_pattern fun i hi => ?_
    obtain ⟨⟨name, v⟩, -, hi⟩ := List.mem_flatMap.1 hi
    cases v with
    | obj ms => exact List.mem_singleton.1 hi ▸ rfl
    | _ => exact absurd hi List.not_mem_nil
  | paths =>
    refine .of_no_pattern fun i hi => ?_
    obtain ⟨m, -, rfl⟩ := List.mem_map.1 hi
    rfl
  | pathItem template =>
    refine .of_no_pattern fun i hi => ?_
    rcases List.mem_append.1 hi with hi | hi
    · exact hslots _ i hi
    · cases hi
  | operation template method =>
    refine .of_no_pattern fun i hi => ?_
    rcases List.mem_append.1 hi with hi | hi
    · exact List.mem_singleton.1 hi ▸ rfl
    · exact hslots _ i hi
  | parameter => exact (patternAt_ownOnly location (.obj ms)).append (hslots _)
  | requestBody => exact .of_no_pattern (hslots _)
  | response => exact .of_no_pattern (hslots _)
  | schema depth rs => exact (patternAt_ownOnly location (.obj ms)).append (hslots _)

end PatternAudit.Walk
