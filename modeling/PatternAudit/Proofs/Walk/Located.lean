/-
Locations lead back to their nodes.

The location of a task is put together where the task is made, in about as many places
as there are kinds of nodes. The invariant that holds them together is `Task.OnTrail`:
some list of keys writes the task's location and leads, on a trail, to its node, with
the references that its role remembers. `expand_keeps` says that a step passes the
invariant on to every task below; so it holds of all that a walk reads, and of the
patterns that it finds there.

A slot is sound if it goes where a step down goes, `Slot.Sound`; what the tables yield
then follows for all of them at once.
-/
import PatternAudit.Proofs.Walk.Descent
import PatternAudit.Proofs.Walk.Spread
import PatternAudit.Proofs.Walk.Turns

set_option autoImplicit false

namespace PatternAudit.Walk

/-! ## Tasks on trails -/

/-- The place of a role. -/
def Role.place : Role → Place
  | .definitions => .schemas
  | .paths => .paths
  | .pathItem _ => .pathItem
  | .operation _ _ => .operation
  | .parameter => .parameter
  | .requestBody => .requestBody
  | .response => .response
  | .schema _ _ => .schema

theorem Role.refers_place (role : Role) : role.place.refers = role.refers := by
  cases role <;> rfl

theorem Role.element?_place (role : Role) : role.place.element? = none := by
  cases role <;> rfl

theorem Role.eq_response_of_place {role : Role} (h : role.place = .response) :
    role = .response := by
  cases role <;> first | rfl | cases h

/-- A task in whose role no references are followed comes through none. -/
theorem Role.refs_of_not_refers {role : Role} (h : role.refers = false) : role.refs = [] := by
  cases role <;> first | rfl | cases h

/-- A task whose location leads to its node. -/
def Task.OnTrail (w : Walker) (t : Task) : Prop :=
  ∃ segs, t.location = locate segs ∧ Trail w segs t.role.place t.node t.role.refs

/-! ## Slots -/

/-- The slots that go where steps down from a place go, at a node that was reached
through the references `refs`. -/
inductive Slot.Sound : Place → List String → Slot → Prop where
  | one {p : Place} {refs : List String} {key : String} {role : Role} (q : Place)
      (hmember : (key, q) ∈ p.members) (hplace : role.place = q)
      (hrefs : role.refs = p.carry refs) : Sound p refs ⟨key, .one, role⟩
  | oneObject {refs : List String} {role : Role} (hplace : role.place = .schema)
      (hrefs : role.refs = refs) : Sound .schema refs ⟨"additionalProperties", .oneObject, role⟩
  | list {p : Place} {refs : List String} {key what : String} {role : Role} (q : Place)
      (hmember : (key, q) ∈ p.members) (helement : q.element? = some role.place)
      (hrefs : role.refs = p.carry refs) : Sound p refs ⟨key, .list what, role⟩
  | listOrOne {refs : List String} {role : Role} (hplace : role.place = .schema)
      (hrefs : role.refs = refs) : Sound .schema refs ⟨"items", .listOrOne, role⟩
  | map {p : Place} {refs : List String} {key what : String} {role : Role} (q : Place)
      (hmember : (key, q) ∈ p.members) (hbetween : q.between = true)
      (hentry : q.entry? = some role.place) (hrefs : role.refs = p.carry refs) :
      Sound p refs ⟨key, .map what, role⟩
  | mediaTypes {p : Place} {refs : List String} {key : String} {role : Role}
      (hmember : (key, .content) ∈ p.members) (hplace : role.place = .schema)
      (hrefs : role.refs = p.carry refs) : Sound p refs ⟨key, .mediaTypes, role⟩

theorem parametersSlot_sound {p : Place} {refs : List String}
    (hmember : ("parameters", .parameters) ∈ p.members) (hcarry : p.carry refs = []) :
    parametersSlot.Sound p refs :=
  .list .parameters hmember rfl hcarry.symm

theorem operationSlots_sound : ∀ slot ∈ operationSlots, slot.Sound .operation [] := by
  simp only [operationSlots, List.forall_mem_cons]
  exact ⟨parametersSlot_sound (by decide) rfl, .one .requestBody (by decide) rfl rfl,
    .map .responses (by decide) (by decide) rfl rfl, List.forall_mem_nil _⟩

theorem parameterSlots_sound (refs : List String) :
    ∀ slot ∈ parameterSlots refs, slot.Sound .parameter refs := by
  simp only [parameterSlots, List.forall_mem_cons]
  exact ⟨.one .schema (by decide) rfl rfl, .one .schema (by decide) rfl rfl,
    .mediaTypes (by decide) rfl rfl, List.forall_mem_nil _⟩

theorem requestBodySlots_sound (refs : List String) :
    ∀ slot ∈ requestBodySlots refs, slot.Sound .requestBody refs := by
  simp only [requestBodySlots, List.forall_mem_cons]
  exact ⟨.mediaTypes (by decide) rfl rfl, List.forall_mem_nil _⟩

theorem responseSlots_sound (refs : List String) :
    ∀ slot ∈ responseSlots refs, slot.Sound .response refs := by
  simp only [responseSlots, List.forall_mem_cons]
  exact ⟨.mediaTypes (by decide) rfl rfl, .one .schema (by decide) rfl rfl, List.forall_mem_nil _⟩

theorem schemaSlots_sound (depth : Nat) (refs : List String) :
    ∀ slot ∈ schemaSlots depth refs, slot.Sound .schema refs := by
  simp only [schemaSlots, List.forall_mem_cons]
  exact ⟨.map .properties (by decide) (by decide) rfl rfl, .listOrOne rfl rfl,
    .list .branches (by decide) rfl rfl, .list .branches (by decide) rfl rfl,
    .list .branches (by decide) rfl rfl, .one .schema (by decide) rfl rfl, .oneObject rfl rfl,
    List.forall_mem_nil _⟩

/-- The key of a sound slot is written as it is. -/
theorem Slot.Sound.escape_key {p : Place} {refs : List String} {slot : Slot}
    (h : slot.Sound p refs) : Pointer.escape slot.key = slot.key := by
  cases h with
  | one q hmember => exact Place.escape_member hmember
  | oneObject =>
    show Pointer.escape "additionalProperties" = "additionalProperties"
    decide
  | list q hmember => exact Place.escape_member hmember
  | listOrOne =>
    show Pointer.escape "items" = "items"
    decide
  | map q hmember => exact Place.escape_member hmember
  | mediaTypes hmember => exact Place.escape_member hmember

theorem Slot.Sound.refs_eq {p : Place} {refs : List String} {slot : Slot}
    (h : slot.Sound p refs) : slot.role.refs = p.carry refs := by
  cases h <;> assumption

section Slots

variable {w : Walker} {segs : List String} {p q : Place} {v : Json} {refs : List String}
  {role : Role}

/-- The elements of a list are on trails if the list is. -/
theorem itemTasks_onTrail {vs : List Json} (h : Trail w segs p (.arr vs) refs)
    (hplace : p.element? = some role.place) (hrefs : role.refs = refs) {t : Task}
    (ht : t ∈ itemTasks role (locate segs) 0 vs) : t.OnTrail w := by
  obtain ⟨i, x, hi, rfl⟩ := mem_itemTasks.1 ht
  have hrefers := Place.refers_of_element hplace
  have hstep := h.child (Place.reads_of_not_refers hrefers _) (.element hplace hi)
  rw [Place.carry_of_not_refers hrefers, ← hrefs] at hstep
  rw [Nat.zero_add, locate_below (Pointer.escape_toString i)]
  exact ⟨_, rfl, hstep⟩

/-- The members of a map are on trails if the map is. -/
theorem memberTasks_onTrail {ms : List (String × Json)} (h : Trail w segs p (.obj ms) refs)
    (hplace : p.entry? = some role.place) (hpath : p ≠ .paths) (hrefs : role.refs = refs)
    {t : Task} (ht : t ∈ memberTasks role (locate segs) ms) : t.OnTrail w := by
  obtain ⟨key, x, hmem, rfl⟩ := mem_memberTasks.1 ht
  have hrefers := Place.refers_of_entry hplace
  have hstep := h.child (Place.reads_of_not_refers hrefers _)
    (.entry_of_ne hplace hmem hpath)
  rw [Place.carry_of_not_refers hrefers, ← hrefs] at hstep
  exact ⟨_, (locate_append segs key).symm, hstep⟩

/-- The schemas of media types are on trails if their map is. -/
theorem mediaSchemas_onTrail {ms : List (String × Json)} (h : Trail w segs .content (.obj ms) refs)
    (hplace : role.place = .schema) (hrefs : role.refs = refs) {t : Task}
    (ht : t ∈ (mediaSchemas role (locate segs) ms).tasks) : t.OnTrail w := by
  obtain ⟨key, media, schema, hmem, hschema, rfl⟩ := mem_mediaSchemas_tasks.1 ht
  have hmedia : Trail w (segs ++ [key]) .mediaType media refs :=
    h.child (Place.reads_of_not_refers rfl _) (.entry_of_ne rfl hmem (by decide))
  have hstep : Trail w (segs ++ [key] ++ ["schema"]) .schema schema refs :=
    hmedia.child (Place.reads_of_not_refers rfl _) (.member (List.mem_singleton_self _) hschema)
  rw [← hplace, ← hrefs] at hstep
  rw [← locate_append, locate_below (by decide)]
  exact ⟨_, rfl, hstep⟩

/-- What a sound slot of an object yields is on trails if the object is. -/
theorem slot_onTrail {ms : List (String × Json)} {slot : Slot}
    (h : Trail w segs p (.obj ms) refs) (hreads : p.Reads (.obj ms)) (hslot : slot.Sound p refs)
    {t : Task} (ht : t ∈ (slot.yield (locate segs) ms).tasks) : t.OnTrail w := by
  obtain ⟨v, hv, ht⟩ := mem_slot_tasks.1 ht
  rw [locate_below hslot.escape_key] at ht
  have hget : Json.get? slot.key (.obj ms) = some v := hv
  have hhere : ∀ {q}, Child p (.obj ms) slot.key q v →
      Trail w (segs ++ [slot.key]) q v slot.role.refs := by
    intro q hchild
    rw [hslot.refs_eq]
    exact h.child hreads hchild
  -- where a slot holds one node, its task is one step down
  have hone : Child p (.obj ms) slot.key slot.role.place v →
      t = ⟨slot.role, v, locate (segs ++ [slot.key])⟩ → t.OnTrail w := by
    rintro hchild rfl
    exact ⟨_, rfl, hhere hchild⟩
  cases hslot with
  | one q hmember hplace =>
    rw [← hplace] at hmember
    exact hone (.member hmember hget) (List.mem_singleton.1 ht)
  | oneObject hplace =>
    cases v with
    | obj members =>
      rw [hplace] at hone
      exact hone (.additional hget) (List.mem_singleton.1 ht)
    | _ => exact absurd ht List.not_mem_nil
  | list q hmember helement =>
    cases v with
    | arr vs => exact itemTasks_onTrail (hhere (.member hmember hget)) helement rfl ht
    | _ => exact absurd ht List.not_mem_nil
  | listOrOne hplace =>
    cases v with
    | arr vs =>
      exact itemTasks_onTrail (hhere (.tuple hget)) (congrArg some hplace.symm) rfl ht
    | _ =>
      rw [hplace] at hone
      exact hone (.items hget fun vs heq => by cases heq) (List.mem_singleton.1 ht)
  | map q hmember hbetween hentry =>
    have hpath := Place.ne_paths_of_between hbetween
    cases v with
    | obj members => exact memberTasks_onTrail (hhere (.member hmember hget)) hentry hpath rfl ht
    | _ => exact absurd ht List.not_mem_nil
  | mediaTypes hmember hplace =>
    cases v with
    | obj members => exact mediaSchemas_onTrail (hhere (.member hmember hget)) hplace rfl ht
    | _ => exact absurd ht List.not_mem_nil

theorem spreadSlots_onTrail {ms : List (String × Json)} {slots : List Slot}
    (h : Trail w segs p (.obj ms) refs) (hreads : p.Reads (.obj ms))
    (hslots : ∀ slot ∈ slots, slot.Sound p refs) {t : Task}
    (ht : t ∈ (spreadSlots (locate segs) ms slots).tasks) : t.OnTrail w := by
  obtain ⟨slot, hslot, v, hv, ht⟩ := mem_spreadSlots_tasks.1 ht
  exact slot_onTrail h hreads (hslots slot hslot) (mem_slot_tasks.2 ⟨v, hv, ht⟩)

end Slots

/-! ## Steps -/

theorem escape_method {method : String} (h : method ∈ methods) :
    Pointer.escape method = method := by
  revert method
  decide

/-- What an object yields in its role is on trails if the object is. Roles in which no
references are followed have gone through none. -/
theorem yield_onTrail {w : Walker} {segs : List String} {role : Role}
    {members : List (String × Json)} {refs : List String}
    (h : Trail w segs role.place (.obj members) refs) (hreads : role.place.Reads (.obj members))
    (hrefs : role.refers = false → refs = []) {t : Task}
    (ht : t ∈ (role.yield (locate segs) members refs).tasks) : t.OnTrail w := by
  cases role with
  | definitions =>
    obtain rfl := hrefs rfl
    exact memberTasks_onTrail h rfl (by decide) rfl ht
  | paths =>
    obtain rfl := hrefs rfl
    obtain ⟨⟨key, item⟩, hmem, rfl⟩ := List.mem_map.1 ht
    -- what the filter has kept is no extension
    obtain ⟨hmem, hext⟩ := List.mem_filter.1 hmem
    have hstep := h.child hreads (.entry rfl hmem fun _ => by simpa using hext)
    exact ⟨_, (locate_append segs key).symm, hstep⟩
  | pathItem template =>
    rw [Role.yield, Yield.tasks_append] at ht
    rcases List.mem_append.1 ht with ht | ht
    · refine spreadSlots_onTrail h hreads (List.forall_mem_singleton.2 ?_) ht
      exact parametersSlot_sound (p := .pathItem) (by decide) rfl
    · obtain ⟨key, v, method, hmem, hmethod, rfl⟩ := mem_operationTasks.1 ht
      obtain ⟨hmethod, hspelled⟩ := methodOf?_eq_some_iff.1 hmethod
      have hstep := h.child hreads (.method hmem hmethod hspelled)
      rw [locate_below (escape_method hmethod)]
      exact ⟨_, rfl, hstep⟩
  | operation template method =>
    obtain rfl := hrefs rfl
    rw [Role.yield, Yield.tasks_own] at ht
    exact spreadSlots_onTrail h hreads operationSlots_sound ht
  | parameter =>
    rw [Role.yield, Yield.tasks_own] at ht
    exact spreadSlots_onTrail h hreads (parameterSlots_sound refs) ht
  | requestBody =>
    rw [Role.yield] at ht
    exact spreadSlots_onTrail h hreads (requestBodySlots_sound refs) ht
  | response =>
    rw [Role.yield] at ht
    exact spreadSlots_onTrail h hreads (responseSlots_sound refs) ht
  | schema depth rs =>
    rw [Role.yield, Yield.tasks_own] at ht
    exact spreadSlots_onTrail h hreads (schemaSlots_sound (depth + 1) refs) ht

/-- A text that is the `pattern` of the node which a location leads to, at a place where
patterns count. -/
def Located (w : Walker) (location pattern : String) : Prop :=
  ∃ segs p v refs, location = locate segs ∧ Trail w segs p v refs ∧ p.Reads v ∧
    p.bearsPattern = true ∧ v.get? "pattern" = some (.str pattern)

theorem yield_located {w : Walker} {segs : List String} {role : Role}
    {members : List (String × Json)} {refs : List String}
    (h : Trail w segs role.place (.obj members) refs) (hreads : role.place.Reads (.obj members))
    {location pattern : String}
    (hi : .pattern location pattern ∈ (role.yield (locate segs) members refs).items) :
    Located w location pattern := by
  -- parameters and schemas have a pattern of their own; what slots yield is none
  have hown : ∀ slots, role.place.bearsPattern = true →
      .pattern location pattern ∈ ((spreadSlots (locate segs) members slots).own
        (patternAt (locate segs) (Json.lookup "pattern" members))).items →
      Located w location pattern := by
    intro slots hbears hi
    rw [Yield.items_own] at hi
    rcases List.mem_append.1 hi with hi | hi
    · obtain ⟨rfl, hpattern⟩ := mem_patternAt.1 hi
      exact ⟨segs, role.place, .obj members, refs, rfl, h, hreads, hbears, hpattern⟩
    · exact absurd (spreadSlots_items hi) (Option.some_ne_none _)
  cases role with
  | definitions =>
    obtain ⟨⟨name, v⟩, -, hi⟩ := List.mem_flatMap.1 hi
    cases v with
    | obj ms =>
      have hschema := List.mem_singleton.1 hi
      cases hschema
    | _ => exact absurd hi List.not_mem_nil
  | paths =>
    obtain ⟨m, -, hi⟩ := List.mem_map.1 hi
    cases hi
  | pathItem template =>
    rw [Role.yield, Yield.items_append] at hi
    rcases List.mem_append.1 hi with hi | hi
    · exact absurd (spreadSlots_items hi) (Option.some_ne_none _)
    · cases hi
  | operation template method =>
    rw [Role.yield, Yield.items_own] at hi
    rcases List.mem_append.1 hi with hi | hi
    · have hoperation := List.mem_singleton.1 hi
      cases hoperation
    · exact absurd (spreadSlots_items hi) (Option.some_ne_none _)
  | parameter =>
    rw [Role.yield] at hi
    exact hown _ rfl hi
  | requestBody =>
    rw [Role.yield] at hi
    exact absurd (spreadSlots_items hi) (Option.some_ne_none _)
  | response =>
    rw [Role.yield] at hi
    exact absurd (spreadSlots_items hi) (Option.some_ne_none _)
  | schema depth rs =>
    rw [Role.yield] at hi
    exact hown _ rfl hi

/-- Items and tasks that keep to trails: the tasks are on trails, and the patterns among
the items are located. -/
structure KeepsToTrails (w : Walker) (items : List Item) (tasks : List Task) : Prop where
  onTrail : ∀ t ∈ tasks, t.OnTrail w
  located : ∀ location pattern, .pattern location pattern ∈ items → Located w location pattern

theorem KeepsToTrails.nothing (w : Walker) : KeepsToTrails w [] [] where
  onTrail _ ht := absurd ht List.not_mem_nil
  located _ _ hi := absurd hi List.not_mem_nil

/-- A diagnostic is no pattern. -/
theorem KeepsToTrails.skip (w : Walker) (location : String) (why : Skip) :
    KeepsToTrails w (Yield.skip location why).items (Yield.skip location why).tasks where
  onTrail _ ht := absurd ht List.not_mem_nil
  located _ _ hi := absurd (skip_items hi) (Option.some_ne_none _)

theorem KeepsToTrails.append {w : Walker} {items items' : List Item} {tasks tasks' : List Task}
    (h : KeepsToTrails w items tasks) (h' : KeepsToTrails w items' tasks') :
    KeepsToTrails w (items ++ items') (tasks ++ tasks') := by
  constructor
  · intro t ht
    rcases List.mem_append.1 ht with ht | ht
    · exact h.onTrail t ht
    · exact h'.onTrail t ht
  · intro location pattern hi
    rcases List.mem_append.1 hi with hi | hi
    · exact h.located location pattern hi
    · exact h'.located location pattern hi

/-- A header on a trail yields its own pattern, and a schema on a trail. -/
theorem headerYield_keeps {w : Walker} {segs : List String} {header : Json} {refs : List String}
    (h : Trail w segs .header header refs) (n : Nat) :
    KeepsToTrails w (headerYield (locate segs) (follow w n header refs).1).items
      (headerYield (locate segs) (follow w n header refs).1).tasks := by
  rcases hfollow : follow w n header refs with ⟨result, m⟩
  cases result with
  | error why => exact .skip w (locate segs) why
  | ok landed =>
    obtain ⟨node, rs⟩ := landed
    -- the location stays the header's, while the node is the one its references lead to
    obtain ⟨hnode, hreads⟩ := h.follow rfl hfollow
    constructor
    · intro t ht
      have hschema : ∃ v, node.get? "schema" = some v ∧
          t = ⟨.schema 0 rs, v, below (locate segs) "schema"⟩ := by
        cases hv : node.get? "schema" with
        | none => simp [headerYield, hv] at ht
        | some v => simpa [headerYield, hv] using ht
      obtain ⟨v, hv, rfl⟩ := hschema
      rw [locate_below (by decide)]
      exact ⟨_, rfl, hnode.child hreads (.member (List.mem_singleton_self _) hv)⟩
    · intro location pattern hi
      obtain ⟨rfl, hpattern⟩ := mem_patternAt.1 hi
      exact ⟨segs, .header, node, rs, rfl, hnode, hreads, rfl, hpattern⟩

/-- The headers of a response keep to trails, whatever count each of them starts with. -/
theorem headers_keep {w : Walker} {segs : List String} {refs : List String}
    {hs : List (String × Json)} (hheaders : ∀ m ∈ hs, Trail w (segs ++ [m.1]) .header m.2 refs)
    (n : Nat) :
    KeepsToTrails w (headers w (locate segs) refs n hs).items
      (headers w (locate segs) refs n hs).tasks := by
  induction hs generalizing n with
  | nil => exact .nothing w
  | cons m hs ih =>
    have hfirst := headerYield_keeps (hheaders m (List.mem_cons_self ..)) n
    rw [locate_append] at hfirst
    exact hfirst.append (ih (fun m' hm' => hheaders m' (List.mem_cons_of_mem _ hm')) _)

/-- An object on a trail that is read in its role keeps to trails. -/
theorem readObject_keeps {w : Walker} {segs : List String} {role : Role}
    {members : List (String × Json)} {refs : List String} (n : Nat)
    (h : Trail w segs role.place (.obj members) refs) (hreads : role.place.Reads (.obj members))
    (hrefs : role.refers = false → refs = []) :
    KeepsToTrails w (readObject w role (locate segs) members refs n).items
      (readObject w role (locate segs) members refs n).tasks := by
  have hyield : KeepsToTrails w (role.yield (locate segs) members refs).items
      (role.yield (locate segs) members refs).tasks :=
    ⟨fun _ ht => yield_onTrail h hreads hrefs ht, fun _ _ hi => yield_located h hreads hi⟩
  have hheaders : KeepsToTrails w (role.headers w (locate segs) members refs n).items
      (role.headers w (locate segs) members refs n).tasks := by
    unfold Role.headers
    split
    · rename_i hs hlookup
      have hmap : Trail w (segs ++ ["headers"]) .headers (.obj hs) refs :=
        h.child hreads (.member (q := .headers) (by decide) hlookup)
      rw [locate_below (by decide)]
      refine headers_keep (fun m hm => ?_) n
      exact hmap.child (Place.reads_of_not_refers rfl _)
        (.entry_of_ne rfl hm (by decide))
    · exact .nothing w
  exact hyield.append hheaders

/-- Where the references of a task on a trail end. -/
theorem landing_onTrail {w : Walker} {n m : Nat} {segs : List String} {t : Task} {node : Json}
    {refs : List String} (h : Trail w segs t.role.place t.node t.role.refs)
    (hlanding : landing w n t = (.ok (node, refs), m)) :
    Trail w segs t.role.place node refs ∧ t.role.place.Reads node ∧
      (t.role.refers = false → refs = []) := by
  unfold landing at hlanding
  split at hlanding
  · rename_i hrefers
    rw [← Role.refers_place] at hrefers
    obtain ⟨hnode, hreads⟩ := h.follow hrefers hlanding
    refine ⟨hnode, hreads, fun hnot => ?_⟩
    rw [← Role.refers_place, hrefers] at hnot
    cases hnot
  · rename_i hrefers
    have hnot : t.role.refers = false := Bool.eq_false_iff.2 hrefers
    -- without references to follow, the step ends where it starts
    cases hlanding
    rw [Role.refs_of_not_refers hnot] at h
    exact ⟨h, Place.reads_of_not_refers ((Role.refers_place _).trans hnot) _, fun _ => rfl⟩

/-- **A step keeps to trails.** What a task on a trail yields is on trails, and its
patterns are located. -/
theorem expand_keeps {w : Walker} (n : Nat) {t : Task} (h : t.OnTrail w) :
    KeepsToTrails w (expand w n t).items (expand w n t).tasks := by
  obtain ⟨segs, hlocation, htrail⟩ := h
  unfold expand
  split
  · rename_i y hbarred
    rcases barred?_eq_some hbarred with ⟨_, _, _, _, rfl⟩ | ⟨_, _, _, _, _, rfl⟩
    · exact .skip w t.location (.tooDeep w.limits.maxDepth)
    · exact .nothing w
  · rw [hlocation]
    rcases hlanding : landing w n t with ⟨result, m⟩
    cases result with
    | error why => exact .skip w (locate segs) why
    | ok landed =>
      obtain ⟨node, refs⟩ := landed
      obtain ⟨hnode, hreads, hrefs⟩ := landing_onTrail htrail hlanding
      cases node with
      | obj members => exact readObject_keeps m hnode hreads hrefs
      | _ => exact .skip w (locate segs) (t.role.misfit _)

/-! ## Walks -/

theorem mem_rootTask {role : Role} {location : String} {v : Option Json} {t : Task} :
    t ∈ rootTask role location v ↔ ∃ node, v = some node ∧ t = ⟨role, node, location⟩ := by
  cases v <;> simp [rootTask]

/-- What a walk sets out with. -/
theorem mem_rootTasks {w : Walker} {t : Task} :
    t ∈ rootTasks w ↔
      (∃ components schemas, w.root.get? "components" = some components ∧
        components.get? "schemas" = some schemas ∧
        t = ⟨.definitions, schemas, locate ["components", "schemas"]⟩) ∨
      (∃ definitions, w.root.get? "definitions" = some definitions ∧
        t = ⟨.definitions, definitions, locate ["definitions"]⟩) ∨
      ∃ paths, w.root.get? "paths" = some paths ∧ t = ⟨.paths, paths, locate ["paths"]⟩ := by
  have hschemas : "#/components/schemas" = locate ["components", "schemas"] := by decide +kernel
  have hdefinitions : "#/definitions" = locate ["definitions"] := by decide +kernel
  have hpaths : "#/paths" = locate ["paths"] := by decide +kernel
  rw [rootTasks, List.mem_append, List.mem_append, mem_rootTask, mem_rootTask, mem_rootTask,
    or_assoc, hschemas, hdefinitions, hpaths]
  simp only [Option.bind_eq_some_iff, ← exists_and_right, and_assoc]
  rw [exists_comm]

/-- A walk sets out on trails. -/
theorem rootTasks_onTrail (w : Walker) : ∀ t ∈ rootTasks w, t.OnTrail w := by
  have hmember : ∀ {p : Place} {key : String} {v : Json}, (key, p) ∈ Place.members .root →
      w.root.get? key = some v → Trail w [key] p v [] := fun hplace hv =>
    Trail.root.child (Place.reads_of_not_refers rfl _) (.member hplace hv)
  intro t ht
  rcases mem_rootTasks.1 ht with ⟨components, schemas, hcomponents, hschemas, rfl⟩ |
    ⟨definitions, hdefinitions, rfl⟩ | ⟨paths, hpaths, rfl⟩
  · have hinner : Trail w ["components", "schemas"] .schemas schemas [] :=
      (hmember (p := .components) (by decide) hcomponents).child (Place.reads_of_not_refers rfl _)
        (.member (List.mem_singleton_self _) hschemas)
    exact ⟨_, rfl, hinner⟩
  · exact ⟨_, rfl, hmember (p := .schemas) (by decide) hdefinitions⟩
  · exact ⟨_, rfl, hmember (p := .paths) (by decide) hpaths⟩

/-- All that a walk reads is on trails. -/
theorem readings_onTrail (w : Walker) : ∀ r ∈ (visit w).readings, r.2.OnTrail w :=
  forall_readings (fun n _ h => (expand_keeps n h).onTrail) 0 (rootTasks w) (rootTasks_onTrail w)

/-- A location whose keys lead to a node that is read at a place. -/
def LeadsTo (doc : Json) (location : String) (p : Place) (v : Json) : Prop :=
  ∃ segs, Pointer.segments location = "#" :: segs ∧ Descent doc segs p v ∧ p.Reads v

/-- **The location of a pattern leads to it.** Its segments, with their escapes undone,
are the keys of a descent from the root through the references on the way, and the
descent ends at an object that has the pattern as its `pattern` member. -/
theorem location_leads_to_pattern {w : Walker} {location pattern : String}
    (h : .pattern location pattern ∈ run w) :
    ∃ p v, LeadsTo w.root location p v ∧ p.bearsPattern = true ∧
      v.get? "pattern" = some (.str pattern) := by
  rw [run_eq_visit, visit, visitNodes_items] at h
  obtain ⟨⟨n, t⟩, hread, hitem⟩ := List.mem_flatMap.1 h
  have htrail := readings_onTrail w (n, t) hread
  obtain ⟨segs, p, v, refs, rfl, hv, hreads, hbears, hpattern⟩ :=
    (expand_keeps n htrail).located location pattern hitem
  exact ⟨p, v, ⟨segs, segments_locate segs, hv.descent, hreads⟩, hbears, hpattern⟩

/-- A description whose only pattern is found through two references, below a path with
a slash and a tilde and a method in capitals. -/
def sharedParameter : Json :=
  .obj [
    ("openapi", .str "3.0.3"),
    ("components", .obj [
      ("parameters", .obj [
        ("id", .obj [("schema", .obj [("$ref", .str "#/components/x-types/id")])])]),
      ("x-types", .obj [("id", .obj [("pattern", .str "^[a-z]+$")])])]),
    ("paths", .obj [
      ("/users/~me", .obj [
        ("GET", .obj [
          ("parameters", .arr [.obj [("$ref", .str "#/components/parameters/id")]])])])])]

theorem location_leads_to_shared_pattern :
    .pattern "#/paths/~1users~1~0me/get/parameters/0/schema" "^[a-z]+$"
        ∈ run ⟨sharedParameter, Limits.default⟩ ∧
      ∃ p v, LeadsTo sharedParameter "#/paths/~1users~1~0me/get/parameters/0/schema" p v ∧
        p.bearsPattern = true ∧ v.get? "pattern" = some (.str "^[a-z]+$") := by
  have hfound : patterns ⟨sharedParameter, Limits.default⟩
      = [("#/paths/~1users~1~0me/get/parameters/0/schema", "^[a-z]+$")] :=
    patterns_of_test 8 (by decide +kernel)
  have hrun : .pattern "#/paths/~1users~1~0me/get/parameters/0/schema" "^[a-z]+$"
      ∈ run ⟨sharedParameter, Limits.default⟩ := by
    rw [← mem_patterns, hfound]
    exact List.mem_singleton_self _
  exact ⟨hrun, location_leads_to_pattern hrun⟩

end PatternAudit.Walk
