/-
Values that their place does not take.

Every place asks for one type of value. `Place.misfit?` says, place by place, what is wrong with
a value of another type, and `Malformed` lists what can be wrong at a position of a walk: the
value, once its references are followed, is a misfit; a reference to a schema leads to `true` or
`false`; or a `pattern` is no text. This says nothing of how a walk goes about it, and the walk
does it in many ways: the task of a node, a slot, a media type, a header each have their own
check.

A walk says of a position what is malformed there (`Malformed.mem_run`, for walks that meet no
limit), and nothing else of that kind (`Item.Explained`, by steps). For the first, the slots of
a role have to have the words of their places (`Slot.Apt`). For the second, the invariant on
tasks is the same as for patterns: they are on trails.
-/
import PatternAudit.Proofs.Walk.Covered
import PatternAudit.Proofs.Walk.Written

set_option autoImplicit false

namespace PatternAudit.Walk

/-! ## What places ask for -/

/-- What is said of a value that is no object. -/
def notObject (why : Json → Skip) : Json → Option Skip
  | .obj _ => none
  | v => some (why v)

/-- What is said of a value that is no list. -/
def notList (what : String) : Json → Option Skip
  | .arr _ => none
  | _ => some (.expected what)

theorem notObject_eq_some {why : Json → Skip} {v : Json} {s : Skip} :
    notObject why v = some s ↔ (∀ ms, v ≠ .obj ms) ∧ s = why v := by
  cases v <;> simp [notObject, eq_comm]

/-- What is said of a value at a place whose type the place does not ask for. Nothing is said
of headers. -/
def Place.misfit? : Place → Json → Option Skip
  | schemas => notObject fun _ => .expected "a map of schemas"
  | paths => notObject fun _ => .expected "a map of path items"
  | pathItem => notObject fun _ => .expected "a path item object"
  | operation => notObject fun _ => .expected "an operation object"
  | parameters => notList "a list of parameters"
  | parameter => notObject fun _ => .expected "a parameter object"
  | requestBody => notObject fun _ => .expected "a request body object"
  | content => notObject fun _ => .expected "a map of media types"
  | mediaType => notObject fun _ => .expected "a media type object"
  | responses => notObject fun _ => .expected "a map of responses"
  | response => notObject fun _ => .expected "a response object"
  | schema => notObject .notASchema
  | properties => notObject fun _ => .expected "a map of schemas"
  | branches => notList "a list of schemas"
  | root | components | headers | header => fun _ => none

/-- What is malformed at a position of a walk. -/
inductive Malformed (w : Walker) : List String → Skip → Prop where
  /-- a value of the wrong type; `true` and `false` are schemas -/
  | misfit {segs : List String} {p : Place} {v : Json} {refs : List String} {why : Skip}
      (h : Trail w segs p v refs) (hreads : p.Reads v) (hwhy : p.misfit? v = some why)
      (hbool : p = .schema → ∀ b, v ≠ .bool b) : Malformed w segs why
  /-- `true` or `false`, behind a reference -/
  | referred {segs : List String} {v : Json} {refs : List String} {target : String} {b : Bool}
      (h : Trail w segs .schema v refs) (htarget : target? v = some target) (hnew : target ∉ refs)
      (hnext : Pointer.resolveRef? w.root target = some (.bool b)) :
      Malformed w segs (.notASchema (.bool b))
  /-- a `pattern` that is no text -/
  | pattern {segs : List String} {p : Place} {v x : Json} {refs : List String}
      (h : Trail w segs p v refs) (hreads : p.Reads v) (hbears : p.bearsPattern = true)
      (hx : v.get? "pattern" = some x) (htext : ∀ s, x ≠ .str s) : Malformed w segs .patternNotString

theorem Role.misfit?_place (role : Role) (v : Json) :
    role.place.misfit? v = notObject role.misfit v := by
  cases role <;> cases v <;> rfl

theorem isMisfit_of_misfit? {p : Place} {v : Json} {why : Skip} (h : p.misfit? v = some why) :
    why.isMisfit = true := by
  cases p <;> cases v <;> cases h <;> rfl

theorem Malformed.isMisfit {w : Walker} {segs : List String} {why : Skip}
    (h : Malformed w segs why) : why.isMisfit = true := by
  cases h with
  | misfit _ _ hwhy => exact isMisfit_of_misfit? hwhy
  | referred => rfl
  | pattern => rfl

/-! ## Obstacles

What stops references on their way is not about the value that they would lead to. -/

theorem isMisfit_of_hop {w : Walker} {n : Nat} {refs : List String} {target : String} {why : Skip}
    (h : hop w n refs target = .error why) : why.isMisfit = false := by
  unfold hop at h
  repeat' split at h
  all_goals cases h
  all_goals rfl

theorem isMisfit_of_follow {w : Walker} {n : Nat} {v : Json} {refs : List String} {why : Skip}
    (h : (follow w n v refs).1 = .error why) : why.isMisfit = false := by
  fun_induction follow w n v refs with
  | case1 => cases h
  | case2 _ _ _ _ _ _ hhop =>
    cases h
    exact isMisfit_of_hop hhop
  | case3 _ _ _ _ _ _ _ ih => exact ih h

/-- Where references have led to another node, the last of them led there. -/
theorem Trail.last_hop {w : Walker} {segs : List String} {p : Place} {n m : Nat} {v last : Json}
    {refs rs : List String} (h : Trail w segs p v refs) (hrefers : p.refers = true)
    (hfollow : Walk.follow w n v refs = (.ok (last, rs), m)) :
    last = v ∨ ∃ u refs' target, Trail w segs p u refs' ∧ target? u = some target ∧
      target ∉ refs' ∧ Pointer.resolveRef? w.root target = some last := by
  fun_induction Walk.follow w n v refs with
  | case1 n v refs htarget =>
    cases hfollow
    exact .inl rfl
  | case2 => cases hfollow
  | case3 n v refs target htarget next hhop ih =>
    obtain ⟨hnew, hbound, -, hnext⟩ := hop_eq_ok_iff.1 hhop
    rcases ih (.hop h hrefers htarget hnew hbound hnext) hfollow with rfl | hlast
    · exact .inr ⟨v, refs, target, h, htarget, hnew, hnext⟩
    · exact .inr hlast

/-! ## What slots say -/

/-- What a slot says of a value at its own location. -/
def Spread.misfit? : Spread → Json → Option Skip
  | list what => notList what
  | map what => notObject fun _ => .expected what
  | mediaTypes => notObject fun _ => .expected "a map of media types"
  | one | oneObject | listOrOne => fun _ => none

theorem mem_mediaSchema_items {role : Role} {location : String} {media : Json} {i : Item} :
    i ∈ (mediaSchema role location media).items ↔
      ∃ why, Place.mediaType.misfit? media = some why ∧ i = .skipped location why := by
  cases media with
  | obj members =>
    rw [mediaSchema]
    cases Json.lookup "schema" members <;> simp [Yield.nothing, Place.misfit?, notObject]
  | _ => simp [mediaSchema, Yield.skip, Place.misfit?, notObject]

theorem mem_mediaSchemas_items {role : Role} {location : String} {ms : List (String × Json)}
    {i : Item} :
    i ∈ (mediaSchemas role location ms).items ↔
      ∃ m ∈ ms, ∃ why, Place.mediaType.misfit? m.2 = some why ∧
        i = .skipped (belowKey location m.1) why := by
  induction ms with
  | nil => simp [mediaSchemas, Yield.nothing]
  | cons m ms ih =>
    obtain ⟨key, media⟩ := m
    rw [mediaSchemas, Yield.items_append, List.mem_append, mem_mediaSchema_items, ih,
      List.exists_mem_cons_iff]

/-- A slot speaks of its value, or of one of its media types. -/
theorem mem_spread_items {s : Spread} {role : Role} {location : String} {v : Json} {i : Item} :
    i ∈ (s.at role location v).items ↔
      (∃ why, s.misfit? v = some why ∧ i = .skipped location why) ∨
        s = .mediaTypes ∧ ∃ ms, v = .obj ms ∧ ∃ m ∈ ms, ∃ why,
          Place.mediaType.misfit? m.2 = some why ∧ i = .skipped (belowKey location m.1) why := by
  unfold Spread.at
  cases s with
  | one => simp [Spread.misfit?]
  | oneObject => cases v <;> simp [Spread.misfit?, Yield.nothing]
  | list what => cases v <;> simp [Spread.misfit?, notList, Yield.skip]
  | listOrOne => cases v <;> simp [Spread.misfit?]
  | map what => cases v <;> simp [Spread.misfit?, notObject, Yield.skip]
  | mediaTypes =>
    cases v with
    | obj ms => simp [Spread.misfit?, notObject, mem_mediaSchemas_items]
    | _ => simp [Spread.misfit?, notObject, Yield.skip]

theorem mem_slot_items {slot : Slot} {location : String} {ms : List (String × Json)} {i : Item} :
    i ∈ (slot.yield location ms).items ↔
      ∃ v, Json.lookup slot.key ms = some v ∧
        i ∈ (slot.spread.at slot.role (below location slot.key) v).items := by
  unfold Slot.yield
  cases Json.lookup slot.key ms <;> simp [Yield.nothing]

theorem mem_spreadSlots_items {location : String} {ms : List (String × Json)} {slots : List Slot}
    {i : Item} :
    i ∈ (spreadSlots location ms slots).items ↔
      ∃ slot ∈ slots, i ∈ (slot.yield location ms).items := by
  induction slots with
  | nil => simp [spreadSlots, Yield.nothing]
  | cons slot slots ih =>
    rw [spreadSlots, Yield.items_append, List.mem_append, ih, List.exists_mem_cons_iff]

/-! ## The slots of a role -/

/-- The slots of an object in its role, when `refs` were gone through. -/
def Role.slots (role : Role) (refs : List String) : List Slot :=
  match role with
  | .definitions | .paths => []
  | .pathItem _ => [parametersSlot]
  | .operation _ _ => operationSlots
  | .parameter => parameterSlots refs
  | .requestBody => requestBodySlots refs
  | .response => responseSlots refs
  | .schema depth _ => schemaSlots (depth + 1) refs

/-- A slot that says of its value what the place of the value says. -/
def Slot.Apt (slot : Slot) (p : Place) : Prop :=
  ∀ q, (slot.key, q) ∈ p.members → q.between = true → slot.spread.misfit? = q.misfit?

theorem Role.slots_sound {role : Role} {refs : List String} (h : role.refers = false → refs = []) :
    ∀ slot ∈ role.slots refs, slot.Sound role.place refs := by
  cases role with
  | definitions | paths => exact List.forall_mem_nil _
  | pathItem => exact List.forall_mem_singleton.2 (parametersSlot_sound (p := .pathItem) (by decide) rfl)
  | operation =>
    obtain rfl := h rfl
    exact operationSlots_sound
  | parameter => exact parameterSlots_sound refs
  | requestBody => exact requestBodySlots_sound refs
  | response => exact responseSlots_sound refs
  | schema depth => exact schemaSlots_sound (depth + 1) refs

section Apt

variable {p : Place} {key : String} {spread : Spread} {role : Role}

/-- The slot of a member has to have the words of the member's place, if no task is made for
the value. -/
theorem Slot.Apt.of_member (q : Place) (hmember : (key, q) ∈ p.members)
    (hwords : q.between = true → spread.misfit? = q.misfit?) : Slot.Apt ⟨key, spread, role⟩ p := by
  intro r hr hbetween
  cases Place.members_unique hmember hr
  exact hwords hbetween

/-- If a task is made for the value, then it is the task that has words. -/
theorem Slot.Apt.of_task (q : Place) (hmember : (key, q) ∈ p.members)
    (hbetween : q.between = false) : Slot.Apt ⟨key, spread, role⟩ p :=
  .of_member q hmember fun h => Bool.noConfusion (hbetween.symm.trans h)

theorem Slot.Apt.of_no_member (h : ∀ m ∈ p.members, m.1 ≠ key) : Slot.Apt ⟨key, spread, role⟩ p :=
  fun _ hq => absurd rfl (h _ hq)

end Apt

theorem parametersSlot_apt {p : Place} (hmember : ("parameters", .parameters) ∈ p.members) :
    parametersSlot.Apt p :=
  .of_member .parameters hmember fun _ => rfl

theorem operationSlots_apt : ∀ slot ∈ operationSlots, slot.Apt .operation := by
  simp only [operationSlots, List.forall_mem_cons]
  exact ⟨parametersSlot_apt (by decide), .of_task .requestBody (by decide) rfl,
    .of_member .responses (by decide) fun _ => rfl, List.forall_mem_nil _⟩

theorem parameterSlots_apt (refs : List String) :
    ∀ slot ∈ parameterSlots refs, slot.Apt .parameter := by
  simp only [parameterSlots, List.forall_mem_cons]
  exact ⟨.of_task .schema (by decide) rfl, .of_task .schema (by decide) rfl,
    .of_member .content (by decide) fun _ => rfl, List.forall_mem_nil _⟩

theorem requestBodySlots_apt (refs : List String) :
    ∀ slot ∈ requestBodySlots refs, slot.Apt .requestBody := by
  simp only [requestBodySlots, List.forall_mem_cons]
  exact ⟨.of_member .content (by decide) fun _ => rfl, List.forall_mem_nil _⟩

theorem responseSlots_apt (refs : List String) :
    ∀ slot ∈ responseSlots refs, slot.Apt .response := by
  simp only [responseSlots, List.forall_mem_cons]
  exact ⟨.of_member .content (by decide) fun _ => rfl,
    .of_task .schema (by decide) rfl, List.forall_mem_nil _⟩

/-- Items and additional properties depend on their values and are no members. -/
theorem schemaSlots_apt (depth : Nat) (refs : List String) :
    ∀ slot ∈ schemaSlots depth refs, slot.Apt .schema := by
  simp only [schemaSlots, List.forall_mem_cons]
  exact ⟨.of_member .properties (by decide) fun _ => rfl, .of_no_member (by decide),
    .of_member .branches (by decide) fun _ => rfl,
    .of_member .branches (by decide) fun _ => rfl,
    .of_member .branches (by decide) fun _ => rfl, .of_task .schema (by decide) rfl,
    .of_no_member (by decide), List.forall_mem_nil _⟩

/-- The slots of a role have the words of their places. -/
theorem Role.slots_apt (role : Role) (refs : List String) :
    ∀ slot ∈ role.slots refs, slot.Apt role.place := by
  cases role with
  | definitions | paths => exact List.forall_mem_nil _
  | pathItem => exact List.forall_mem_singleton.2 (parametersSlot_apt (p := .pathItem) (by decide))
  | operation => exact operationSlots_apt
  | parameter => exact parameterSlots_apt refs
  | requestBody => exact requestBodySlots_apt refs
  | response => exact responseSlots_apt refs
  | schema depth => exact schemaSlots_apt (depth + 1) refs

/-- Every member that a place leads on by has its slot, the headers of a response apart. -/
theorem Role.exists_slot {role : Role} {key : String} {q : Place}
    (h : (key, q) ∈ role.place.members) (hheaders : q ≠ .headers) (refs : List String) :
    ∃ slot ∈ role.slots refs, slot.key = key := by
  have hkeys : ∀ m ∈ role.place.members, m.2 ≠ .headers → m.1 ∈ (role.slots refs).map (·.key) := by
    cases role with
    | definitions | paths => exact List.forall_mem_nil _
    | _ => simp [Role.place, Place.members, Role.slots, parametersSlot, operationSlots, parameterSlots,
      requestBodySlots, responseSlots, schemaSlots]
  exact List.mem_map.1 (hkeys (key, q) h hheaders)

theorem Role.slots_items {role : Role} {location : String} {ms : List (String × Json)}
    {refs : List String} {i : Item} (h : i ∈ (spreadSlots location ms (role.slots refs)).items) :
    i ∈ (role.yield location ms refs).items := by
  cases role with
  | definitions | paths => exact absurd h List.not_mem_nil
  | pathItem => exact List.mem_append_left _ h
  | operation | parameter | schema => exact List.mem_append_right _ h
  | requestBody | response => exact h

/-- Only the slot of media types holds what leads to media types. -/
theorem Slot.Sound.mediaTypes_of_content {p : Place} {refs : List String} {slot : Slot}
    (h : slot.Sound p refs) (hcontent : (slot.key, .content) ∈ p.members) :
    slot.spread = .mediaTypes := by
  have hrole : ∀ role : Role, role.place ≠ .content := by
    intro role
    cases role <;> nofun
  have hentry : ∀ role : Role, role.place ≠ .mediaType := by
    intro role
    cases role <;> nofun
  cases h with
  | one q hmember hplace =>
    cases Place.members_unique hcontent hmember
    exact absurd hplace (hrole _)
  | oneObject => simp [Place.members] at hcontent
  | list q hmember helement =>
    cases Place.members_unique hcontent hmember
    cases helement
  | listOrOne => simp [Place.members] at hcontent
  | map q hmember _ hplace =>
    cases Place.members_unique hcontent hmember
    exact absurd (Option.some.inj hplace).symm (hentry _)
  | mediaTypes => rfl

/-! ## What is malformed is said -/

section Said

variable {w : Walker} {segs : List String} {p q : Place} {v : Json} {refs : List String}

/-- What a covered object yields in its role is found. -/
theorem Covered.yield_mem_run (hunlimited : Unlimited w) {ms : List (String × Json)}
    (h : Covered w segs p (.obj ms) refs) (hreads : p.Reads (.obj ms)) (hplace : p.between = false)
    (hheader : p ≠ .header) :
    ∃ role : Role, role.place = p ∧ (role.refers = false → refs = []) ∧
      ∀ i ∈ (role.yield (locate segs) ms refs).items, i ∈ run w := by
  cases h with
  | @task n m t _ _ _ hread hlocation hlands =>
    obtain ⟨hstep, hrefs⟩ := readObject_of_lands hunlimited hread hlands hreads
    refine ⟨t.role, rfl, hrefs, fun i hi => mem_run_of_mem_items hread ?_⟩
    rw [hstep, hlocation]
    exact List.mem_append_left _ hi
  | header => exact absurd rfl hheader
  | between hbetween =>
    rw [hplace] at hbetween
    cases hbetween

/-- What the slot of a member says is found. -/
theorem Covered.slot_mem_run (hunlimited : Unlimited w) (h : Covered w segs p v refs)
    (hreads : p.Reads v) (hplace : p.between = false) {key : String} {below : Json}
    (hmember : (key, q) ∈ p.members) (hbetween : q.between = true) (hheaders : q ≠ .headers)
    (hbelow : v.get? key = some below) :
    ∃ slot : Slot, slot.Sound p refs ∧ slot.key = key ∧ slot.spread.misfit? = q.misfit? ∧
      ∀ i ∈ (slot.spread.at slot.role (locate (segs ++ [key])) below).items, i ∈ run w := by
  obtain ⟨ms, rfl⟩ := obj_of_get? hbelow
  have hheader : p ≠ .header := by
    rintro rfl
    cases List.mem_singleton.1 hmember
    cases hbetween
  obtain ⟨role, rfl, hrefs, hitems⟩ := h.yield_mem_run hunlimited hreads hplace hheader
  obtain ⟨slot, hslot, rfl⟩ := Role.exists_slot hmember hheaders refs
  have hsound := Role.slots_sound hrefs slot hslot
  refine ⟨slot, hsound, rfl, Role.slots_apt role refs slot hslot q hmember hbetween, ?_⟩
  intro i hi
  rw [← locate_below hsound.escape_key] at hi
  refine hitems i (Role.slots_items (mem_spreadSlots_items.2 ⟨slot, hslot, ?_⟩))
  exact mem_slot_items.2 ⟨below, hbelow, hi⟩

/-- A step to a place that no task is made for goes along a member, or to a media type. -/
theorem Child.to_between {key : String} {below : Json} {why : Skip} (h : Child p v key q below)
    (hbetween : q.between = true) (hwhy : q.misfit? below = some why) :
    (key, q) ∈ p.members ∧ v.get? key = some below ∨
      p = .content ∧ q = .mediaType ∧ ∃ ms, v = .obj ms ∧ (key, below) ∈ ms := by
  cases h with
  | member hmember hv => exact .inl ⟨hmember, hv⟩
  | tuple => cases hwhy
  | items => cases hbetween
  | additional => cases hbetween
  | method => cases hbetween
  | entry hentry hmem =>
    refine .inr ?_
    cases p <;> cases hentry <;> first | exact ⟨rfl, rfl, _, rfl, hmem⟩ | cases hbetween
  | element helement => cases p <;> cases helement <;> cases hbetween

/-- Media types are below members. -/
theorem Child.to_content {key : String} {below : Json} (h : Child p v key .content below) :
    (key, .content) ∈ p.members ∧ v.get? key = some below := by
  cases h with
  | member hmember hv => exact ⟨hmember, hv⟩
  | entry hentry => cases p <;> cases hentry
  | element helement => cases p <;> cases helement

/-- Of the places that no task is made for, only the components lead on to another one. -/
theorem Place.between_of_member {key : String} (h : (key, q) ∈ p.members)
    (hbetween : q.between = true) (hcomponents : q ≠ .components) : p.between = false := by
  have hall : ∀ m ∈ p.members, m.2.between = true → m.2 ≠ .components → p.between = false := by
    cases p <;> decide
  exact hall (key, q) h hbetween hcomponents

/-- A misfit on the way to tasks is found in the step of the task above. -/
theorem Trail.misfit_between_mem_run (hunlimited : Unlimited w) (h : Trail w segs q v refs)
    (hbetween : q.between = true) {why : Skip} (hwhy : q.misfit? v = some why) :
    .skipped (locate segs) why ∈ run w := by
  have hcomponents : q ≠ .components := by
    rintro rfl
    cases hwhy
  have hheaders : q ≠ .headers := by
    rintro rfl
    cases hwhy
  cases h with
  | root => cases hwhy
  | hop _ hrefers =>
    rw [Place.refers_of_between hbetween] at hrefers
    cases hrefers
  | child habove hreads hchild =>
    rcases hchild.to_between hbetween hwhy with ⟨hmember, hget⟩ | ⟨rfl, rfl, ms, rfl, hmem⟩
    · have hplace := Place.between_of_member hmember hbetween hcomponents
      obtain ⟨slot, -, -, hwords, hitems⟩ := (habove.covered hunlimited).slot_mem_run hunlimited
        hreads hplace hmember hbetween hheaders hget
      exact hitems _ (mem_spread_items.2 (.inl ⟨why, hwords ▸ hwhy, rfl⟩))
    · -- a media type is checked where its map is
      cases habove with
      | hop _ hrefers => cases hrefers
      | child habove hreads hchild =>
        obtain ⟨hmember, hget⟩ := hchild.to_content
        have hplace := Place.between_of_member hmember rfl (by decide)
        obtain ⟨slot, hsound, rfl, -, hitems⟩ := (habove.covered hunlimited).slot_mem_run
          hunlimited hreads hplace hmember rfl (by decide) hget
        have hspread := hsound.mediaTypes_of_content hmember
        have hsaid := hitems _ (mem_spread_items.2 (.inr ⟨hspread, ms, rfl, _, hmem, why, hwhy, rfl⟩))
        rw [← locate_append] at hsaid
        exact hsaid

/-- What a landing yields that is no object. -/
theorem arrive_of_not_obj (w : Walker) (role : Role) (location : String) {v : Json}
    (hv : ∀ ms, v ≠ .obj ms) (refs : List String) (n : Nat) :
    Landing.arrive w role location (.ok (v, refs), n)
      = (Yield.skip location (role.misfit v)).keeping n := by
  cases v with
  | obj ms => exact absurd rfl (hv ms)
  | _ => rfl

/-- A misfit at the end of a task's references is found in its step. -/
theorem misfit_mem_run_of_lands (hunlimited : Unlimited w) {n m : Nat} {t : Task}
    (hread : (n, t) ∈ (visit w).readings) (hlands : landing w n t = (.ok (v, refs), m))
    {why : Skip} (hwhy : t.role.place.misfit? v = some why)
    (hbool : t.role.place = .schema → ∀ b, t.node ≠ .bool b) : .skipped t.location why ∈ run w := by
  rw [Role.misfit?_place, notObject_eq_some] at hwhy
  obtain ⟨hv, rfl⟩ := hwhy
  cases hbarred : barred? w t with
  | some y =>
    rcases barred?_eq_some hbarred with ⟨_, _, _, _, rfl⟩ | ⟨_, _, b, hrole, hnode, rfl⟩
    · -- schemas that are nested too deep are a limit
      have hitem : .skipped t.location (.tooDeep w.limits.maxDepth) ∈ (expand w n t).items := by
        rw [expand, hbarred]
        exact List.mem_singleton_self _
      have hnone := hunlimited _ (mem_run_of_mem_items hread hitem)
      cases hnone
    · exact absurd hnode (hbool (by rw [hrole]; rfl) b)
  | none =>
    refine mem_run_of_mem_items hread ?_
    rw [expand, hbarred]
    simp only [hlands, arrive_of_not_obj w t.role t.location hv]
    exact List.mem_singleton_self _

/-- **What is malformed is said.** -/
theorem Malformed.mem_run (hunlimited : Unlimited w) {why : Skip} (h : Malformed w segs why) :
    .skipped (locate segs) why ∈ run w := by
  cases h with
  | @misfit p v refs _ htrail hreads hwhy hbool =>
    cases htrail.covered hunlimited with
    | @task n m t _ _ _ hread hlocation hlands hstart =>
      rw [lands_of_reads w m refs hreads] at hlands
      rw [← hlocation]
      refine misfit_mem_run_of_lands hunlimited hread hlands hwhy fun hplace b hnode => ?_
      -- what is written is no reference here, so it is the misfit itself
      rcases hstart with rfl | hreference
      · exact hbool hplace b hnode
      · rw [hnode] at hreference
        cases hreference
    | header => cases hwhy
    | between hplace => exact htrail.misfit_between_mem_run hunlimited hplace hwhy
  | @referred v refs target b htrail htarget hnew hnext =>
    generalize hplace : Place.schema = p at htrail
    cases htrail.covered hunlimited with
    | @task n m t _ _ _ hread hlocation hlands hstart =>
      have hrefers : t.role.refers = true := by rw [← Role.refers_place, ← hplace]; rfl
      rw [Role.lands, if_pos hrefers] at hlands
      obtain ⟨-, hfollows⟩ := landing_of_new hunlimited hread hlands htarget hnew hnext
      rw [follow_of_none rfl] at hfollows
      rw [← hlocation]
      have hwhy : t.role.place.misfit? (.bool b) = some (.notASchema (.bool b)) := by
        rw [← hplace]
        rfl
      refine misfit_mem_run_of_lands hunlimited hread hfollows hwhy fun _ b' hnode => ?_
      -- what is written is a reference here
      rcases hstart with rfl | hreference
      · rw [hnode] at htarget
        cases htarget
      · rw [hnode] at hreference
        cases hreference
    | header => cases hplace
    | between hbetween =>
      subst hplace
      cases hbetween
  | @pattern p v x refs htrail hreads hbears hx htext =>
    refine (htrail.covered hunlimited).patternAt_mem_run hunlimited hreads hbears ?_
    rw [hx]
    cases x with
    | str s => exact absurd rfl (htext s)
    | _ => exact List.mem_singleton_self _

end Said

/-! ## Nothing else is said -/

/-- An item that was found at the end of a trail, where what stands there is no schema that is
`true` or `false`; and if it is the diagnostic of a value, it says what is malformed there. -/
structure Item.Explained (w : Walker) (i : Item) : Prop where
  placed : ∃ segs p v refs, i.location = locate segs ∧ Trail w segs p v refs ∧
    (p = .schema → ∀ b, v ≠ .bool b)
  malformed : ∀ location why, i = .skipped location why → why.isMisfit = true →
    ∃ segs, location = locate segs ∧ Malformed w segs why

section Explained

variable {w : Walker} {segs : List String} {p q : Place} {v : Json} {refs : List String}

/-- What is no diagnostic of a value is explained by where it was found. -/
theorem Item.Explained.of_quiet {i : Item} (h : Trail w segs p v refs)
    (hbool : p = .schema → ∀ b, v ≠ .bool b) (hlocation : i.location = locate segs)
    (hquiet : i.isMisfit = false) : i.Explained w where
  placed := ⟨segs, p, v, refs, hlocation, h, hbool⟩
  malformed := by
    rintro location why rfl hmisfit
    rw [Item.isMisfit, hmisfit] at hquiet
    cases hquiet

/-- The diagnostic of a value is explained by what is malformed. -/
theorem Malformed.explained {why : Skip} (hwhy : Malformed w segs why)
    (h : Trail w segs p v refs) (hbool : p = .schema → ∀ b, v ≠ .bool b) :
    Item.Explained w (.skipped (locate segs) why) where
  placed := ⟨segs, p, v, refs, rfl, h, hbool⟩
  malformed := by
    rintro location why' heq -
    cases heq
    exact ⟨segs, rfl, hwhy⟩

/-- A misfit at a place for which no task is made. -/
theorem Trail.misfit_explained {why : Skip} (h : Trail w segs q v refs) (hplace : q.refers = false)
    (hwhy : q.misfit? v = some why) : Item.Explained w (.skipped (locate segs) why) := by
  have hschema : q ≠ .schema := by
    rintro rfl
    cases hplace
  have hbool : q = .schema → ∀ b, v ≠ .bool b := fun heq => absurd heq hschema
  exact (Malformed.misfit h (Place.reads_of_not_refers hplace v) hwhy hbool).explained h hbool

theorem patternAt_explained (h : Trail w segs p v refs) (hreads : p.Reads v)
    (hbears : p.bearsPattern = true) {i : Item} (hi : i ∈ patternAt (locate segs) (v.get? "pattern")) :
    i.Explained w := by
  cases hx : v.get? "pattern" with
  | none =>
    rw [hx] at hi
    cases hi
  | some x =>
    obtain ⟨ms, rfl⟩ := obj_of_get? hx
    have hbool : p = .schema → ∀ b, Json.obj ms ≠ .bool b := fun _ _ => nofun
    rw [hx] at hi
    by_cases htext : ∃ s, x = .str s
    · obtain ⟨s, rfl⟩ := htext
      rw [List.mem_singleton.1 hi]
      exact .of_quiet h hbool rfl rfl
    · have htext : ∀ s, x ≠ .str s := not_exists.1 htext
      have hsaid : i = .skipped (locate segs) .patternNotString := by
        cases x with
        | str s => exact absurd rfl (htext s)
        | _ => exact List.mem_singleton.1 hi
      rw [hsaid]
      exact (Malformed.pattern h hreads hbears hx htext).explained h hbool

/-- The member that a slot speaks of. -/
theorem Slot.Sound.exists_place {slot : Slot} (h : slot.Sound p refs) {below : Json} {i : Item}
    {location : String} (hi : i ∈ (slot.spread.at slot.role location below).items) :
    ∃ q, (slot.key, q) ∈ p.members ∧ q.between = true := by
  rcases mem_spread_items.1 hi with ⟨why, hwhy, -⟩ | ⟨hspread, -⟩
  · cases h with
    | one | oneObject | listOrOne => cases hwhy
    | list q hmember helement => exact ⟨q, hmember, Place.between_of_element helement⟩
    | map q hmember hbetween => exact ⟨q, hmember, hbetween⟩
    | mediaTypes hmember => exact ⟨.content, hmember, rfl⟩
  · cases h with
    | mediaTypes hmember => exact ⟨.content, hmember, rfl⟩
    | _ => cases hspread

/-- What a slot says of an object on a trail is explained. -/
theorem slot_explained {ms : List (String × Json)} (h : Trail w segs p (.obj ms) refs)
    (hreads : p.Reads (.obj ms)) {slot : Slot} (hsound : slot.Sound p refs) (hapt : slot.Apt p)
    {i : Item} (hi : i ∈ (slot.yield (locate segs) ms).items) : i.Explained w := by
  obtain ⟨below, hbelow, hi⟩ := mem_slot_items.1 hi
  rw [locate_below hsound.escape_key] at hi
  obtain ⟨q, hmember, hbetween⟩ := hsound.exists_place hi
  have hrefers := Place.refers_of_between hbetween
  have htrail := h.child hreads (.member hmember hbelow)
  rcases mem_spread_items.1 hi with ⟨why, hwhy, rfl⟩ | ⟨hspread, ms', rfl, m, hmem, why, hwhy, rfl⟩
  · rw [hapt q hmember hbetween] at hwhy
    exact htrail.misfit_explained hrefers hwhy
  · -- only the slot of media types speaks of what is further down
    have hcontent : q = .content := by
      cases hsound with
      | mediaTypes hmember' => exact Place.members_unique hmember hmember'
      | _ => cases hspread
    subst hcontent
    have hmedia := htrail.child (Place.reads_of_not_refers rfl _)
      (.entry_of_ne rfl hmem (by decide))
    rw [← locate_append]
    exact hmedia.misfit_explained rfl hwhy

/-- What an object yields in its role is explained, its headers apart. -/
theorem yield_explained {role : Role} {ms : List (String × Json)}
    (h : Trail w segs role.place (.obj ms) refs) (hreads : role.place.Reads (.obj ms))
    (hrefs : role.refers = false → refs = []) {i : Item}
    (hi : i ∈ (role.yield (locate segs) ms refs).items) : i.Explained w := by
  have hbool : role.place = .schema → ∀ b, Json.obj ms ≠ .bool b := fun _ _ => nofun
  have hslots : i ∈ (spreadSlots (locate segs) ms (role.slots refs)).items → i.Explained w := by
    intro hi
    obtain ⟨slot, hslot, hi⟩ := mem_spreadSlots_items.1 hi
    exact slot_explained h hreads (Role.slots_sound hrefs slot hslot)
      (Role.slots_apt role refs slot hslot) hi
  have hown : role.place.bearsPattern = true →
      i ∈ patternAt (locate segs) (Json.lookup "pattern" ms) → i.Explained w :=
    fun hbears hi => patternAt_explained h hreads hbears hi
  cases role with
  | definitions =>
    obtain ⟨⟨name, v⟩, hmem, hi⟩ := List.mem_flatMap.1 hi
    cases v with
    | obj members =>
      have hschema := h.child hreads (.entry_of_ne rfl hmem (by decide))
      rw [List.mem_singleton.1 hi]
      exact .of_quiet hschema (fun _ _ => nofun) (locate_append segs name).symm rfl
    | _ => exact absurd hi List.not_mem_nil
  | paths =>
    obtain ⟨⟨key, v⟩, hmem, rfl⟩ := List.mem_map.1 hi
    obtain ⟨hmem, hext⟩ := List.mem_filter.1 hmem
    have hitem := h.child hreads (.entry rfl hmem fun _ => by simpa using hext)
    exact .of_quiet hitem nofun (locate_append segs key).symm rfl
  | pathItem =>
    rcases List.mem_append.1 hi with hi | hi
    · exact hslots hi
    · exact absurd hi List.not_mem_nil
  | operation =>
    rcases List.mem_append.1 hi with hi | hi
    · rw [List.mem_singleton.1 hi]
      exact .of_quiet h hbool rfl rfl
    · exact hslots hi
  | parameter | schema =>
    rcases List.mem_append.1 hi with hi | hi
    · exact hown rfl hi
    · exact hslots hi
  | requestBody | response => exact hslots hi

/-- What a header on a trail yields is explained. -/
theorem headerYield_explained {header : Json} (h : Trail w segs .header header refs) (n : Nat)
    {i : Item} (hi : i ∈ (headerYield (locate segs) (follow w n header refs).1).items) :
    i.Explained w := by
  rcases hfollow : follow w n header refs with ⟨result, m⟩
  rw [hfollow] at hi
  cases result with
  | error why =>
    have hquiet : why.isMisfit = false := isMisfit_of_follow (congrArg Prod.fst hfollow)
    rw [List.mem_singleton.1 hi]
    exact .of_quiet h nofun rfl hquiet
  | ok landed =>
    obtain ⟨hnode, hreads⟩ := h.follow rfl hfollow
    exact patternAt_explained hnode hreads rfl hi

theorem headers_explained {hs : List (String × Json)}
    (hheaders : ∀ m ∈ hs, Trail w (segs ++ [m.1]) .header m.2 refs) (n : Nat) {i : Item}
    (hi : i ∈ (headers w (locate segs) refs n hs).items) : i.Explained w := by
  induction hs generalizing n with
  | nil => cases hi
  | cons m hs ih =>
    rcases List.mem_append.1 hi with hi | hi
    · rw [← locate_append] at hi
      exact headerYield_explained (hheaders m (List.mem_cons_self ..)) n hi
    · exact ih (fun m' hm' => hheaders m' (List.mem_cons_of_mem _ hm')) _ hi

/-- What an object on a trail yields is explained. -/
theorem readObject_explained {role : Role} {ms : List (String × Json)} (n : Nat)
    (h : Trail w segs role.place (.obj ms) refs) (hreads : role.place.Reads (.obj ms))
    (hrefs : role.refers = false → refs = []) {i : Item}
    (hi : i ∈ (readObject w role (locate segs) ms refs n).items) : i.Explained w := by
  rcases List.mem_append.1 hi with hi | hi
  · exact yield_explained h hreads hrefs hi
  · unfold Role.headers at hi
    split at hi
    · rename_i hs hlookup _
      have hmap : Trail w (segs ++ ["headers"]) .headers (.obj hs) refs :=
        h.child hreads (.member (q := .headers) (by decide) hlookup)
      rw [locate_below (by decide)] at hi
      refine headers_explained (fun m hm => ?_) n hi
      exact hmap.child (Place.reads_of_not_refers rfl _) (.entry_of_ne rfl hm (by decide))
    · cases hi

/-- A schema that is gone into is not `true` or `false`. -/
theorem not_bool_of_not_barred {t : Task} (h : barred? w t = none) :
    t.role.place = .schema → ∀ b, t.node ≠ .bool b := by
  intro hplace b hnode
  cases hrole : t.role with
  | schema depth rs =>
    rw [barred?, hrole] at h
    simp only [hnode] at h
    split at h <;> cases h
  | _ =>
    rw [hrole] at hplace
    cases hplace

/-- What stops the references of a task is not about a value. -/
theorem isMisfit_of_landing {n m : Nat} {t : Task} {why : Skip}
    (h : landing w n t = (.error why, m)) : why.isMisfit = false := by
  unfold landing at h
  split at h
  · exact isMisfit_of_follow (congrArg Prod.fst h)
  · cases h

/-- What a task's references lead to, where that is a misfit. -/
theorem malformed_of_landing {n m : Nat} {t : Task}
    (h : Trail w segs t.role.place t.node t.role.refs) (hbarred : barred? w t = none)
    (hlanding : landing w n t = (.ok (v, refs), m)) (hv : ∀ ms, v ≠ .obj ms) :
    Malformed w segs (t.role.misfit v) := by
  obtain ⟨hnode, hreads, -⟩ := landing_onTrail h hlanding
  have hwhy : t.role.place.misfit? v = some (t.role.misfit v) := by
    rw [Role.misfit?_place, notObject_eq_some]
    exact ⟨hv, rfl⟩
  by_cases hbool : t.role.place = .schema ∧ ∃ b, v = .bool b
  · obtain ⟨hplace, b, rfl⟩ := hbool
    have hrefers : t.role.refers = true := by rw [← Role.refers_place, hplace]; rfl
    rw [landing, if_pos hrefers] at hlanding
    rw [hplace] at h hwhy
    rw [← Option.some.inj hwhy]
    rcases h.last_hop rfl hlanding with hsame | ⟨u, refs', target, hu, htarget, hnew, hnext⟩
    · exact absurd hsame.symm (not_bool_of_not_barred hbarred hplace b)
    · exact .referred hu htarget hnew hnext
  · exact .misfit hnode hreads hwhy fun hplace b heq => hbool ⟨hplace, b, heq⟩

/-- **A step says what is malformed, and nothing else.** -/
theorem expand_explained (n : Nat) {t : Task} (h : t.OnTrail w) {i : Item}
    (hi : i ∈ (expand w n t).items) (hlimit : i.isLimit = false) : i.Explained w := by
  obtain ⟨segs, hlocation, htrail⟩ := h
  unfold expand at hi
  split at hi
  · rename_i y hbarred
    rcases barred?_eq_some hbarred with ⟨_, _, _, _, rfl⟩ | ⟨_, _, _, _, _, rfl⟩
    · rw [List.mem_singleton.1 hi] at hlimit
      cases hlimit
    · cases hi
  · rename_i hbarred
    have hbool := not_bool_of_not_barred hbarred
    rw [hlocation] at hi
    rcases hlanding : landing w n t with ⟨result, m⟩
    rw [hlanding] at hi
    cases result with
    | error why =>
      rw [List.mem_singleton.1 hi]
      exact .of_quiet htrail hbool rfl (isMisfit_of_landing hlanding)
    | ok landed =>
      obtain ⟨v, refs⟩ := landed
      by_cases hv : ∃ ms, v = .obj ms
      · obtain ⟨ms, rfl⟩ := hv
        obtain ⟨hnode, hreads, hrefs⟩ := landing_onTrail htrail hlanding
        exact readObject_explained m hnode hreads hrefs hi
      · have hv : ∀ ms, v ≠ .obj ms := not_exists.1 hv
        rw [arrive_of_not_obj w t.role (locate segs) hv] at hi
        rw [List.mem_singleton.1 hi]
        exact (malformed_of_landing htrail hbarred hlanding hv).explained htrail hbool

/-- What a walk comes upon is explained, limits apart. -/
theorem Item.explained_of_mem_run {i : Item} (hi : i ∈ run w) (hlimit : i.isLimit = false) :
    i.Explained w := by
  rw [run_eq_visit, visit, visitNodes_items] at hi
  obtain ⟨⟨n, t⟩, hread, hi⟩ := List.mem_flatMap.1 hi
  exact expand_explained n (readings_onTrail w (n, t) hread) hi hlimit

end Explained

end PatternAudit.Walk
