/-
What a walk comes to.

All that a walk finds is on trails (`expand_keeps`). Here is the converse: a walk that
meets none of its limits (`Unlimited`) comes to the end of every trail
(`Trail.covered`), and finds the pattern there (`Covered.pattern_mem_run`).

`Covered` is the invariant along a trail. A node is covered if some step of the walk
comes to it: as the node of a task or through the task's references, as a header, or on
the way down to the tasks below. Each hop and each step down of a trail keeps to covered
nodes, because all that could stop a walk there is a limit.
-/
import PatternAudit.Proofs.Walk.Located

set_option autoImplicit false

namespace PatternAudit.Walk

/-! ## Limits -/

/-- Whether a place was not entered because of a limit. -/
def Skip.isLimit : Skip → Bool
  | .chainTooLong _ | .budgetSpent _ _ | .tooDeep _ => true
  | _ => false

/-- Whether an item is the diagnostic of a limit. -/
def Item.isLimit : Item → Bool
  | .skipped _ why => why.isLimit
  | _ => false

/-- A walk that meets none of its limits. -/
def Unlimited (w : Walker) : Prop := ∀ i ∈ run w, i.isLimit = false

/-- Whether a walk is unlimited shows when it has ended. -/
theorem unlimited_of_test {w : Walker} (n : Nat)
    (h : (endsWith w n fun items => items.all fun i => !i.isLimit) = true) : Unlimited w := by
  have htest := forall_run_of_test n h
  intro i hi
  simpa using htest i hi

/-- A reference that names a node and is new on the descent is followed, unless a limit
is met. -/
theorem hop_of_new {w : Walker} {refs : List String} {target : String} {next : Json} (n : Nat)
    (hnew : target ∉ refs) (hnext : Pointer.resolveRef? w.root target = some next) :
    (∃ why, hop w n refs target = .error why ∧ why.isLimit = true) ∨
      (hop w n refs target = .ok next ∧ refs.length < w.limits.maxDepth) := by
  by_cases hlen : refs.length < w.limits.maxDepth
  · by_cases hleft : n < w.limits.budget
    · exact Or.inr ⟨hop_eq_ok_iff.2 ⟨hnew, hlen, hleft, hnext⟩, hlen⟩
    · refine Or.inl ⟨.budgetSpent w.limits.budget target, ?_, rfl⟩
      rw [hop, if_neg hnew, if_neg (Nat.not_le_of_lt hlen), if_pos (Nat.le_of_not_lt hleft)]
  · refine Or.inl ⟨.chainTooLong w.limits.maxDepth, ?_, rfl⟩
    rw [hop, if_neg hnew, if_pos (Nat.le_of_not_lt hlen)]

/-! ## Readings -/

/-- A task that a walk reads. -/
def IsRead (w : Walker) (t : Task) : Prop := ∃ n, (n, t) ∈ (visit w).readings

theorem mem_run_of_mem_items {w : Walker} {n : Nat} {t : Task} {i : Item}
    (hread : (n, t) ∈ (visit w).readings) (hi : i ∈ (expand w n t).items) : i ∈ run w := by
  rw [run_eq_visit, visit, visitNodes_items]
  exact List.mem_flatMap.2 ⟨(n, t), hread, hi⟩

/-- Where a node at some point of a task's step leads, after the references `refs`. -/
def Role.lands (w : Walker) (role : Role) (n : Nat) (v : Json) (refs : List String) : Landing :=
  if role.refers then follow w n v refs else (.ok (v, refs), n)

theorem landing_eq_lands (w : Walker) (n : Nat) (t : Task) :
    landing w n t = t.role.lands w n t.node t.role.refs := by
  unfold landing Role.lands
  by_cases hrefers : t.role.refers = true
  · rw [if_pos hrefers, if_pos hrefers]
  · rw [if_neg hrefers, if_neg hrefers, Role.refs_of_not_refers (Bool.eq_false_iff.2 hrefers)]

/-- A node that is read at its place is where the step ends. -/
theorem lands_of_reads (w : Walker) {role : Role} (n : Nat) {v : Json} (refs : List String)
    (h : role.place.Reads v) : role.lands w n v refs = (.ok (v, refs), n) := by
  unfold Role.lands
  by_cases hrefers : role.refers = true
  · rw [if_pos hrefers]
    exact follow_of_none (h ((Role.refers_place role).trans hrefers))
  · rw [if_neg hrefers]

section Unlimited

variable {w : Walker} {n m : Nat} {t : Task} {refs : List String}

/-- What an unlimited walk does not go into is `true` or `false`. -/
theorem node_of_barred (hunlimited : Unlimited w) (hread : (n, t) ∈ (visit w).readings)
    {y : Yield} (hbarred : barred? w t = some y) :
    ∃ b, landing w n t = (.ok (.bool b, t.role.refs), n) := by
  rcases barred?_eq_some hbarred with ⟨_, _, _, _, rfl⟩ | ⟨_, _, b, hrole, hnode, rfl⟩
  · have hitem : .skipped t.location (.tooDeep w.limits.maxDepth) ∈ (expand w n t).items := by
      rw [expand, hbarred]
      exact List.mem_singleton_self _
    have hnone := hunlimited _ (mem_run_of_mem_items hread hitem)
    cases hnone
  · refine ⟨b, ?_⟩
    rw [landing_eq_lands, hnode]
    exact lands_of_reads w n _ fun _ => rfl

/-- The object that a task's references lead to is read. -/
theorem expand_of_lands (hunlimited : Unlimited w) (hread : (n, t) ∈ (visit w).readings)
    {members : List (String × Json)} (hlands : landing w n t = (.ok (.obj members, refs), m)) :
    expand w n t = readObject w t.role t.location members refs m := by
  cases hbarred : barred? w t with
  | some y =>
    obtain ⟨b, hbool⟩ := node_of_barred hunlimited hread hbarred
    rw [hbool] at hlands
    cases hlands
  | none =>
    rw [expand, hbarred]
    simp only [hlands, Landing.arrive]

/-- No obstacle on the way to it is a limit. -/
theorem not_limit_of_landing (hunlimited : Unlimited w) (hread : (n, t) ∈ (visit w).readings)
    {why : Skip} (hlands : landing w n t = (.error why, m)) : why.isLimit = false := by
  cases hbarred : barred? w t with
  | some y =>
    obtain ⟨b, hbool⟩ := node_of_barred hunlimited hread hbarred
    rw [hbool] at hlands
    cases hlands
  | none =>
    have hitem : .skipped t.location why ∈ (expand w n t).items := by
      rw [expand, hbarred]
      simp only [hlands, Landing.arrive]
      exact List.mem_singleton_self _
    exact hunlimited _ (mem_run_of_mem_items hread hitem)

/-- A reference that is new on the descent is followed, where nothing but a limit could stop it. -/
theorem landing_of_new (hunlimited : Unlimited w) (hread : (n, t) ∈ (visit w).readings) {v : Json}
    (hlands : landing w n t = follow w m v refs) {target : String} {next : Json}
    (htarget : target? v = some target) (hnew : target ∉ refs)
    (hnext : Pointer.resolveRef? w.root target = some next) :
    refs.length < w.limits.maxDepth ∧ landing w n t = follow w (m + 1) next (target :: refs) := by
  rcases hop_of_new m hnew hnext with ⟨why, hobstacle, hlimit⟩ | ⟨hok, hbound⟩
  · rw [follow_of_error htarget hobstacle] at hlands
    have hnone := not_limit_of_landing hunlimited hread hlands
    rw [hlimit] at hnone
    cases hnone
  · rw [follow_of_ok htarget hok] at hlands
    exact ⟨hbound, hlands⟩

end Unlimited

/-! ## Covered nodes -/

/-- The nodes that a walk comes to, each with its keys and the references gone through. -/
inductive Covered (w : Walker) : List String → Place → Json → List String → Prop where
  /-- the node of a task, or one that its references lead to -/
  | task {n m : Nat} {t : Task} {segs : List String} {v : Json} {refs : List String}
      (hread : (n, t) ∈ (visit w).readings) (hlocation : t.location = locate segs)
      (hlands : landing w n t = t.role.lands w m v refs)
      (hstart : v = t.node ∨ (target? t.node).isSome = true) : Covered w segs t.role.place v refs
  /-- a header, or a node that its references lead to -/
  | header {n m : Nat} {segs : List String} {start v : Json} {rs refs : List String}
      (htasks : ∀ t ∈ (headerYield (locate segs) (follow w n start rs).1).tasks, IsRead w t)
      (hitems : ∀ i ∈ (headerYield (locate segs) (follow w n start rs).1).items, i ∈ run w)
      (hfollow : follow w n start rs = follow w m v refs) : Covered w segs .header v refs
  /-- a node that is gone through on the way to all that is below it -/
  | between {segs : List String} {p : Place} {v : Json} {refs : List String}
      (hplace : p.between = true)
      (hbelow : ∀ key q below, Child p v key q below → Covered w (segs ++ [key]) q below refs) :
      Covered w segs p v refs

section Slots

variable {w : Walker} {segs : List String} {p q : Place} {refs : List String} {role : Role}

theorem IsRead.covered {v : Json} (h : IsRead w ⟨role, v, locate segs⟩) :
    Covered w segs role.place v role.refs := by
  obtain ⟨n, hread⟩ := h
  exact .task hread rfl (landing_eq_lands w n _) (.inl rfl)

/-- A list is covered if its elements are read; what is no list has none. -/
theorem list_covered {v : Json} (hplace : p.element? = some role.place)
    (hread : ∀ vs, v = .arr vs → ∀ t ∈ itemTasks role (locate segs) 0 vs, IsRead w t) :
    Covered w segs p v role.refs := by
  refine .between (Place.between_of_element hplace) fun key q below hchild => ?_
  obtain ⟨rfl, vs, i, rfl, rfl, hi⟩ := hchild.of_element hplace
  have hitem := hread vs rfl _ (mem_itemTasks.2 ⟨i, below, hi, rfl⟩)
  rw [Nat.zero_add, locate_below (Pointer.escape_toString i)] at hitem
  exact hitem.covered

/-- A map is covered if its members are read; what is no map has none. -/
theorem map_covered {v : Json} (hplace : p.entry? = some role.place) (hbetween : p.between = true)
    (hread : ∀ ms, v = .obj ms → ∀ t ∈ memberTasks role (locate segs) ms, IsRead w t) :
    Covered w segs p v role.refs := by
  refine .between hbetween fun key q below hchild => ?_
  obtain ⟨rfl, ms, rfl, hmem, -⟩ := hchild.of_entry hplace
  have hmember := hread ms rfl _ (mem_memberTasks.2 ⟨key, below, hmem, rfl⟩)
  rw [← locate_append] at hmember
  exact hmember.covered

/-- A map of media types is covered if their schemas are read. -/
theorem content_covered {v : Json} (hplace : role.place = .schema)
    (hread : ∀ ms, v = .obj ms → ∀ t ∈ (mediaSchemas role (locate segs) ms).tasks, IsRead w t) :
    Covered w segs .content v role.refs := by
  refine .between rfl fun key q media hchild => ?_
  obtain ⟨rfl, ms, rfl, hmem, -⟩ := hchild.of_entry rfl
  refine .between rfl fun key' q schema hchild => ?_
  have hmember := hchild.mem_members rfl
  cases List.mem_singleton.1 hmember
  obtain ⟨-, hschema⟩ := hchild.of_member hmember
  have hmedia := hread ms rfl _ (mem_mediaSchemas_tasks.2 ⟨key, media, schema, hmem, hschema, rfl⟩)
  rw [← locate_append, locate_below (by decide)] at hmedia
  rw [← hplace]
  exact hmedia.covered

/-- What a sound slot leads to is covered if what it yields is read. -/
theorem Slot.Sound.covers {slot : Slot} (hslot : slot.Sound p refs) {ms : List (String × Json)}
    (hread : ∀ t ∈ (slot.yield (locate segs) ms).tasks, IsRead w t) {below : Json}
    (hchild : Child p (.obj ms) slot.key q below) :
    Covered w (segs ++ [slot.key]) q below (p.carry refs) := by
  have hspread : Json.lookup slot.key ms = some below →
      ∀ t ∈ (slot.spread.at slot.role (locate (segs ++ [slot.key])) below).tasks, IsRead w t := by
    intro hv t ht
    rw [← locate_below hslot.escape_key] at ht
    exact hread t (mem_slot_tasks.2 ⟨below, hv, ht⟩)
  rw [← hslot.refs_eq]
  -- the spread of the slot decides how far down the tasks are
  cases hslot with
  | one r hmember hplace =>
    obtain ⟨rfl, hget⟩ := hchild.of_member hmember
    rw [← hplace]
    exact (hspread hget _ (List.mem_singleton_self _)).covered
  | oneObject hplace =>
    rcases hchild.of_schema with hmember | ⟨hkey, -⟩ | ⟨-, hget, rfl, ms', rfl⟩
    · simp [Place.members] at hmember
    · have hother : "additionalProperties" ≠ "items" := by decide
      exact absurd hkey hother
    · rw [← hplace]
      exact (hspread hget _ (List.mem_singleton_self _)).covered
  | list r hmember helement =>
    obtain ⟨rfl, hget⟩ := hchild.of_member hmember
    refine list_covered helement ?_
    rintro vs rfl
    exact hspread hget
  | listOrOne hplace =>
    rcases hchild.of_schema with hmember | ⟨-, hget, ⟨rfl, vs, rfl⟩ | ⟨rfl, hone⟩⟩ | ⟨hkey, -⟩
    · simp [Place.members] at hmember
    · refine list_covered (congrArg some hplace.symm) ?_
      rintro vs' heq
      cases heq
      exact hspread hget
    · cases below with
      | arr vs => exact absurd rfl (hone vs)
      | _ =>
        rw [← hplace]
        exact (hspread hget _ (List.mem_singleton_self _)).covered
    · have hother : "items" ≠ "additionalProperties" := by decide
      exact absurd hkey hother
  | map r hmember hbetween hentry =>
    obtain ⟨rfl, hget⟩ := hchild.of_member hmember
    refine map_covered hentry hbetween ?_
    rintro ms' rfl
    exact hspread hget
  | mediaTypes hmember hplace =>
    obtain ⟨rfl, hget⟩ := hchild.of_member hmember
    refine content_covered hplace ?_
    rintro ms' rfl
    exact hspread hget

/-- What the slots of a table lead to is covered if what they yield is read. -/
theorem spreadSlots_covered {ms : List (String × Json)} {slots : List Slot}
    (hsound : ∀ slot ∈ slots, slot.Sound p refs)
    (hread : ∀ t ∈ (spreadSlots (locate segs) ms slots).tasks, IsRead w t) {key : String}
    {below : Json} (hkey : key ∈ slots.map (·.key)) (hchild : Child p (.obj ms) key q below) :
    Covered w (segs ++ [key]) q below (p.carry refs) := by
  obtain ⟨slot, hslot, rfl⟩ := List.mem_map.1 hkey
  refine (hsound slot hslot).covers (fun t ht => ?_) hchild
  obtain ⟨v, hv, ht⟩ := mem_slot_tasks.1 ht
  exact hread t (mem_spreadSlots_tasks.2 ⟨slot, hslot, v, hv, ht⟩)

end Slots

/-! ## Steps -/

/-- All that a path item leads to is covered if what it yields is read: its parameters, which
are a slot, and its operations, one for each way a method is spelled. -/
theorem pathItem_covered {w : Walker} {segs : List String} {template : String}
    {members : List (String × Json)} {refs : List String}
    (hread : ∀ t ∈ ((Role.pathItem template).yield (locate segs) members refs).tasks, IsRead w t)
    {key : String} {q : Place} {below : Json}
    (hchild : Child .pathItem (.obj members) key q below) :
    Covered w (segs ++ [key]) q below (Place.pathItem.carry refs) := by
  rw [Role.yield, Yield.tasks_append] at hread
  cases hchild with
  | member hmember hv =>
    have hsound : parametersSlot.Sound .pathItem refs := parametersSlot_sound (by decide) rfl
    have hkey : key ∈ [parametersSlot].map (·.key) := by
      cases List.mem_singleton.1 hmember
      exact List.mem_singleton_self _
    exact spreadSlots_covered (List.forall_mem_singleton.2 hsound)
      (fun t ht => hread t (List.mem_append_left _ ht)) hkey (.member hmember hv)
  | @method _ name _ _ hmem hmethod hspelled =>
    have htask : ⟨.operation template key, below, Walk.below (locate segs) key⟩
        ∈ operationTasks template (locate segs) members :=
      mem_operationTasks.2 ⟨name, below, key, hmem,
        methodOf?_eq_some_iff.2 ⟨hmethod, hspelled⟩, rfl⟩
    have hoperation := hread _ (List.mem_append_right _ htask)
    rw [locate_below (escape_method hmethod)] at hoperation
    exact hoperation.covered
  | entry hentry => cases hentry

/-- All that an object leads to is covered if what it yields is read, the headers of a
response apart. -/
theorem yield_covered {w : Walker} {segs : List String} {role : Role}
    {members : List (String × Json)} {refs : List String}
    (hrefs : role.refers = false → refs = [])
    (hread : ∀ t ∈ (role.yield (locate segs) members refs).tasks, IsRead w t) {key : String}
    {q : Place} {below : Json} (hchild : Child role.place (.obj members) key q below)
    (hheaders : q ≠ .headers) : Covered w (segs ++ [key]) q below (role.place.carry refs) := by
  cases role with
  | definitions =>
    obtain rfl := hrefs rfl
    obtain ⟨rfl, ms, heq, hmem, -⟩ := hchild.of_entry rfl
    cases heq
    have hmember := hread _ (mem_memberTasks.2 ⟨key, below, hmem, rfl⟩)
    rw [← locate_append] at hmember
    exact hmember.covered
  | paths =>
    obtain rfl := hrefs rfl
    obtain ⟨rfl, ms, heq, hmem, hpath⟩ := hchild.of_entry rfl
    cases heq
    -- the step down went to a path, so the walk has not passed it over
    have hkept : (!isExtension key) = true := by rw [hpath rfl]; rfl
    have hitem := hread _ (List.mem_map_of_mem (List.mem_filter.2 ⟨hmem, hkept⟩))
    rw [← locate_append] at hitem
    exact hitem.covered
  | pathItem template => exact pathItem_covered hread hchild
  | operation template method =>
    obtain rfl := hrefs rfl
    rw [Role.yield, Yield.tasks_own] at hread
    have hkeys : ∀ m ∈ Place.members .operation, m.1 ∈ operationSlots.map (·.key) := by decide
    have hmember := hchild.mem_members rfl
    exact spreadSlots_covered operationSlots_sound hread (hkeys _ hmember) hchild
  | parameter =>
    rw [Role.yield, Yield.tasks_own] at hread
    have hkeys : ∀ m ∈ Place.members .parameter, m.1 ∈ ["schema", "items", "content"] := by decide
    have hmember := hchild.mem_members rfl
    exact spreadSlots_covered (parameterSlots_sound refs) hread (hkeys _ hmember) hchild
  | requestBody =>
    rw [Role.yield] at hread
    have hkeys : ∀ m ∈ Place.members .requestBody, m.1 ∈ ["content"] := by decide
    have hmember := hchild.mem_members rfl
    exact spreadSlots_covered (requestBodySlots_sound refs) hread (hkeys _ hmember) hchild
  | response =>
    rw [Role.yield] at hread
    have hkeys : ∀ m ∈ Place.members .response, m.2 ≠ .headers → m.1 ∈ ["content", "schema"] := by
      decide
    have hmember := hchild.mem_members rfl
    exact spreadSlots_covered (responseSlots_sound refs) hread (hkeys _ hmember hheaders) hchild
  | schema depth rs =>
    rw [Role.yield, Yield.tasks_own] at hread
    have hkeys : ∀ m ∈ Place.members .schema, m.1 ∈ ["properties", "items", "allOf", "anyOf",
        "oneOf", "not", "additionalProperties"] := by decide
    have hkey : key ∈ (schemaSlots (depth + 1) refs).map (·.key) := by
      rcases Child.of_schema hchild with hmember | ⟨rfl, -⟩ | ⟨rfl, -⟩
      · exact hkeys _ hmember
      · simp [schemaSlots]
      · simp [schemaSlots]
    exact spreadSlots_covered (schemaSlots_sound (depth + 1) refs) hread hkey hchild

/-- The headers of a response are covered if its step is made. -/
theorem headers_covered {w : Walker} {segs : List String} {members : List (String × Json)}
    {refs : List String} {n : Nat}
    (htasks : ∀ t ∈ (Role.headers w .response (locate segs) members refs n).tasks, IsRead w t)
    (hitems : ∀ i ∈ (Role.headers w .response (locate segs) members refs n).items, i ∈ run w)
    {below : Json} (hget : Json.lookup "headers" members = some below) :
    Covered w (segs ++ ["headers"]) .headers below refs := by
  refine .between rfl fun key q header hchild => ?_
  obtain ⟨rfl, hs, rfl, hmem, -⟩ := hchild.of_entry rfl
  have hstep : Role.headers w .response (locate segs) members refs n
      = headers w (locate (segs ++ ["headers"])) refs n hs := by
    rw [← locate_below (by decide)]
    simp only [Role.headers, hget]
  rw [hstep] at htasks hitems
  -- the count with which this header starts depends on the headers before it
  obtain ⟨m, hthose, hthese⟩ := mem_headers_of_mem (w := w) n hmem
  rw [← locate_append] at hthose hthese
  exact .header (fun t ht => htasks t (hthose t ht)) (fun i hi => hitems i (hthese i hi)) rfl

section Steps

variable {w : Walker} {segs : List String} {p : Place} {v : Json} {refs : List String}

/-- A reference is followed from a covered node to a covered node, if it is new. -/
theorem Covered.hop (hunlimited : Unlimited w) (h : Covered w segs p v refs)
    (hrefers : p.refers = true) {target : String} {next : Json} (htarget : target? v = some target)
    (hnew : target ∉ refs) (hnext : Pointer.resolveRef? w.root target = some next) :
    refs.length < w.limits.maxDepth ∧ Covered w segs p next (target :: refs) := by
  cases h with
  | @task n m t _ _ _ hread hlocation hlands hstart =>
    rw [Role.refers_place] at hrefers
    rw [Role.lands, if_pos hrefers] at hlands
    obtain ⟨hbound, hfollows⟩ := landing_of_new hunlimited hread hlands htarget hnew hnext
    refine ⟨hbound, .task (m := m + 1) hread hlocation ?_ (.inr ?_)⟩
    · rw [hfollows, Role.lands, if_pos hrefers]
    · rcases hstart with rfl | hstart
      · rw [htarget, Option.isSome_some]
      · exact hstart
  | @header n m _ start _ rs _ htasks hitems hfollow =>
    rcases hop_of_new m hnew hnext with ⟨why, hobstacle, hlimit⟩ | ⟨hok, hbound⟩
    · rw [hfollow, follow_of_error htarget hobstacle] at hitems
      have hnone := hunlimited _ (hitems _ (List.mem_singleton_self _))
      rw [Item.isLimit, hlimit] at hnone
      cases hnone
    · rw [follow_of_ok htarget hok] at hfollow
      exact ⟨hbound, .header htasks hitems hfollow⟩
  | between hplace =>
    rw [Place.refers_of_between hplace] at hrefers
    cases hrefers

/-- The object of a covered task is what its step reads. -/
theorem readObject_of_lands {n m : Nat} {t : Task} {members : List (String × Json)}
    (hunlimited : Unlimited w) (hread : (n, t) ∈ (visit w).readings)
    (hlands : landing w n t = t.role.lands w m (.obj members) refs)
    (hreads : t.role.place.Reads (.obj members)) :
    expand w n t = readObject w t.role t.location members refs m ∧
      (t.role.refers = false → refs = []) := by
  rw [lands_of_reads w m refs hreads] at hlands
  refine ⟨expand_of_lands hunlimited hread hlands, fun hnot => ?_⟩
  rw [landing, if_neg (Bool.eq_false_iff.1 hnot)] at hlands
  simp only [Prod.mk.injEq, Except.ok.injEq] at hlands
  exact hlands.1.2.symm

/-- A step down leads from a covered node that is read at its place to a covered node. -/
theorem Covered.child (hunlimited : Unlimited w) (h : Covered w segs p v refs) (hreads : p.Reads v)
    {key : String} {q : Place} {below : Json} (hchild : Child p v key q below) :
    Covered w (segs ++ [key]) q below (p.carry refs) := by
  cases h with
  | @task n m t _ _ _ hread hlocation hlands =>
    obtain ⟨members, rfl⟩ := hchild.obj_of_not_element (Role.element?_place t.role)
    obtain ⟨hstep, hrefs⟩ := readObject_of_lands hunlimited hread hlands hreads
    rw [hlocation] at hstep
    have htasks : ∀ t' ∈ (readObject w t.role (locate segs) members refs m).tasks, IsRead w t' := by
      rw [← hstep]
      exact fun t' ht' => mem_readings_of_mem_tasks hread ht'
    have hitems : ∀ i ∈ (readObject w t.role (locate segs) members refs m).items, i ∈ run w := by
      rw [← hstep]
      exact fun i hi => mem_run_of_mem_items hread hi
    -- headers are no tasks: their references are followed in the step of the response
    by_cases hheaders : q = .headers
    · subst hheaders
      obtain ⟨hplace, rfl, hget⟩ := hchild.of_headers
      rw [Role.eq_response_of_place hplace] at htasks hitems ⊢
      exact headers_covered (fun t' ht' => htasks t' (List.mem_append_right _ ht'))
        (fun i hi => hitems i (List.mem_append_right _ hi)) hget
    · exact yield_covered hrefs (fun t' ht' => htasks t' (List.mem_append_left _ ht')) hchild
        hheaders
  | @header n m _ start _ rs _ htasks hitems hfollow =>
    rw [hfollow, follow_of_none (hreads rfl)] at htasks
    have hmember := hchild.mem_members rfl
    cases List.mem_singleton.1 hmember
    obtain ⟨-, hget⟩ := hchild.of_member hmember
    have hschema := htasks ⟨.schema 0 refs, below, Walk.below (locate segs) "schema"⟩ (by
      simp only [headerYield, hget]
      exact List.mem_singleton_self _)
    rw [locate_below (by decide)] at hschema
    exact hschema.covered
  | between hplace hbelow =>
    rw [Place.carry_of_not_refers (Place.refers_of_between hplace)]
    exact hbelow key q below hchild

/-- What the `pattern` member of a covered node yields is found, if the node is read at its
place. -/
theorem Covered.patternAt_mem_run (hunlimited : Unlimited w) (h : Covered w segs p v refs)
    (hreads : p.Reads v) (hbears : p.bearsPattern = true) {i : Item}
    (hi : i ∈ patternAt (locate segs) (v.get? "pattern")) : i ∈ run w := by
  cases h with
  | @task n m t _ _ _ hread hlocation hlands =>
    cases v with
    | obj members =>
      obtain ⟨hstep, -⟩ := readObject_of_lands hunlimited hread hlands hreads
      refine mem_run_of_mem_items hread ?_
      rw [hstep, hlocation]
      refine List.mem_append_left _ ?_
      cases hrole : t.role with
      | parameter => exact List.mem_append_left _ hi
      | schema depth rs => exact List.mem_append_left _ hi
      | _ =>
        rw [hrole] at hbears
        cases hbears
    | _ => cases hi
  | header htasks hitems hfollow =>
    rw [hfollow, follow_of_none (hreads rfl)] at hitems
    exact hitems _ hi
  | between hplace =>
    rw [Place.between_of_bearsPattern hbears] at hplace
    cases hplace

/-- The pattern of a covered node that is read at its place is found, at the node's
location. -/
theorem Covered.pattern_mem_run (hunlimited : Unlimited w) (h : Covered w segs p v refs)
    (hreads : p.Reads v) (hbears : p.bearsPattern = true) {pattern : String}
    (hpattern : v.get? "pattern" = some (.str pattern)) :
    .pattern (locate segs) pattern ∈ run w :=
  h.patternAt_mem_run hunlimited hreads hbears (mem_patternAt.2 ⟨rfl, hpattern⟩)

end Steps

/-! ## Trails -/

theorem covered_root (w : Walker) : Covered w [] .root w.root [] := by
  have hread : ∀ {t}, t ∈ rootTasks w → IsRead w t := fun h => mem_readings_of_mem 0 h
  refine .between rfl fun key q below hchild => ?_
  have hmember := hchild.mem_members rfl
  obtain ⟨-, hget⟩ := hchild.of_member hmember
  simp only [Place.members, List.mem_cons, List.not_mem_nil, or_false, Prod.mk.injEq] at hmember
  rcases hmember with ⟨rfl, rfl⟩ | ⟨rfl, rfl⟩ | ⟨rfl, rfl⟩
  · refine .between rfl fun key q schemas hchild => ?_
    have hmember := hchild.mem_members rfl
    obtain ⟨-, hschemas⟩ := hchild.of_member hmember
    cases List.mem_singleton.1 hmember
    exact (hread (mem_rootTasks.2 (Or.inl ⟨below, schemas, hget, hschemas, rfl⟩))).covered
  · exact (hread (mem_rootTasks.2 (Or.inr (Or.inl ⟨below, hget, rfl⟩)))).covered
  · exact (hread (mem_rootTasks.2 (Or.inr (Or.inr ⟨below, hget, rfl⟩)))).covered

/-- **An unlimited walk comes to the end of every trail.** -/
theorem Trail.covered {w : Walker} (hunlimited : Unlimited w) {segs : List String} {p : Place}
    {v : Json} {refs : List String} (h : Trail w segs p v refs) : Covered w segs p v refs := by
  induction h with
  | root => exact covered_root w
  | hop _ hrefers htarget hnew _ hnext ih => exact (ih.hop hunlimited hrefers htarget hnew hnext).2
  | child _ hreads hchild ih => exact ih.child hunlimited hreads hchild

end PatternAudit.Walk
