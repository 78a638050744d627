/-
The operations of a path item come in the order of its keys.

What a walk finds of a path item is what comes of the parameters that its operations share, and
then, for one key after the other, the operation and what is in it. So a walk keeps the order in
which the operations are declared, and does not bring the methods into the order of the
description format: a path item that declares `post` before `get` is found that way
(`post_before_get`). What the keys spell and what stands between them makes no difference, as
long as the methods keep their order, and nothing else of the order counts
(`operations_in_key_order`).

The order of the methods can be read off what was found: an operation's own item is the only one
at the operation's location (`filterMap_opens`). So two walks that find the same have met the
methods in the same order; that they find the same then is a matter of the tasks, which are the
same ones.
-/
import PatternAudit.Proofs.Walk.InBoth
import PatternAudit.Proofs.Walk.Locations
import PatternAudit.Proofs.Walk.Misfits
import PatternAudit.Proofs.Walk.Transparent

set_option autoImplicit false

namespace PatternAudit

/-! ## Members in another order -/

/-- Where no key comes twice, the order of the members is nothing to a look-up. -/
theorem Json.lookup_of_perm {α : Type} {ms ms' : List (String × α)}
    (hkeys : (ms.map Prod.fst).Nodup) (hperm : ms'.Perm ms) (key : String) :
    lookup key ms' = lookup key ms := by
  have hkeys' : (ms'.map Prod.fst).Nodup := (hperm.map Prod.fst).nodup_iff.2 hkeys
  refine Option.ext fun v => ?_
  rw [lookup_eq_some_iff hkeys', lookup_eq_some_iff hkeys, hperm.mem_iff]

/-- Rearranged elements that differ in what a function makes of them are in the same order if
their images are. -/
theorem eq_of_perm_of_map_eq {α β : Type} {f : α → β} {l l' : List α} (hperm : l'.Perm l)
    (hnodup : (l.map f).Nodup) (hmap : l'.map f = l.map f) : l' = l := by
  refine List.ext_getElem hperm.length_eq fun i hi hi' => ?_
  -- the elements at one index are both in the one list, and their images are the same
  refine List.inj_on_of_nodup_map hnodup (hperm.mem_iff.1 (List.getElem_mem hi))
    (List.getElem_mem hi') ?_
  have himage : (l'.map f)[i]? = (l.map f)[i]? := by rw [hmap]
  rw [List.getElem?_map, List.getElem?_map, List.getElem?_eq_getElem hi,
    List.getElem?_eq_getElem hi'] at himage
  exact Option.some.inj himage

namespace Walk

/-! ## Operations -/

/-- The members of a path item that are operations, in their order, each with the method that
its key names. -/
def operations (ms : List (String × Json)) : List (String × Json) :=
  ms.filterMap fun m => (methodOf? m.1).map fun method => (method, m.2)

/-- The task of an operation. -/
def operationTask (template location : String) (m : String × Json) : Task :=
  ⟨.operation template m.1, m.2, below location m.1⟩

theorem operationTasks_eq (template location : String) (ms : List (String × Json)) :
    operationTasks template location ms
      = (operations ms).map (operationTask template location) := by
  induction ms with
  | nil => rfl
  | cons m ms ih =>
    obtain ⟨key, v⟩ := m
    rw [operationTasks, operations, List.filterMap_cons]
    cases methodOf? key with
    | none => exact ih
    | some method => exact congrArg (_ :: ·) ih

theorem map_fst_operations (ms : List (String × Json)) :
    (operations ms).map Prod.fst = namedMethods ms := by
  rw [operations, namedMethods, List.map_filterMap, List.filterMap_map]
  refine List.filterMap_congr fun m _ => ?_
  cases hmethod : methodOf? m.1 with
  | none => simp [hmethod]
  | some method => simp [hmethod]

theorem fst_mem_methods {ms : List (String × Json)} {m : String × Json} (h : m ∈ operations ms) :
    m.1 ∈ methods := by
  obtain ⟨member, -, hm⟩ := List.mem_filterMap.1 h
  obtain ⟨method, hmethod, rfl⟩ := Option.map_eq_some_iff.1 hm
  exact (methodOf?_eq_some_iff.1 hmethod).1

/-- A path item with one key for each method has its operations in one order as soon as it has
its methods in that order. -/
theorem operations_of_perm {ms ms' : List (String × Json)} (hperm : ms'.Perm ms)
    (hmethods : (namedMethods ms).Nodup) (hsame : namedMethods ms' = namedMethods ms) :
    operations ms' = operations ms := by
  rw [← map_fst_operations, ← map_fst_operations] at hsame
  rw [← map_fst_operations] at hmethods
  exact eq_of_perm_of_map_eq (hperm.filterMap _) hmethods hsame

/-- What a walk says of an operation itself. A value that is no object is none. -/
def operationItem (template location : String) (m : String × Json) : Item :=
  match m.2 with
  | .obj ms =>
    .operation ⟨below location m.1, template, m.1, nonBlank (Json.lookup "operationId" ms),
      nonBlank (Json.lookup "summary" ms)⟩
  | _ => .skipped (below location m.1) (.expected "an operation object")

theorem location_operationItem (template location : String) (m : String × Json) :
    (operationItem template location m).location = below location m.1 := by
  unfold operationItem
  split <;> rfl

/-! ## Visits in parts -/

/-- A visit finds what comes of one node after the other. -/
theorem visitNodes_flatten (w : Walker) (n : Nat) (ts : List Task) :
    ∃ blocks, (visitNodes w n ts).1.items = blocks.flatten ∧
      List.Forall₂ (fun t block => ∃ m, block = (visitNodes w m [t]).1.items) ts blocks := by
  induction ts generalizing n with
  | nil =>
    refine ⟨[], ?_, .nil⟩
    rw [visitNodes_nil]
    rfl
  | cons t ts ih =>
    obtain ⟨blocks, hitems, hblocks⟩ := ih (visitNodes w n [t]).1.resolved
    refine ⟨(visitNodes w n [t]).1.items :: blocks, ?_, .cons ⟨n, rfl⟩ hblocks⟩
    rw [← List.singleton_append, visitNodes_append]
    dsimp only
    rw [hitems, List.flatten_cons]

/-- What comes of a node that is read stands together in what is found. -/
theorem items_of_mem_readings {w : Walker} {k n : Nat} {ts : List Task} {t : Task}
    (h : (n, t) ∈ (visitNodes w k ts).1.readings) :
    ∃ before after, (visitNodes w k ts).1.items
      = before ++ (visitNodes w n [t]).1.items ++ after := by
  induction k, ts using visitNodes_induction (w := w) with
  | nil k =>
    rw [visitNodes_nil] at h
    cases h
  | cons k first rest ihbelow ihothers =>
    rw [visitNodes_cons] at h ⊢
    -- the node is the first one, below the first one, or another one
    rcases List.mem_cons.1 h with heq | h
    · cases heq
      refine ⟨[], (visitNodes w (visitNodes w (expand w n t).resolved
        (expand w n t).tasks).1.resolved rest).1.items, ?_⟩
      rw [visitNodes_one]
      rfl
    · rcases List.mem_append.1 h with hbelow | hothers
      · obtain ⟨before, after, hitems⟩ := ihbelow hbelow
        dsimp only
        rw [hitems]
        refine ⟨(expand w k first).items ++ before, after ++ (visitNodes w (visitNodes w
          (expand w k first).resolved (expand w k first).tasks).1.resolved rest).1.items, ?_⟩
        simp only [List.append_assoc]
      · obtain ⟨before, after, hitems⟩ := ihothers hothers
        dsimp only
        rw [hitems]
        refine ⟨(expand w k first).items ++ (visitNodes w (expand w k first).resolved
          (expand w k first).tasks).1.items ++ before, after, ?_⟩
        simp only [List.append_assoc]

/-- Whatever comes of a table lies below the keys of its slots. -/
theorem isWithin_slots {w : Walker} {location : String} {ms : List (String × Json)}
    {slots : List Slot} (n : Nat) :
    ∀ i ∈ (spreadSlots location ms slots).items
        ++ (visitNodes w n (spreadSlots location ms slots).tasks).1.items,
      ∃ slot ∈ slots, isWithin (below location slot.key) i.location = true := by
  intro i hi
  rcases List.mem_append.1 hi with hown | hbelow
  · obtain ⟨slot, hslot, hitem⟩ := mem_spreadSlots_items.1 hown
    obtain ⟨v, -, hitem⟩ := mem_slot_items.1 hitem
    exact ⟨slot, hslot, (spread_allWithin ..).items i hitem⟩
  · obtain ⟨t, ht, hi⟩ := exists_isWithin_of_mem hbelow
    obtain ⟨slot, hslot, v, -, ht⟩ := mem_spreadSlots_tasks.1 ht
    exact ⟨slot, hslot, isWithin_trans ((spread_allWithin ..).tasks t ht) hi⟩

/-- Only a response yields more than its slots do. -/
theorem readObject_of_ne (w : Walker) {role : Role} (h : role ≠ .response) (location : String)
    (ms : List (String × Json)) (refs : List String) (n : Nat) :
    readObject w role location ms refs n = (role.yield location ms refs).keeping n := by
  have hnone : role.headers w location ms refs n = Yield.nothing.keeping n := by
    unfold Role.headers
    split
    · exact absurd rfl h
    · rfl
  simp only [readObject, hnone, Yield.before, Yield.keeping, Yield.nothing, List.append_nil]

/-! ## What is found of an operation -/

/-- What a walk finds of an operation: what it says of the operation itself, and then what is in
the operation, which lies below it. -/
structure OperationBlock (w : Walker) (template location : String) (m : String × Json)
    (block : List Item) : Prop where
  found : ∃ n, block = (operationTask template location m).found w n
  opens : ∃ content, block = operationItem template location m :: content ∧
    ∀ i ∈ content, ∃ key, isWithin (below (below location m.1) key) i.location = true

theorem visitNodes_operationBlock (w : Walker) (n : Nat) (template location : String) (m : String × Json) :
    OperationBlock w template location m
      (visitNodes w n [operationTask template location m]).1.items := by
  refine ⟨⟨n, (Task.found_eq ..).symm⟩, ?_⟩
  rw [visitNodes_one]
  obtain ⟨method, v⟩ := m
  cases v with
  | obj ms =>
    have hstep : expand w n (operationTask template location (method, .obj ms))
        = ⟨operationItem template location (method, .obj ms)
            :: (spreadSlots (below location method) ms operationSlots).items,
          (spreadSlots (below location method) ms operationSlots).tasks, n⟩ := by
      show readObject w (.operation template method) (below location method) ms [] n = _
      rw [readObject_of_ne w (by simp)]
      rfl
    rw [hstep]
    refine ⟨_, rfl, fun i hi => ?_⟩
    obtain ⟨slot, -, hslot⟩ := isWithin_slots n i hi
    exact ⟨slot.key, hslot⟩
  | _ =>
    refine ⟨[], ?_, fun i hi => absurd hi List.not_mem_nil⟩
    show _ ++ (visitNodes w n []).1.items = _
    rw [visitNodes_nil]
    rfl

/-- What a walk finds of a path item: what comes of the shared parameters, and then the
operations, in the order given. -/
def FoundInOrder (w : Walker) (template location : String) (ops : List (String × Json))
    (items : List Item) : Prop :=
  ∃ shared blocks, items = shared ++ blocks.flatten ∧
    (∀ i ∈ shared, isWithin (below location "parameters") i.location = true) ∧
    List.Forall₂ (OperationBlock w template location) ops blocks

/-- A step at a path item. -/
theorem expand_pathItem {w : Walker} {n k : Nat} {t : Task} {template : String}
    {ms : List (String × Json)} {refs : List String} (hrole : t.role = .pathItem template)
    (hlanding : landing w n t = (.ok (.obj ms, refs), k)) :
    expand w n t = ⟨(spreadSlots t.location ms [parametersSlot]).items,
      (spreadSlots t.location ms [parametersSlot]).tasks
        ++ (operations ms).map (operationTask template t.location), k⟩ := by
  have hbarred : barred? w t = none := by rw [barred?, hrole]
  rw [← operationTasks_eq]
  unfold expand
  rw [hbarred, hlanding, hrole]
  show readObject w (.pathItem template) t.location ms refs k = _
  rw [readObject_of_ne w (by simp), Role.yield, Yield.keeping, Yield.items_append, List.append_nil]
  rfl

/-- **The operations of a path item are found in the order of their keys.** -/
theorem visitNodes_foundInOrder {w : Walker} {n k : Nat} {t : Task} {template : String}
    {ms : List (String × Json)} {refs : List String} (hrole : t.role = .pathItem template)
    (hlanding : landing w n t = (.ok (.obj ms, refs), k)) :
    FoundInOrder w template t.location (operations ms) (visitNodes w n [t]).1.items := by
  rw [visitNodes_one, expand_pathItem hrole hlanding]
  dsimp only
  rw [visitNodes_append]
  obtain ⟨blocks, hitems, hblocks⟩ := visitNodes_flatten w
    (visitNodes w k (spreadSlots t.location ms [parametersSlot]).tasks).1.resolved
    ((operations ms).map (operationTask template t.location))
  dsimp only
  rw [hitems, ← List.append_assoc]
  -- the tasks of the parameters come first, so what is theirs comes first
  refine ⟨_, blocks, rfl, fun i hi => ?_, ?_⟩
  · obtain ⟨slot, hslot, hi⟩ := isWithin_slots k i hi
    rw [List.mem_singleton.1 hslot] at hi
    exact hi
  · refine (List.forall₂_map_left_iff.1 hblocks).imp ?_
    rintro m block ⟨n, rfl⟩
    exact visitNodes_operationBlock w n template t.location m

/-! ## The order of the methods, read off -/

/-- The method of a path item at a location whose operation an item opens. -/
def opens? (location : String) (i : Item) : Option String :=
  methods.find? fun method => i.location == below location method

theorem below_inj {location a b : String} (h : below location a = below location b) : a = b := by
  have htexts := congrArg String.toList h
  rw [toList_below, toList_below] at htexts
  exact String.toList_inj.1 (List.append_cancel_left htexts)

theorem opens?_eq_some_iff {location method : String} {i : Item} :
    opens? location i = some method ↔ method ∈ methods ∧ i.location = below location method := by
  unfold opens?
  constructor
  · intro h
    exact ⟨List.mem_of_find?_eq_some h, by simpa using List.find?_some h⟩
  · rintro ⟨hmem, hlocation⟩
    cases hfind : methods.find? fun method => i.location == below location method with
    | none =>
      have hnone := List.find?_eq_none.1 hfind method hmem
      exact absurd (beq_iff_eq.2 hlocation) hnone
    | some other =>
      -- one location belongs to one method
      have hother : i.location = below location other := by simpa using List.find?_some hfind
      rw [below_inj (hother.symm.trans hlocation)]

/-- What lies below another segment than a method opens no operation. -/
theorem opens?_eq_none {location segment : String} {i : Item}
    (h : ∀ method ∈ methods, ¬ segment.toList <+: method.toList)
    (hi : isWithin (below location segment) i.location = true) : opens? location i = none := by
  rw [Option.eq_none_iff_forall_ne_some]
  intro method hopens
  obtain ⟨hmem, hlocation⟩ := opens?_eq_some_iff.1 hopens
  refine h method hmem ?_
  rw [hlocation, isWithin_iff] at hi
  rcases hi with hsame | hbelow
  · exact below_inj hsame ▸ List.prefix_rfl
  · rw [toList_below, toList_below, List.append_assoc _ segment.toList,
      List.prefix_append_right_inj] at hbelow
    exact (List.prefix_append _ ['/']).trans hbelow

theorem filterMap_opens_block {w : Walker} {template location : String} {m : String × Json}
    {block : List Item} (hmethod : m.1 ∈ methods) (h : OperationBlock w template location m block) :
    block.filterMap (opens? location) = [m.1] := by
  obtain ⟨content, rfl, hcontent⟩ := h.opens
  have hown : opens? location (operationItem template location m) = some m.1 :=
    opens?_eq_some_iff.2 ⟨hmethod, location_operationItem template location m⟩
  have hnone : content.filterMap (opens? location) = [] := by
    refine List.filterMap_eq_nil_iff.2 fun i hi => ?_
    obtain ⟨key, hkey⟩ := hcontent i hi
    have hbelow : below (below location m.1) key = below location (m.1 ++ "/" ++ key) := by
      simp only [below, String.append_assoc]
    rw [hbelow] at hkey
    refine opens?_eq_none (fun method hmem hprefix => ?_) hkey
    -- no method has a slash
    have hslash : '/' ∈ method.toList := by
      refine hprefix.subset ?_
      simp
    have hplain : ∀ method ∈ methods, '/' ∉ method.toList := by decide
    exact hplain method hmem hslash
  rw [List.filterMap_cons, hown, hnone]

theorem filterMap_opens {w : Walker} {template location : String} {ops : List (String × Json)}
    {items : List Item} (hmethods : ∀ m ∈ ops, m.1 ∈ methods)
    (h : FoundInOrder w template location ops items) :
    items.filterMap (opens? location) = ops.map Prod.fst := by
  obtain ⟨shared, blocks, rfl, hshared, hblocks⟩ := h
  have hnone : shared.filterMap (opens? location) = [] := by
    refine List.filterMap_eq_nil_iff.2 fun i hi => ?_
    exact opens?_eq_none (by decide) (hshared i hi)
  rw [List.filterMap_append, hnone, List.nil_append]
  clear hshared hnone
  induction hblocks with
  | nil => rfl
  | @cons m block ops blocks hblock _ ih =>
    obtain ⟨hfirst, hrest⟩ := List.forall_mem_cons.1 hmethods
    rw [List.flatten_cons, List.filterMap_append, filterMap_opens_block hfirst hblock, ih hrest,
      List.map_cons, List.singleton_append]

/-- What is found of a path item tells the order of its methods. -/
theorem filterMap_opens_pathItem {w : Walker} {n k : Nat} {t : Task} {template : String}
    {ms : List (String × Json)} {refs : List String} (hrole : t.role = .pathItem template)
    (hlanding : landing w n t = (.ok (.obj ms, refs), k)) :
    (visitNodes w n [t]).1.items.filterMap (opens? t.location) = namedMethods ms := by
  rw [filterMap_opens (fun _ => fst_mem_methods) (visitNodes_foundInOrder hrole hlanding), map_fst_operations]

/-! ## A path item in another order -/

/-- Following references ends at a node that is none. -/
theorem target?_of_follow {w : Walker} {n m : Nat} {v last : Json} {refs rs : List String}
    (h : follow w n v refs = (.ok (last, rs), m)) : target? last = none := by
  fun_induction follow w n v refs with
  | case1 n v refs htarget =>
    cases h
    exact htarget
  | case2 n v refs target htarget why hstop => cases h
  | case3 n v refs target htarget next hnext ih => exact ih h

theorem target?_of_perm {ms ms' : List (String × Json)} (hkeys : (ms.map Prod.fst).Nodup)
    (hperm : ms'.Perm ms) : target? (.obj ms') = target? (.obj ms) := by
  rw [target?, target?, Json.get?, Json.get?, Json.lookup_of_perm hkeys hperm]

/-- A path item that is no reference is read where it stands. -/
theorem landing_pathItem (w : Walker) (n : Nat) (template location : String) {v : Json}
    (h : target? v = none) :
    landing w n ⟨.pathItem template, v, location⟩ = (.ok (v, []), n) :=
  follow_of_none h

theorem spreadSlots_of_perm {ms ms' : List (String × Json)} (hkeys : (ms.map Prod.fst).Nodup)
    (hperm : ms'.Perm ms) (location : String) (slots : List Slot) :
    spreadSlots location ms' slots = spreadSlots location ms slots := by
  induction slots with
  | nil => rfl
  | cons slot slots ih =>
    rw [spreadSlots, spreadSlots, ih, Slot.yield, Slot.yield, Json.lookup_of_perm hkeys hperm]

/-- A path item in another order is read alike if the methods keep their order. -/
theorem expand_of_perm {w w' : Walker} {n n' k : Nat} {t t' : Task} {template : String}
    {ms ms' : List (String × Json)} {refs refs' : List String}
    (hrole : t.role = .pathItem template) (hrole' : t'.role = .pathItem template)
    (hlocation : t'.location = t.location)
    (hlanding : landing w n t = (.ok (.obj ms, refs), k))
    (hlanding' : landing w' n' t' = (.ok (.obj ms', refs'), k))
    (hkeys : (ms.map Prod.fst).Nodup) (hperm : ms'.Perm ms) (hmethods : (namedMethods ms).Nodup)
    (hsame : namedMethods ms' = namedMethods ms) : expand w' n' t' = expand w n t := by
  rw [expand_pathItem hrole hlanding, expand_pathItem hrole' hlanding', hlocation,
    spreadSlots_of_perm hkeys hperm, operations_of_perm hperm hmethods hsame]

/-- **One path item, two orders.** What is found of it is the same exactly if the methods keep
their order. -/
theorem pathItem_items_eq_iff {w : Walker} {n k : Nat} {t : Task} {template : String}
    {ms ms' : List (String × Json)} {refs : List String} (hrole : t.role = .pathItem template)
    (hlanding : landing w n t = (.ok (.obj ms, refs), k)) (hkeys : (ms.map Prod.fst).Nodup)
    (hmethods : (namedMethods ms).Nodup) (hperm : ms'.Perm ms) :
    (visitNodes w k [⟨.pathItem template, .obj ms', t.location⟩]).1.items
        = (visitNodes w n [t]).1.items ↔
      namedMethods ms' = namedMethods ms := by
  have htarget : target? (.obj ms) = none := by
    have hfollow : landing w n t = follow w n t.node [] := by
      rw [landing, hrole]
      rfl
    exact target?_of_follow (hfollow.symm.trans hlanding)
  have hlanding' := landing_pathItem w k template t.location
    ((target?_of_perm hkeys hperm).trans htarget)
  constructor
  · intro heq
    have hread := filterMap_opens_pathItem rfl hlanding'
    rw [heq, filterMap_opens_pathItem hrole hlanding] at hread
    exact hread.symm
  · intro hsame
    have hstep : expand w k ⟨.pathItem template, .obj ms', t.location⟩ = expand w n t :=
      expand_of_perm hrole rfl rfl hlanding hlanding' hkeys hperm hmethods hsame
    rw [visitNodes_one, visitNodes_one, hstep]

/-! ## The paths of a document -/

/-- The named schemas that a walk sets out with. -/
def schemaTasks (doc : Json) : List Task :=
  rootTask .definitions "#/components/schemas" ((doc.get? "components").bind (·.get? "schemas"))
    ++ rootTask .definitions "#/definitions" (doc.get? "definitions")

/-- The paths of a map of paths, its extensions left out. -/
def pathEntries (items : List (String × Json)) : List (String × Json) :=
  items.filter fun m => !isExtension m.1

def pathItem (m : String × Json) : Item := .path ⟨belowKey "#/paths" m.1, m.1⟩

def pathTask (m : String × Json) : Task := ⟨.pathItem m.1, m.2, belowKey "#/paths" m.1⟩

theorem rootTasks_eq {w : Walker} {items : List (String × Json)}
    (hpaths : w.root.get? "paths" = some (.obj items)) :
    rootTasks w = schemaTasks w.root ++ [⟨.paths, .obj items, "#/paths"⟩] := by
  rw [rootTasks, hpaths]
  rfl

theorem expand_paths (w : Walker) (n : Nat) (items : List (String × Json)) :
    expand w n ⟨.paths, .obj items, "#/paths"⟩
      = ⟨(pathEntries items).map pathItem, (pathEntries items).map pathTask, n⟩ := by
  show readObject w .paths "#/paths" items [] n = _
  rw [readObject_of_ne w (by simp)]
  rfl

/-- A walk finds what comes of the named schemas, then all paths, and then what comes of one
path item after the other. -/
theorem run_of_paths {w : Walker} {items : List (String × Json)}
    (hpaths : w.root.get? "paths" = some (.obj items)) :
    run w = (visitNodes w 0 (schemaTasks w.root)).1.items ++ (pathEntries items).map pathItem
      ++ (visitNodes w (visitNodes w 0 (schemaTasks w.root)).1.resolved
          ((pathEntries items).map pathTask)).1.items := by
  rw [run_eq_visit, visit, rootTasks_eq hpaths, visitNodes_append]
  dsimp only
  rw [visitNodes_one, expand_paths, List.append_assoc]

theorem schemaTasks_onTrail {w : Walker} : ∀ t ∈ schemaTasks w.root, t.OnTrail w :=
  fun t ht => rootTasks_onTrail w t (List.mem_append_left _ ht)

theorem pathTask_onTrail {w : Walker} {items : List (String × Json)}
    (hpaths : w.root.get? "paths" = some (.obj items)) :
    ∀ t ∈ (pathEntries items).map pathTask, t.OnTrail w := by
  have hroot : Task.OnTrail w ⟨.paths, .obj items, "#/paths"⟩ := by
    refine rootTasks_onTrail w _ ?_
    rw [rootTasks_eq hpaths]
    exact List.mem_append_right _ (List.mem_singleton_self _)
  have hbelow := (expand_keeps 0 hroot).onTrail
  rw [expand_paths] at hbelow
  exact hbelow

section Entry

variable {w : Walker} {before after : List (String × Json)} {key : String} {v : Json}

theorem pathEntries_middle (hkey : isExtension key = false) :
    pathEntries (before ++ (key, v) :: after)
      = pathEntries before ++ (key, v) :: pathEntries after := by
  simp [pathEntries, hkey]

/-- Where a path item comes up in a walk. -/
theorem run_of_entry
    (hpaths : w.root.get? "paths" = some (.obj (before ++ (key, v) :: after)))
    (hkey : isExtension key = false) :
    let schemas := (visitNodes w 0 (schemaTasks w.root)).1
    let first := (visitNodes w schemas.resolved ((pathEntries before).map pathTask)).1
    let item := (visitNodes w first.resolved [pathTask (key, v)]).1
    run w = schemas.items
      ++ ((pathEntries before).map pathItem
        ++ pathItem (key, v) :: (pathEntries after).map pathItem)
      ++ (first.items ++ (item.items
        ++ (visitNodes w item.resolved ((pathEntries after).map pathTask)).1.items)) := by
  intro schemas first item
  rw [run_of_paths hpaths, pathEntries_middle hkey, List.map_append, List.map_cons,
    List.map_append, List.map_cons, ← List.singleton_append (x := pathTask (key, v)),
    visitNodes_append]
  dsimp only
  rw [visitNodes_append]

/-- What lies within a location has its keys on the way. -/
theorem segments_prefix_of_isWithin {top location : String} (h : isWithin top location = true) :
    Pointer.segments top <+: Pointer.segments location := by
  rcases isWithin_iff.1 h with rfl | ⟨rest, hrest⟩
  · exact List.prefix_rfl
  · rw [Pointer.segments, Pointer.segments, ← hrest, List.append_assoc, List.singleton_append,
      Pointer.splitSlash_append_slash, List.map_append]
    exact List.prefix_append ..

/-- The segments of the location where an operation of a path begins. -/
theorem segments_of_opens {key method : String} {i : Item}
    (h : opens? (belowKey "#/paths" key) i = some method) :
    Pointer.segments i.location = ["#", "paths", key, method] := by
  obtain ⟨hmem, hlocation⟩ := opens?_eq_some_iff.1 h
  have hpaths : "#/paths" = locate ["paths"] := by decide +kernel
  rw [hlocation, segments_below (escape_method hmem), segments_belowKey, hpaths, segments_locate]
  rfl

theorem segments_path (key : String) :
    Pointer.segments (belowKey "#/paths" key) = ["#", "paths", key] := by
  have hpaths : "#/paths" = locate ["paths"] := by decide +kernel
  rw [segments_belowKey, hpaths, segments_locate]
  rfl

/-- What comes of tasks that are not on the way to the operations of a path item opens none of
them. -/
theorem filterMap_opens_eq_nil {n : Nat} {ts : List Task}
    (h : ∀ t ∈ ts, ∀ method, ¬ Pointer.segments t.location <+: ["#", "paths", key, method]) :
    (visitNodes w n ts).1.items.filterMap (opens? (belowKey "#/paths" key)) = [] := by
  rw [List.filterMap_eq_nil_iff]
  intro i hi
  rw [Option.eq_none_iff_forall_ne_some]
  intro method hopens
  obtain ⟨t, ht, hwithin⟩ := exists_isWithin_of_mem hi
  have hkeys := segments_prefix_of_isWithin hwithin
  rw [segments_of_opens hopens] at hkeys
  exact h t ht method hkeys

/-- What comes of other path items opens no operation of this one. -/
theorem filterMap_opens_of_ne {n : Nat} {ms : List (String × Json)} (h : key ∉ ms.map Prod.fst) :
    (visitNodes w n ((pathEntries ms).map pathTask)).1.items.filterMap
      (opens? (belowKey "#/paths" key)) = [] := by
  apply filterMap_opens_eq_nil
  intro t ht method hkeys
  obtain ⟨m, hm, rfl⟩ := List.mem_map.1 ht
  rw [pathTask, segments_path] at hkeys
  have hsame : m.1 = key := by simpa using hkeys
  exact h (hsame ▸ List.mem_map_of_mem (List.mem_of_mem_filter hm))

/-- What a whole walk finds tells the order in which a path item has its methods. -/
theorem filterMap_opens_run {ms : List (String × Json)}
    (hpaths : w.root.get? "paths" = some (.obj (before ++ (key, .obj ms) :: after)))
    (hkeys : ((before ++ (key, Json.obj ms) :: after).map Prod.fst).Nodup)
    (hkey : isExtension key = false) (htarget : target? (.obj ms) = none) :
    (run w).filterMap (opens? (belowKey "#/paths" key)) = namedMethods ms := by
  -- of all that a walk finds, only what comes of the item itself is on the way to its operations
  have hschemas : (visitNodes w 0 (schemaTasks w.root)).1.items.filterMap
      (opens? (belowKey "#/paths" key)) = [] := by
    apply filterMap_opens_eq_nil
    intro t ht method hkeys
    have hcomponents : Pointer.segments "#/components/schemas" = ["#", "components", "schemas"] := by
      decide +kernel
    have hdefinitions : Pointer.segments "#/definitions" = ["#", "definitions"] := by
      decide +kernel
    rcases List.mem_append.1 ht with ht | ht
    · obtain ⟨_, -, rfl⟩ := mem_rootTask.1 ht
      rw [hcomponents] at hkeys
      simp at hkeys
    · obtain ⟨_, -, rfl⟩ := mem_rootTask.1 ht
      rw [hdefinitions] at hkeys
      simp at hkeys
  -- the path itself is found one key higher
  have hentry : ∀ m, opens? (belowKey "#/paths" key) (pathItem m) = none := by
    intro m
    rw [Option.eq_none_iff_forall_ne_some]
    intro method hopens
    have hsegments := segments_of_opens hopens
    rw [pathItem, Item.location, segments_path] at hsegments
    simp at hsegments
  have hentries : ∀ ms : List (String × Json), (ms.map pathItem).filterMap
      (opens? (belowKey "#/paths" key)) = [] := by
    intro ms
    rw [List.filterMap_map, List.filterMap_eq_nil_iff]
    exact fun m _ => hentry m
  have hitem : ∀ n, (visitNodes w n [pathTask (key, .obj ms)]).1.items.filterMap
      (opens? (belowKey "#/paths" key)) = namedMethods ms := fun n =>
    filterMap_opens_pathItem (t := pathTask (key, .obj ms)) rfl
      (landing_pathItem w n key _ htarget)
  rw [List.map_append, List.map_cons, List.nodup_middle, List.nodup_cons, List.mem_append,
    not_or] at hkeys
  rw [run_of_entry hpaths hkey]
  simp only [List.filterMap_append, List.filterMap_cons, hschemas, hentries, hentry, hitem,
    filterMap_opens_of_ne hkeys.1.1, filterMap_opens_of_ne hkeys.1.2, List.nil_append,
    List.append_nil]

end Entry

/-- Two documents that differ at most in the order that the members of one path item have. -/
structure Rearranged (doc doc' : Json) (key : String) (ms ms' : List (String × Json)) : Prop where
  others : ∀ other, other ≠ "paths" → doc'.get? other = doc.get? other
  paths : ∃ before after, doc.get? "paths" = some (.obj (before ++ (key, .obj ms) :: after)) ∧
    doc'.get? "paths" = some (.obj (before ++ (key, .obj ms') :: after))
  perm : ms'.Perm ms
  /-- no reference names what differs: the path item itself, or something around it -/
  references : SameReferences doc doc'

/-- What comes of a path item in another order, where its methods keep theirs, and with how many
references followed. -/
theorem visitNodes_of_perm {w w' : Walker} (hpair : Comparable w w') (n : Nat) {key : String}
    {ms ms' : List (String × Json)} (htrail : (pathTask (key, .obj ms)).OnTrail w)
    (htrail' : (pathTask (key, .obj ms')).OnTrail w') (htarget : target? (.obj ms) = none)
    (hkeys : (ms.map Prod.fst).Nodup) (hperm : ms'.Perm ms) (hmethods : (namedMethods ms).Nodup)
    (hsame : namedMethods ms' = namedMethods ms) :
    (visitNodes w' n [pathTask (key, .obj ms')]).1.items
        = (visitNodes w n [pathTask (key, .obj ms)]).1.items ∧
      (visitNodes w' n [pathTask (key, .obj ms')]).1.resolved
        = (visitNodes w n [pathTask (key, .obj ms)]).1.resolved := by
  have htarget' := (target?_of_perm hkeys hperm).trans htarget
  have hstep : expand w' n (pathTask (key, .obj ms')) = expand w n (pathTask (key, .obj ms)) :=
    expand_of_perm rfl rfl rfl (landing_pathItem w n key _ htarget)
      (landing_pathItem w' n key _ htarget') hkeys hperm hmethods hsame
  have hbelow' := (expand_keeps n htrail').onTrail
  rw [hstep] at hbelow'
  have hbelow := visitNodes_common hpair (expand w n (pathTask (key, .obj ms))).resolved
    (expand_keeps n htrail).onTrail hbelow'
  rw [visitNodes_cons, visitNodes_cons, hstep]
  dsimp only
  rw [hbelow, visitNodes_nil, visitNodes_nil]
  exact ⟨rfl, rfl⟩

/-- **Walks over two orders.** They find the same exactly if the methods keep their order. -/
theorem run_eq_iff {w w' : Walker} {key : String} {ms ms' : List (String × Json)}
    (h : Rearranged w.root w'.root key ms ms') (hlimits : w'.limits = w.limits)
    (hroot : w.root.keysDistinct = true) (hkey : isExtension key = false)
    (htarget : target? (.obj ms) = none) (hmethods : (namedMethods ms).Nodup) :
    run w' = run w ↔ namedMethods ms' = namedMethods ms := by
  obtain ⟨before, after, hpaths, hpaths'⟩ := h.paths
  have hitems := Json.keysDistinct_get? hroot hpaths
  have hkeys : ((before ++ (key, Json.obj ms) :: after).map Prod.fst).Nodup :=
    (Json.keysDistinct_obj.1 hitems).1
  have hkeys' : ((before ++ (key, Json.obj ms') :: after).map Prod.fst).Nodup := by
    rw [List.map_append, List.map_cons] at hkeys ⊢
    exact hkeys
  have hmembers : (ms.map Prod.fst).Nodup :=
    (Json.keysDistinct_obj.1 ((Json.keysDistinct_obj.1 hitems).2 (key, .obj ms) (by simp))).1
  have htarget' : target? (.obj ms') = none := (target?_of_perm hmembers h.perm).trans htarget
  constructor
  · intro hrun
    rw [← filterMap_opens_run hpaths hkeys hkey htarget,
      ← filterMap_opens_run hpaths' hkeys' hkey htarget', hrun]
  · intro hsame
    have hpair : Comparable w w' := ⟨hlimits, h.references⟩
    have hschemas : schemaTasks w'.root = schemaTasks w.root := by
      rw [schemaTasks, schemaTasks, h.others _ (by decide), h.others _ (by decide)]
    have htrails := pathTask_onTrail hpaths
    have htrails' := pathTask_onTrail hpaths'
    rw [pathEntries_middle hkey, List.map_append, List.map_cons, List.forall_mem_append,
      List.forall_mem_cons] at htrails htrails'
    obtain ⟨hbefore, hitem, hafter⟩ := htrails
    obtain ⟨hbefore', hitem', hafter'⟩ := htrails'
    have hstart := visitNodes_common hpair 0 (schemaTasks_onTrail (w := w))
      (hschemas ▸ schemaTasks_onTrail (w := w'))
    have halike := fun n => visitNodes_of_perm hpair n hitem hitem' htarget hmembers h.perm
      hmethods hsame
    -- the walks come to the item alike, leave it alike, and go on alike
    rw [run_of_entry hpaths hkey, run_of_entry hpaths' hkey, hschemas, hstart, visitNodes_common hpair _ hbefore hbefore', (halike _).1, (halike _).2,
      visitNodes_common hpair _ hafter hafter']
    rfl

/-- **Operations keep the order of their keys.** What a walk finds of a path item that it reads
stands together: what comes of the shared parameters, and then each operation with what is in it,
in the order of the keys. If each method has one key, then of all orders of the members those
find the same that keep the methods in their order, and no others. So it is where the item is
read, and so it is over the whole document if no reference names the item or something around
it. -/
theorem operations_in_key_order (d : Description) (l : Limits) :
    (∀ n t template ms refs k, (n, t) ∈ (visit ⟨d.root, l⟩).readings →
      t.role = .pathItem template → landing ⟨d.root, l⟩ n t = (.ok (.obj ms, refs), k) →
      (∃ before after, run ⟨d.root, l⟩ = before ++ t.found ⟨d.root, l⟩ n ++ after) ∧
        FoundInOrder ⟨d.root, l⟩ template t.location (operations ms) (t.found ⟨d.root, l⟩ n) ∧
        ∀ ms', (namedMethods ms).Nodup → ms'.Perm ms →
          (Task.found ⟨d.root, l⟩ k ⟨.pathItem template, .obj ms', t.location⟩
              = t.found ⟨d.root, l⟩ n ↔
            namedMethods ms' = namedMethods ms)) ∧
    ∀ doc' key ms ms', Rearranged d.root doc' key ms ms' → isExtension key = false →
      target? (.obj ms) = none → (namedMethods ms).Nodup →
      (run ⟨doc', l⟩ = run ⟨d.root, l⟩ ↔ namedMethods ms' = namedMethods ms) := by
  constructor
  · intro n t template ms refs k hread hrole hlanding
    obtain ⟨segs, -, htrail⟩ := readings_onTrail _ _ hread
    have hnode := (landing_onTrail htrail hlanding).1.keysDistinct d.distinct
    have hkeys : (ms.map Prod.fst).Nodup := (Json.keysDistinct_obj.1 hnode).1
    rw [Task.found_eq]
    refine ⟨?_, visitNodes_foundInOrder hrole hlanding, fun ms' hmethods hperm => ?_⟩
    · rw [run_eq_visit]
      exact items_of_mem_readings hread
    · rw [Task.found_eq]
      exact pathItem_items_eq_iff hrole hlanding hkeys hmethods hperm
  · intro doc' key ms ms' h hkey htarget hmethods
    exact run_eq_iff h rfl d.distinct hkey htarget hmethods

/-- A document with one path item. -/
def stock (members : List (String × Json)) : Json :=
  .obj [("swagger", .str "2.0"), ("paths", .obj [("/parts", .obj members)])]

/-- A path item whose keys spell methods in several ways, with other keys around them. -/
def partsMembers : List (String × Json) :=
  [("POST", .obj [("operationId", .str "add")]), ("summary", .str "Parts"), ("Get", .obj []),
    ("parameters", .arr [.obj [("pattern", .str "^p")]])]

/-- The members in another order that keeps the methods in theirs. -/
def partsMembersMoved : List (String × Json) :=
  [("parameters", .arr [.obj [("pattern", .str "^p")]]),
    ("POST", .obj [("operationId", .str "add")]), ("Get", .obj []), ("summary", .str "Parts")]

def partsStock : Description where
  name := "stock.json"
  root := stock partsMembers
  source := ""
  distinct := by decide

/-- The walk over the parts finds the operations in the order of their keys, and over the moved
members it finds the same. -/
theorem partsStock_operations :
    (∃ before found after, run ⟨partsStock.root, Limits.default⟩ = before ++ found ++ after ∧
      FoundInOrder ⟨partsStock.root, Limits.default⟩ "/parts" "#/paths/~1parts"
        [("post", .obj [("operationId", .str "add")]), ("get", .obj [])] found) ∧
      run ⟨stock partsMembersMoved, Limits.default⟩ = run ⟨partsStock.root, Limits.default⟩ := by
  have hlocation : belowKey "#/paths" "/parts" = "#/paths/~1parts" := by decide +kernel
  have hmethods : namedMethods partsMembers = ["post", "get"] := by decide +kernel
  have hoperations : operations partsMembers
      = [("post", .obj [("operationId", .str "add")]), ("get", .obj [])] := rfl
  have hperm : partsMembersMoved.Perm partsMembers :=
    (List.perm_append_singleton _ _).symm.trans (.cons _ (.swap ..))
  have hrearranged : Rearranged partsStock.root (stock partsMembersMoved) "/parts" partsMembers
      partsMembersMoved := by
    refine ⟨fun other hother => ?_, ⟨[], [], rfl, rfl⟩, hperm, ?_⟩
    · simp [partsStock, stock, Json.get?, Json.lookup, Ne.symm hother]
    · intro target hmem
      cases hmem
  obtain ⟨hitems, hrun⟩ := operations_in_key_order partsStock Limits.default
  constructor
  · have hread : ∃ n, (n, pathTask ("/parts", .obj partsMembers))
        ∈ (visit ⟨partsStock.root, Limits.default⟩).readings := by
      obtain ⟨m, hpaths⟩ := mem_readings_of_mem (w := ⟨partsStock.root, Limits.default⟩) 0
        (t := ⟨.paths, .obj [("/parts", .obj partsMembers)], "#/paths"⟩) (List.mem_singleton_self _)
      refine mem_readings_of_mem_tasks hpaths ?_
      rw [expand_paths]
      exact List.mem_singleton_self _
    obtain ⟨n, hread⟩ := hread
    obtain ⟨⟨before, after, hfound⟩, hinorder, -⟩ := hitems n _ "/parts" partsMembers [] n hread rfl
      (landing_pathItem _ n _ _ rfl)
    rw [hoperations] at hinorder
    exact ⟨before, _, after, hfound, hlocation ▸ hinorder⟩
  · exact (hrun _ _ _ _ hrearranged (by decide +kernel) rfl (by rw [hmethods]; decide)).2
      (by decide +kernel)

/-- The methods of the operations that were found. -/
def foundMethods (items : List Item) : List String :=
  items.filterMap fun i => match i with
    | .operation o => some o.method
    | _ => none

/-- `get` comes before `post` in the list of methods, and after it in a walk over a path item that
declares it after `post`. With the two keys exchanged, the walk finds something else. -/
theorem post_before_get :
    let members : List (String × Json) := [("post", .obj []), ("get", .obj [])]
    (namedMethods members).Nodup ∧
      foundMethods (run ⟨stock members, Limits.default⟩) = ["post", "get"] ∧
      ["get", "post"].Sublist methods ∧ ¬ ["post", "get"].Sublist methods ∧
      members.reverse.Perm members ∧
      run ⟨stock members.reverse, Limits.default⟩ ≠ run ⟨stock members, Limits.default⟩ := by
  intro members
  have hends : (endsWith ⟨stock members, Limits.default⟩ 7
      fun items => foundMethods items == ["post", "get"]) = true := by decide +kernel
  have hends' : (endsWith ⟨stock members.reverse, Limits.default⟩ 7
      fun items => foundMethods items == ["get", "post"]) = true := by decide +kernel
  have hdeclared := run_of_test 7 hends
  have hexchanged := run_of_test 7 hends'
  rw [beq_iff_eq] at hdeclared hexchanged
  refine ⟨by decide +kernel, hdeclared, by decide, by decide, List.reverse_perm _, ?_⟩
  intro hsame
  rw [hsame, hdeclared] at hexchanged
  exact absurd hexchanged (by decide)

end Walk

end PatternAudit
