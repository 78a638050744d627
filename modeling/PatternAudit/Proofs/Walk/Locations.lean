/-
No two patterns at one location.

Locations branch where a description branches, so of all that is below a node at most one
thing lies on the way to a given location: the node itself, if it is there, or what comes
next under one of its keys. This is a charge again, as in `Regions`, but to locations. A
task is charged to the locations that begin with its own; what a step says of the value at a
location, and the tasks that it leaves on the way there, come to no more than the step's own
task (`said_add_due_expand_le`). Three tasks with different keys begin a walk. So a walk says
one thing of a value at most, that it is a pattern or that it should be something else
(`said_run_le`), and it finds one pattern at a location at most (`nodup_locations`).

Two things could bring two nodes to one location. A key could come twice in an object; trees
of descriptions are not so. And an operation is located by its method and not by its key, so
no path item may name a method twice, in two spellings of it (`MethodsDistinct`).
-/
import Mathlib.Algebra.GroupWithZero.Nat
import Mathlib.Data.List.Nodup
import Std.Data.String.ToNat
import PatternAudit.Description
import PatternAudit.Proofs.Walk.Located
import PatternAudit.Proofs.Walk.Regions

set_option autoImplicit false

namespace PatternAudit

/-! ## Distinct keys on a descent -/

theorem Pointer.keysDistinct_child? {node below : Json} {segment : List Char}
    (h : node.keysDistinct = true) (hchild : child? node segment = some below) :
    below.keysDistinct = true := by
  cases node with
  | obj ms => exact (Json.keysDistinct_obj.1 h).2 _ (Json.mem_of_lookup_eq_some hchild)
  | arr vs =>
    obtain ⟨i, -, hi⟩ := Option.bind_eq_some_iff.1 hchild
    exact Json.keysDistinct_arr.1 h _ (List.mem_of_getElem? hi)
  | _ => cases hchild

theorem Pointer.keysDistinct_follow? {node last : Json} {segments : List (List Char)}
    (h : node.keysDistinct = true) (hfollow : follow? node segments = some last) :
    last.keysDistinct = true := by
  induction segments generalizing node with
  | nil =>
    cases hfollow
    exact h
  | cons segment rest ih =>
    obtain ⟨below, hchild, hrest⟩ := Option.bind_eq_some_iff.1 hfollow
    exact ih (keysDistinct_child? h hchild) hrest

/-- What a reference names is part of the tree. -/
theorem Pointer.keysDistinct_resolveRef? {root node : Json} {reference : String}
    (h : root.keysDistinct = true) (hnode : resolveRef? root reference = some node) :
    node.keysDistinct = true := by
  rw [resolveRef?_eq] at hnode
  obtain ⟨segments, -, hfollow⟩ := Option.bind_eq_some_iff.1 hnode
  exact keysDistinct_follow? h hfollow

namespace Walk

theorem Child.keysDistinct {p q : Place} {v below : Json} {key : String}
    (h : v.keysDistinct = true) (hchild : Child p v key q below) :
    below.keysDistinct = true := by
  cases hchild with
  | member _ hv => exact Json.keysDistinct_get? h hv
  | tuple hv => exact Json.keysDistinct_get? h hv
  | items hv => exact Json.keysDistinct_get? h hv
  | additional hv => exact Json.keysDistinct_get? h hv
  | method hmem => exact (Json.keysDistinct_obj.1 h).2 _ hmem
  | entry _ hmem => exact (Json.keysDistinct_obj.1 h).2 _ hmem
  | element _ hi => exact Json.keysDistinct_arr.1 h _ (List.mem_of_getElem? hi)

theorem Trail.keysDistinct {w : Walker} {segs : List String} {p : Place} {v : Json}
    {refs : List String} (hroot : w.root.keysDistinct = true) (h : Trail w segs p v refs) :
    v.keysDistinct = true := by
  induction h with
  | root => exact hroot
  | hop _ _ _ _ _ hnext => exact Pointer.keysDistinct_resolveRef? hroot hnext
  | child _ _ hchild ih => exact hchild.keysDistinct ih

/-! ## Methods -/

/-- Whether no path item of a document that is read has two keys for one method. -/
def MethodsDistinct (doc : Json) : Prop :=
  ∀ segs ms, Descent doc segs .pathItem (.obj ms) → Place.pathItem.Reads (.obj ms) →
    ∀ key ∈ ms.map Prod.fst, ∀ other ∈ ms.map Prod.fst, ∀ method,
      methodOf? key = some method → methodOf? other = some method → key = other

/-- The methods that the keys of members name. -/
def namedMethods (ms : List (String × Json)) : List String := (ms.map Prod.fst).filterMap methodOf?

/-- Different keys for different methods: no method is named twice. -/
theorem nodup_namedMethods_iff {ms : List (String × Json)} (hkeys : (ms.map Prod.fst).Nodup) :
    (namedMethods ms).Nodup ↔ ∀ key ∈ ms.map Prod.fst, ∀ other ∈ ms.map Prod.fst, ∀ method,
      methodOf? key = some method → methodOf? other = some method → key = other := by
  rw [namedMethods, List.Nodup, List.pairwise_filterMap]
  constructor
  · intro h key hkey other hother
    have hsame : (ms.map Prod.fst).Pairwise fun key other => ∀ method,
        methodOf? key = some method → methodOf? other = some method → key = other :=
      h.imp fun hne method hkey hother => absurd rfl (hne method hkey method hother)
    have hflip : (ms.map Prod.fst).Pairwise fun other key => ∀ method,
        methodOf? key = some method → methodOf? other = some method → key = other :=
      h.imp fun hne method hkey hother => absurd rfl (hne method hother method hkey)
    exact List.Pairwise.forall_of_forall_of_flip (fun _ _ _ _ _ => rfl) hsame hflip hkey hother
  · intro h
    refine hkeys.imp_of_mem ?_
    rintro key other hkey hother hne method hmethod _ hsame rfl
    exact hne (h key hkey other hother method hmethod hsame)

theorem parameters_not_mem_namedMethods (ms : List (String × Json)) :
    "parameters" ∉ namedMethods ms := by
  intro hmem
  obtain ⟨key, -, hkey⟩ := List.mem_filterMap.1 hmem
  exact absurd (methodOf?_eq_some_iff.1 hkey).1 (by decide)

/-- The map of paths is a member of the root. -/
theorem Child.of_paths {p : Place} {v below : Json} {key : String}
    (h : Child p v key .paths below) : p = .root ∧ v.get? "paths" = some below := by
  cases h with
  | member hmember hv =>
    have hall : ∀ m ∈ p.members, m.2 = .paths → p = .root ∧ m.1 = "paths" := by
      cases p <;> decide
    obtain ⟨hplace, hkey⟩ := hall _ hmember rfl
    cases hkey
    exact ⟨hplace, hv⟩
  | entry hplace => cases p <;> cases hplace
  | element hplace => cases p <;> cases hplace

/-- Path items are members of the map of paths. -/
theorem Child.of_pathItem {p : Place} {v below : Json} {key : String}
    (h : Child p v key .pathItem below) : p = .paths ∧ ∃ ms, v = .obj ms ∧ (key, below) ∈ ms := by
  cases h with
  | member hmember =>
    have hall : ∀ m ∈ p.members, m.2 ≠ .pathItem := by cases p <;> decide
    exact absurd rfl (hall _ hmember)
  | entry hplace hmem =>
    refine ⟨?_, _, rfl, hmem⟩
    cases p <;> first | rfl | cases hplace
  | element hplace => cases p <;> cases hplace

/-- No step leads back to the root. -/
theorem Child.ne_root {p q : Place} {v below : Json} {key : String}
    (h : Child p v key q below) : q ≠ .root := by
  rintro rfl
  cases h with
  | member hmember =>
    have hall : ∀ m ∈ p.members, m.2 ≠ .root := by cases p <;> decide
    exact absurd rfl (hall _ hmember)
  | entry hplace => cases p <;> cases hplace
  | element hplace => cases p <;> cases hplace

/-- Where no path item is a reference, there are no others than the members of the map. -/
theorem mem_of_descent_pathItem {doc v : Json} {items : List (String × Json)} {segs : List String}
    (hpaths : doc.get? "paths" = some (.obj items)) (hnone : ∀ m ∈ items, target? m.2 = none)
    (h : Descent doc segs .pathItem v) : ∃ key, (key, v) ∈ items := by
  have hplaces : ∀ {segs p v}, Descent doc segs p v → (p = .root → v = doc) ∧
      (p = .paths → v = .obj items) ∧ (p = .pathItem → ∃ key, (key, v) ∈ items) := by
    intro segs p v h
    induction h with
    | root => exact ⟨fun _ => rfl, by simp, by simp⟩
    | hop _ hrefers htarget _ ih =>
      refine ⟨?_, ?_, ?_⟩
      · rintro rfl
        cases hrefers
      · rintro rfl
        cases hrefers
      · intro hplace
        obtain ⟨key, hmem⟩ := ih.2.2 hplace
        have htarget' := hnone _ hmem
        rw [htarget] at htarget'
        cases htarget'
    | child _ _ hchild ih =>
      refine ⟨fun hplace => absurd hplace hchild.ne_root, ?_, ?_⟩
      · rintro rfl
        obtain ⟨hroot, hget⟩ := hchild.of_paths
        rw [ih.1 hroot, hpaths] at hget
        exact (Option.some.inj hget).symm
      · rintro rfl
        obtain ⟨hplace, ms, rfl, hmem⟩ := hchild.of_pathItem
        cases ih.2.1 hplace
        exact ⟨_, hmem⟩
  exact (hplaces h).2.2 rfl

/-- Where no path item is a reference, one looks for methods at the members of the map. -/
theorem methodsDistinct_of_members {doc : Json} {items : List (String × Json)}
    (hdoc : doc.keysDistinct = true) (hpaths : doc.get? "paths" = some (.obj items))
    (hnone : ∀ m ∈ items, target? m.2 = none)
    (h : ∀ m ∈ items, ∀ ms, m.2 = .obj ms → (namedMethods ms).Nodup) : MethodsDistinct doc := by
  intro segs ms hdescent _
  obtain ⟨key, hmem⟩ := mem_of_descent_pathItem hpaths hnone hdescent
  have hitems : (Json.obj items).keysDistinct = true := Json.keysDistinct_get? hdoc hpaths
  have hitem : (Json.obj ms).keysDistinct = true := (Json.keysDistinct_obj.1 hitems).2 _ hmem
  exact (nodup_namedMethods_iff (Json.keysDistinct_obj.1 hitem).1).1 (h _ hmem ms rfl)

/-! ## On the way -/

theorem segments_below {key : String} (h : Pointer.escape key = key) (location : String) :
    Pointer.segments (below location key) = Pointer.segments location ++ [key] := by
  rw [← segments_belowKey, belowKey, h]

/-- Whether a diagnostic is about a value, and not about a reference or a limit. -/
def Skip.isMisfit : Skip → Bool
  | .expected _ | .notASchema _ | .patternNotString => true
  | _ => false

/-- Whether an item is the diagnostic of a value. -/
def Item.isMisfit : Item → Bool
  | .skipped _ why => why.isMisfit
  | _ => false

section OnWay

variable (target : List String)

/-- Whether keys lie on the way to a target, as a number. -/
def onWay (keys : List String) : Nat := if keys <+: target then 1 else 0

theorem onWay_append_le (keys rest : List String) :
    onWay target (keys ++ rest) ≤ onWay target keys := by
  unfold onWay
  by_cases h : keys ++ rest <+: target
  · have hkeys : keys <+: target := (List.prefix_append keys rest).trans h
    simp only [h, hkeys, if_true, Nat.le_refl]
  · rw [if_neg h]
    exact Nat.zero_le _

/-- How many of several next keys are on the way. -/
def ahead (keys ks : List String) : Nat := (ks.map fun k => onWay target (keys ++ [k])).sum

@[simp] theorem ahead_nil (keys : List String) : ahead target keys [] = 0 := rfl

@[simp] theorem ahead_cons (keys : List String) (k : String) (ks : List String) :
    ahead target keys (k :: ks) = onWay target (keys ++ [k]) + ahead target keys ks := rfl

/-- **The way goes one way.** Keys that lie on the way to a target are the target, or lead on
with one of several keys. -/
theorem here_add_ahead_le (keys : List String) {ks : List String} (h : ks.Nodup) :
    (if keys = target then 1 else 0) + ahead target keys ks ≤ onWay target keys := by
  by_cases hway : keys <+: target
  · obtain ⟨rest, rfl⟩ := hway
    have hself : onWay (keys ++ rest) keys = 1 := if_pos (List.prefix_append keys rest)
    have hnext : ∀ k, onWay (keys ++ rest) (keys ++ [k]) = if [k] <+: rest then 1 else 0 := by
      intro k
      rw [onWay]
      simp only [List.prefix_append_right_inj]
    rw [hself]
    cases rest with
    | nil =>
      have hzero : ahead (keys ++ []) keys ks = 0 := by
        simp only [ahead, hnext]
        simp
      have hhere : (if keys = keys ++ [] then 1 else 0) ≤ 1 := by split <;> omega
      rw [hzero]
      exact hhere
    | cons next rest =>
      -- what is ahead counts how often the next key comes
      have hcount : ahead (keys ++ next :: rest) keys ks = ks.count next := by
        clear h
        induction ks with
        | nil => rfl
        | cons k ks ih =>
          rw [ahead_cons, hnext, ih, List.count_cons, Nat.add_comm]
          by_cases hk : k = next <;> simp [hk]
      have hne : keys ≠ keys ++ next :: rest := by simp
      rw [if_neg hne, hcount, Nat.zero_add]
      exact List.nodup_iff_count_le_one.1 h next
  · -- off the way, everything further down is off the way, too
    have hne : keys ≠ target := fun heq => hway (heq ▸ List.prefix_rfl)
    have hzero : ∀ k, onWay target (keys ++ [k]) = 0 := by
      intro k
      exact if_neg fun hle => hway ((List.prefix_append keys [k]).trans hle)
    simp [ahead, hne, hzero]

theorem ahead_le (keys : List String) {ks : List String} (h : ks.Nodup) :
    ahead target keys ks ≤ onWay target keys :=
  Nat.le_trans (Nat.le_add_left _ _) (here_add_ahead_le target keys h)

theorem here_le (keys : List String) : (if keys = target then 1 else 0) ≤ onWay target keys :=
  here_add_ahead_le target keys List.nodup_nil

/-- How many of some tasks lie on the way to a target. -/
def due (ts : List Task) : Nat := (ts.map fun t => onWay target (Pointer.segments t.location)).sum

/-- How many patterns there are at a target. -/
def met (items : List Item) : Nat :=
  items.countP fun i => i.isPattern && decide (Pointer.segments i.location = target)

/-- How much is said of the value at a target: the pattern that it is, or what it is not. -/
def said (items : List Item) : Nat :=
  items.countP fun i => (i.isPattern || i.isMisfit) && decide (Pointer.segments i.location = target)

theorem due_append (a b : List Task) : due target (a ++ b) = due target a + due target b := by
  rw [due, List.map_append, List.sum_append_nat]
  rfl

theorem due_cons (t : Task) (ts : List Task) :
    due target (t :: ts) = onWay target (Pointer.segments t.location) + due target ts := rfl

theorem said_append (a b : List Item) : said target (a ++ b) = said target a + said target b :=
  List.countP_append

theorem met_le_said (items : List Item) : met target items ≤ said target items := by
  refine List.countP_mono_left fun i _ hi => ?_
  rw [Bool.and_eq_true] at hi ⊢
  exact ⟨Bool.or_eq_true_iff.2 (.inl hi.1), hi.2⟩

theorem said_of_quiet {items : List Item} (h : ∀ i ∈ items, (i.isPattern || i.isMisfit) = false) :
    said target items = 0 := by
  refine List.countP_eq_zero.2 fun i hi => ?_
  rw [h i hi]
  exact Bool.false_ne_true

/-- One item says at most one thing, and says it where it was found. -/
theorem said_singleton_le (i : Item) :
    said target [i] ≤ if Pointer.segments i.location = target then 1 else 0 := by
  by_cases hhere : Pointer.segments i.location = target
  · rw [if_pos hhere]
    exact List.countP_le_length
  · simp [said, hhere]

theorem said_patternAt_le (location : String) (v : Option Json) :
    said target (patternAt location v) ≤ if Pointer.segments location = target then 1 else 0 := by
  unfold patternAt
  split
  · exact said_singleton_le target _
  · exact said_singleton_le target _
  · exact Nat.zero_le _

theorem said_skip_le (location : String) (why : Skip) :
    said target (Yield.skip location why).items ≤ onWay target (Pointer.segments location) :=
  Nat.le_trans (said_singleton_le target _) (here_le target _)

/-! ## Slots -/

theorem due_itemTasks_le (role : Role) (location : String) (i : Nat) (vs : List Json) :
    due target (itemTasks role location i vs) ≤ onWay target (Pointer.segments location) := by
  have hsum : due target (itemTasks role location i vs)
      = ahead target (Pointer.segments location) ((List.range' i vs.length).map toString) := by
    induction vs generalizing i with
    | nil => rfl
    | cons v vs ih =>
      rw [itemTasks, due_cons, ih, List.length_cons, List.range'_succ, List.map_cons, ahead_cons,
        segments_below (Pointer.escape_toString i)]
  have hnodup : ((List.range' i vs.length).map (toString : Nat → String)).Nodup :=
    List.Nodup.map (fun a b h => Nat.repr_injective h) List.nodup_range'
  rw [hsum]
  exact ahead_le target _ hnodup

theorem due_memberTasks_le (role : Role) (location : String) {ms : List (String × Json)}
    (hkeys : (ms.map Prod.fst).Nodup) :
    due target (memberTasks role location ms) ≤ onWay target (Pointer.segments location) := by
  have hsum : due target (memberTasks role location ms)
      = ahead target (Pointer.segments location) (ms.map Prod.fst) := by
    rw [due, ahead, memberTasks, List.map_map, List.map_map]
    simp only [Function.comp_def, segments_belowKey]
  rw [hsum]
  exact ahead_le target _ hkeys

theorem said_add_due_mediaSchemas_le (role : Role) (location : String) {ms : List (String × Json)}
    (hkeys : (ms.map Prod.fst).Nodup) :
    said target (mediaSchemas role location ms).items
        + due target (mediaSchemas role location ms).tasks
      ≤ onWay target (Pointer.segments location) := by
  have hone : ∀ here media, said target (mediaSchema role here media).items
      + due target (mediaSchema role here media).tasks ≤ onWay target (Pointer.segments here) := by
    intro here media
    unfold mediaSchema
    split
    · split
      · rw [due_cons, segments_below (by decide)]
        show 0 + (_ + 0) ≤ _
        rw [Nat.zero_add, Nat.add_zero]
        exact onWay_append_le target _ _
      · exact Nat.zero_le _
    · exact said_skip_le target here _
  have hsum : said target (mediaSchemas role location ms).items
        + due target (mediaSchemas role location ms).tasks
      ≤ ahead target (Pointer.segments location) (ms.map Prod.fst) := by
    clear hkeys
    induction ms with
    | nil => exact Nat.le_refl 0
    | cons m ms ih =>
      have hfirst := hone (belowKey location m.1) m.2
      rw [segments_belowKey] at hfirst
      rw [mediaSchemas, Yield.items_append, Yield.tasks_append, said_append, due_append,
        List.map_cons, ahead_cons]
      omega
  exact Nat.le_trans hsum (ahead_le target _ hkeys)

/-- A value that has not the type of its slot yields a diagnostic and no tasks. -/
theorem said_add_due_spread_le (s : Spread) (role : Role) (location : String) {v : Json}
    (h : v.keysDistinct = true) :
    said target (s.at role location v).items + due target (s.at role location v).tasks
      ≤ onWay target (Pointer.segments location) := by
  have hself : said target [] + due target [⟨role, v, location⟩]
      ≤ onWay target (Pointer.segments location) := Nat.le_of_eq (Nat.zero_add _)
  have htasks : ∀ {ts}, due target ts ≤ onWay target (Pointer.segments location) →
      said target [] + due target ts ≤ onWay target (Pointer.segments location) :=
    fun h => Nat.le_trans (Nat.le_of_eq (Nat.zero_add _)) h
  have hskip : ∀ why, said target (Yield.skip location why).items + due target []
      ≤ onWay target (Pointer.segments location) := said_skip_le target location
  unfold Spread.at
  cases s with
  | one => exact hself
  | oneObject => cases v <;> first | exact hself | exact Nat.zero_le _
  | list what =>
    cases v with
    | arr vs => exact htasks (due_itemTasks_le target role location 0 vs)
    | _ => exact hskip _
  | listOrOne =>
    cases v with
    | arr vs => exact htasks (due_itemTasks_le target role location 0 vs)
    | _ => exact hself
  | map what =>
    cases v with
    | obj ms => exact htasks (due_memberTasks_le target role location (Json.keysDistinct_obj.1 h).1)
    | _ => exact hskip _
  | mediaTypes =>
    cases v with
    | obj ms => exact said_add_due_mediaSchemas_le target role location (Json.keysDistinct_obj.1 h).1
    | _ => exact hskip _

/-- Each slot of a table is charged to its own key. -/
theorem said_add_due_slots_le (location : String) {ms : List (String × Json)} {slots : List Slot}
    (h : (Json.obj ms).keysDistinct = true)
    (hslots : ∀ slot ∈ slots, Pointer.escape slot.key = slot.key) :
    said target (spreadSlots location ms slots).items
        + due target (spreadSlots location ms slots).tasks
      ≤ ahead target (Pointer.segments location) (slots.map (·.key)) := by
  induction slots with
  | nil => exact Nat.le_refl 0
  | cons slot slots ih =>
    obtain ⟨hkey, hothers⟩ := List.forall_mem_cons.1 hslots
    have hrest := ih hothers
    have hfirst : said target (slot.yield location ms).items
        + due target (slot.yield location ms).tasks
          ≤ onWay target (Pointer.segments location ++ [slot.key]) := by
      unfold Slot.yield
      cases hlookup : Json.lookup slot.key ms with
      | none => exact Nat.zero_le _
      | some v =>
        have hv : v.keysDistinct = true := Json.keysDistinct_get? (v := .obj ms) h hlookup
        rw [← segments_below hkey]
        exact said_add_due_spread_le target slot.spread slot.role (below location slot.key) hv
    rw [spreadSlots, Yield.items_append, Yield.tasks_append, said_append, due_append,
      List.map_cons, ahead_cons]
    omega

/-! ## Objects -/

theorem due_operationTasks (template location : String) (ms : List (String × Json)) :
    due target (operationTasks template location ms)
      = ahead target (Pointer.segments location) (namedMethods ms) := by
  induction ms with
  | nil => rfl
  | cons m ms ih =>
    rw [operationTasks, namedMethods, List.map_cons, List.filterMap_cons]
    cases hmethod : methodOf? m.1 with
    | none => exact ih
    | some method =>
      have hescape := escape_method (methodOf?_eq_some_iff.1 hmethod).1
      show due target (_ :: _) = ahead target _ (_ :: _)
      rw [due_cons, ahead_cons, ih, segments_below hescape]
      rfl

/-- Where a pattern is a node's own, it and the slots of the node are charged to the node. -/
theorem said_add_due_own_le {p : Place} {refs : List String} (location : String)
    {ms : List (String × Json)} {slots : List Slot} (h : (Json.obj ms).keysDistinct = true)
    (hslots : ∀ slot ∈ slots, slot.Sound p refs) (distinct : (slots.map (·.key)).Nodup)
    (v : Option Json) :
    said target ((spreadSlots location ms slots).own (patternAt location v)).items
        + due target ((spreadSlots location ms slots).own (patternAt location v)).tasks
      ≤ onWay target (Pointer.segments location) := by
  have hown := said_patternAt_le target location v
  have hbelow := said_add_due_slots_le target location h fun slot hslot =>
    (hslots slot hslot).escape_key
  have hall := here_add_ahead_le target (Pointer.segments location) distinct
  rw [Yield.items_own, Yield.tasks_own, said_append]
  omega

/-- A table alone is charged to the node. -/
theorem said_add_due_table_le {p : Place} {refs : List String} (location : String)
    {ms : List (String × Json)} {slots : List Slot} (h : (Json.obj ms).keysDistinct = true)
    (hslots : ∀ slot ∈ slots, slot.Sound p refs) (distinct : (slots.map (·.key)).Nodup) :
    said target (spreadSlots location ms slots).items
        + due target (spreadSlots location ms slots).tasks
      ≤ onWay target (Pointer.segments location) :=
  Nat.le_trans
    (said_add_due_slots_le target location h fun slot hslot => (hslots slot hslot).escape_key)
    (ahead_le target _ distinct)

theorem said_definitions (location : String) (ms : List (String × Json)) (refs : List String) :
    said target (Role.definitions.yield location ms refs).items = 0 := by
  refine said_of_quiet target fun i hi => ?_
  obtain ⟨⟨name, v⟩, -, hi⟩ := List.mem_flatMap.1 hi
  cases v with
  | obj ms => exact List.mem_singleton.1 hi ▸ rfl
  | _ => exact absurd hi List.not_mem_nil

theorem said_paths (location : String) (ms : List (String × Json)) (refs : List String) :
    said target (Role.paths.yield location ms refs).items = 0 := by
  refine said_of_quiet target fun i hi => ?_
  obtain ⟨m, -, rfl⟩ := List.mem_map.1 hi
  rfl

theorem due_paths (location : String) (ms : List (String × Json)) (refs : List String) :
    due target (Role.paths.yield location ms refs).tasks
      = ahead target (Pointer.segments location)
          ((ms.filter fun m => !isExtension m.1).map Prod.fst) := by
  rw [due, ahead, Role.yield, List.map_map, List.map_map]
  simp only [Function.comp_def, segments_belowKey]

/-- A path item is charged its parameters and its methods. -/
theorem said_add_due_pathItem_le (template location : String) {ms : List (String × Json)}
    (refs : List String) (h : (Json.obj ms).keysDistinct = true)
    (hmethods : (namedMethods ms).Nodup) :
    said target ((Role.pathItem template).yield location ms refs).items
        + due target ((Role.pathItem template).yield location ms refs).tasks
      ≤ onWay target (Pointer.segments location) := by
  have hparameters := said_add_due_slots_le target location h
    (show ∀ slot ∈ [parametersSlot], Pointer.escape slot.key = slot.key by decide)
  have hall := ahead_le target (Pointer.segments location)
    (List.nodup_cons.2 ⟨parameters_not_mem_namedMethods ms, hmethods⟩)
  have hquiet : said target (Yield.mk [] (operationTasks template location ms)).items = 0 := rfl
  rw [Role.yield, Yield.items_append, Yield.tasks_append, said_append, due_append, hquiet,
    due_operationTasks]
  simp only [List.map_cons, List.map_nil, ahead_cons, ahead_nil, parametersSlot]
    at hparameters hall
  simp only [parametersSlot]
  omega

/-- What an object yields is charged to it. A response has its headers besides, so it leaves
free what they are charged. -/
theorem said_add_due_yield_le (role : Role) (location : String) {ms : List (String × Json)}
    (refs : List String) (h : (Json.obj ms).keysDistinct = true)
    (hmethods : role.place = .pathItem → (namedMethods ms).Nodup) :
    said target (role.yield location ms refs).items + due target (role.yield location ms refs).tasks
        + (if role = .response then onWay target (Pointer.segments location ++ ["headers"]) else 0)
      ≤ onWay target (Pointer.segments location) := by
  have hkeys := (Json.keysDistinct_obj.1 h).1
  cases role with
  | definitions =>
    have hbelow := due_memberTasks_le target (.schema 0 []) location hkeys
    rw [said_definitions, if_neg (by decide), Nat.zero_add]
    exact hbelow
  | paths =>
    have hpaths : ((ms.filter fun m => !isExtension m.1).map Prod.fst).Nodup :=
      hkeys.sublist (List.filter_sublist.map Prod.fst)
    rw [said_paths, due_paths, if_neg (by decide), Nat.zero_add]
    exact ahead_le target _ hpaths
  | pathItem template =>
    rw [if_neg (by simp)]
    exact said_add_due_pathItem_le target template location refs h (hmethods rfl)
  | operation template method =>
    have hbelow := said_add_due_table_le target location h operationSlots_sound (by decide)
    have hown : said target [.operation ⟨location, template, method,
        nonBlank (Json.lookup "operationId" ms), nonBlank (Json.lookup "summary" ms)⟩] = 0 := rfl
    rw [Role.yield, Yield.items_own, Yield.tasks_own, said_append, hown, if_neg (by simp)]
    omega
  | parameter =>
    rw [Role.yield, if_neg (by simp)]
    exact said_add_due_own_le target location h (parameterSlots_sound refs)
      (by simp [parameterSlots]) _
  | requestBody =>
    have hbelow := said_add_due_table_le target location h (requestBodySlots_sound refs)
      (by simp [requestBodySlots])
    rw [Role.yield, if_neg (by simp)]
    exact hbelow
  | response =>
    have hbelow := said_add_due_slots_le target location h fun slot hslot =>
      (responseSlots_sound refs slot hslot).escape_key
    have hall := ahead_le target (Pointer.segments location)
      (show ["content", "schema", "headers"].Nodup by decide)
    simp only [responseSlots, List.map_cons, List.map_nil, ahead_cons, ahead_nil] at hbelow hall
    rw [Role.yield, if_pos rfl]
    simp only [responseSlots]
    omega
  | schema depth rs =>
    rw [Role.yield, if_neg (by simp)]
    exact said_add_due_own_le target location h (schemaSlots_sound (depth + 1) refs)
      (by simp [schemaSlots]) _

/-! ## Headers -/

theorem said_add_due_headerYield_le (location : String)
    (result : Except Skip (Json × List String)) :
    said target (headerYield location result).items + due target (headerYield location result).tasks
      ≤ onWay target (Pointer.segments location) := by
  rcases result with why | ⟨node, refs⟩
  · exact said_skip_le target location why
  · have hown := said_patternAt_le target location (node.get? "pattern")
    have hall := here_add_ahead_le target (Pointer.segments location)
      (show ["schema"].Nodup by decide)
    have hbelow : due target (headerYield location (.ok (node, refs))).tasks
        ≤ onWay target (Pointer.segments location ++ ["schema"]) := by
      rw [← segments_below (by decide)]
      cases hschema : node.get? "schema" with
      | none =>
        simp only [headerYield, hschema]
        exact Nat.zero_le _
      | some v =>
        simp only [headerYield, hschema]
        exact Nat.le_refl _
    simp only [ahead_cons, ahead_nil] at hall
    show said target (patternAt location (node.get? "pattern")) + _ ≤ _
    omega

/-- Headers are charged to their map. -/
theorem said_add_due_headers_le (w : Walker) (location : String) (refs : List String) (n : Nat)
    {hs : List (String × Json)} (hkeys : (hs.map Prod.fst).Nodup) :
    said target (headers w location refs n hs).items
        + due target (headers w location refs n hs).tasks
      ≤ onWay target (Pointer.segments location) := by
  have hsum : said target (headers w location refs n hs).items
        + due target (headers w location refs n hs).tasks
      ≤ ahead target (Pointer.segments location) (hs.map Prod.fst) := by
    clear hkeys
    induction hs generalizing n with
    | nil => exact Nat.le_refl 0
    | cons h hs ih =>
      obtain ⟨name, header⟩ := h
      have hfirst := said_add_due_headerYield_le target (belowKey location name)
        (follow w n header refs).1
      have hothers := ih (follow w n header refs).2
      rw [segments_belowKey] at hfirst
      simp only [headers, Yield.before, said_append, due_append, List.map_cons, ahead_cons]
      omega
  exact Nat.le_trans hsum (ahead_le target _ hkeys)

/-! ## Steps -/

theorem said_add_due_readObject_le (w : Walker) (role : Role) (location : String)
    {ms : List (String × Json)} (refs : List String) (n : Nat)
    (h : (Json.obj ms).keysDistinct = true)
    (hmethods : role.place = .pathItem → (namedMethods ms).Nodup) :
    said target (readObject w role location ms refs n).items
        + due target (readObject w role location ms refs n).tasks
      ≤ onWay target (Pointer.segments location) := by
  have hyield := said_add_due_yield_le target role location refs h hmethods
  simp only [readObject, Yield.before, said_append, due_append]
  unfold Role.headers
  split
  · rename_i hs hlookup
    have hmap : (Json.obj hs).keysDistinct = true := Json.keysDistinct_get? (v := .obj ms) h hlookup
    have hheaders := said_add_due_headers_le target w (below location "headers") refs n
      (Json.keysDistinct_obj.1 hmap).1
    rw [segments_below (by decide)] at hheaders
    rw [if_pos rfl] at hyield
    omega
  · simp only [Yield.keeping, Yield.nothing]
    show _ + 0 + (_ + 0) ≤ _
    omega

/-- **The charge of a step.** What a step says of a target, and the tasks that it leaves on
the way there, are no more than the task of the step. -/
theorem said_add_due_expand_le {w : Walker} (hroot : w.root.keysDistinct = true)
    (hmethods : MethodsDistinct w.root) (n : Nat) {t : Task} (h : t.OnTrail w) :
    said target (expand w n t).items + due target (expand w n t).tasks
      ≤ onWay target (Pointer.segments t.location) := by
  obtain ⟨segs, -, htrail⟩ := h
  have hskip : ∀ why m, said target ((Yield.skip t.location why).keeping m).items
      + due target ((Yield.skip t.location why).keeping m).tasks
        ≤ onWay target (Pointer.segments t.location) :=
    fun why _ => said_skip_le target t.location why
  unfold expand
  split
  · rename_i y hbarred
    rcases barred?_eq_some hbarred with ⟨_, _, _, _, rfl⟩ | ⟨_, _, _, _, _, rfl⟩
    · exact hskip ..
    · exact Nat.zero_le _
  · rcases hlanding : landing w n t with ⟨result, m⟩
    rcases result with why | ⟨node, refs⟩
    · exact hskip ..
    · obtain ⟨hnode, hreads, -⟩ := landing_onTrail htrail hlanding
      have hdistinct := hnode.keysDistinct hroot
      cases node with
      | obj ms =>
        have hkeys := (Json.keysDistinct_obj.1 hdistinct).1
        refine said_add_due_readObject_le target w t.role t.location refs m hdistinct ?_
        intro hplace
        rw [hplace] at hnode hreads
        exact (nodup_namedMethods_iff hkeys).2 (hmethods segs ms hnode.descent hreads)
      | _ => exact hskip ..

/-! ## Walks -/

/-- The charge of a visit. -/
theorem said_visitNodes_le {w : Walker} (hroot : w.root.keysDistinct = true)
    (hmethods : MethodsDistinct w.root) (n : Nat) (ts : List Task) (h : ∀ t ∈ ts, t.OnTrail w) :
    said target (visitNodes w n ts).1.items ≤ due target ts := by
  induction n, ts using visitNodes_induction (w := w) with
  | nil n =>
    rw [visitNodes_nil]
    exact Nat.le_refl 0
  | cons n t rest ihbelow ihothers =>
    obtain ⟨ht, hrest⟩ := List.forall_mem_cons.1 h
    have hstep := said_add_due_expand_le target hroot hmethods n ht
    have hbelow := ihbelow (expand_keeps n ht).onTrail
    have hothers := ihothers hrest
    rw [visitNodes_cons, due_cons]
    simp only [said_append]
    omega

/-- Of the tasks that a walk sets out with, one is on the way. -/
theorem due_rootTasks_le (w : Walker) : due target (rootTasks w) ≤ 1 := by
  have hroot : ∀ role location v, due target (rootTask role location v)
      ≤ onWay target (Pointer.segments location) := by
    intro role location v
    cases v <;> simp [rootTask, due]
  have hschemas : Pointer.segments "#/components/schemas"
      = ["#"] ++ ["components"] ++ ["schemas"] := by decide +kernel
  have hdefinitions : Pointer.segments "#/definitions" = ["#"] ++ ["definitions"] := by
    decide +kernel
  have hpaths : Pointer.segments "#/paths" = ["#"] ++ ["paths"] := by decide +kernel
  have h₁ := hroot .definitions "#/components/schemas"
    ((w.root.get? "components").bind (·.get? "schemas"))
  have h₂ := hroot .definitions "#/definitions" (w.root.get? "definitions")
  have h₃ := hroot .paths "#/paths" (w.root.get? "paths")
  rw [hschemas] at h₁
  rw [hdefinitions] at h₂
  rw [hpaths] at h₃
  have hinner := onWay_append_le target (["#"] ++ ["components"]) ["schemas"]
  have hall := ahead_le target ["#"]
    (show ["components", "definitions", "paths"].Nodup by decide)
  have hone : onWay target ["#"] ≤ 1 := by
    unfold onWay
    split <;> omega
  simp only [ahead_cons, ahead_nil] at hall
  rw [rootTasks, due_append, due_append]
  omega

end OnWay

/-- **A walk says one thing of a value at most**: that it is a pattern, or that it should be
something else. -/
theorem said_run_le (target : List String) {w : Walker} (hroot : w.root.keysDistinct = true)
    (hmethods : MethodsDistinct w.root) : said target (run w) ≤ 1 := by
  rw [run_eq_visit]
  exact Nat.le_trans
    (said_visitNodes_le target hroot hmethods 0 (rootTasks w) (rootTasks_onTrail w))
    (due_rootTasks_le target w)

/-- At most one pattern of a walk is found at a target. -/
theorem met_run_le (target : List String) {w : Walker} (hroot : w.root.keysDistinct = true)
    (hmethods : MethodsDistinct w.root) : met target (run w) ≤ 1 :=
  Nat.le_trans (met_le_said target _) (said_run_le target hroot hmethods)

/-- No two patterns have locations with the same keys. -/
theorem nodup_segments {w : Walker} (hroot : w.root.keysDistinct = true)
    (hmethods : MethodsDistinct w.root) :
    ((patterns w).map fun found => Pointer.segments found.1).Nodup := by
  refine List.nodup_iff_count_le_one.2 fun target => ?_
  refine Nat.le_trans ?_ (met_run_le target hroot hmethods)
  rw [patterns, List.map_filterMap, List.count, List.countP_filterMap, met]
  refine List.countP_mono_left fun i _ hi => ?_
  cases i with
  | pattern location p =>
    have hsame : Pointer.segments location = target := by simpa [Item.pattern?] using hi
    simp [Item.isPattern, Item.pattern?, Item.location, hsame]
  | _ => simp [Item.pattern?] at hi

/-- **No two patterns at one location.** -/
theorem nodup_locations {w : Walker} (hroot : w.root.keysDistinct = true)
    (hmethods : MethodsDistinct w.root) : ((patterns w).map Prod.fst).Nodup := by
  have hkeys := nodup_segments hroot hmethods
  rw [← Function.comp_def Pointer.segments Prod.fst, ← List.map_map] at hkeys
  exact hkeys.of_map

/-- **One location for each pattern.** Where no path item has two keys for one method, any two
patterns that a walk finds have different locations, whatever the keys of the document are and
however references multiply its nodes. The locations differ in their keys, not only in how
these are written. -/
theorem pairwise_locations_ne (d : Description) (l : Limits) (hmethods : MethodsDistinct d.root) :
    ((run ⟨d.root, l⟩).filter Item.isPattern).Pairwise fun i j =>
      i.location ≠ j.location ∧ Pointer.segments i.location ≠ Pointer.segments j.location := by
  have hkeys := nodup_segments (w := ⟨d.root, l⟩) d.distinct hmethods
  rw [patterns, List.Nodup, List.pairwise_map, List.pairwise_filterMap] at hkeys
  rw [List.pairwise_filter]
  refine hkeys.imp fun {i j} hne hi hj => ?_
  obtain ⟨found, hfound⟩ := Option.isSome_iff_exists.1 hi
  obtain ⟨found', hfound'⟩ := Option.isSome_iff_exists.1 hj
  have hsegments : Pointer.segments i.location ≠ Pointer.segments j.location := by
    rw [Item.location_of_pattern? hfound, Item.location_of_pattern? hfound']
    exact hne found hfound found' hfound'
  exact ⟨fun hsame => hsegments (congrArg Pointer.segments hsame), hsegments⟩

/-- A description whose keys look like parts of locations: an empty one, keywords, digits, and
two that are alike once a slash is written as an escape. A parameter has a pattern of its own
beside those of its two schemas. -/
def misleadingKeys : Description where
  name := "misleading.yaml"
  root :=
    let constrained : Json := .obj [("pattern", .str "^a$")]
    .obj [
      ("swagger", .str "2.0"),
      ("definitions", .obj [
        ("", constrained),
        ("a/b", constrained),
        ("a~1b", constrained),
        ("items", .obj [
          ("items", .arr [constrained]),
          ("properties", .obj [("items", .obj [("items", constrained)]), ("0", constrained)])])]),
      ("paths", .obj [("/schema", .obj [("GET", .obj [("parameters", .arr [
        .obj [("pattern", .str "^a$"), ("schema", constrained), ("items", constrained)]])])])])]
  source := ""
  distinct := by decide

theorem misleadingKeys_locations_ne :
    MethodsDistinct misleadingKeys.root ∧
      (patterns ⟨misleadingKeys.root, Limits.default⟩).map Prod.fst
        = ["#/definitions/", "#/definitions/a~1b", "#/definitions/a~01b",
          "#/definitions/items/properties/items/items", "#/definitions/items/properties/0",
          "#/definitions/items/items/0", "#/paths/~1schema/get/parameters/0",
          "#/paths/~1schema/get/parameters/0/schema", "#/paths/~1schema/get/parameters/0/items"] ∧
      ((run ⟨misleadingKeys.root, Limits.default⟩).filter Item.isPattern).Pairwise fun i j =>
        i.location ≠ j.location ∧ Pointer.segments i.location ≠ Pointer.segments j.location := by
  have hmethods : MethodsDistinct misleadingKeys.root := by
    refine methodsDistinct_of_members misleadingKeys.distinct rfl ?_ ?_
    · decide
    · intro m hm ms hms
      rw [List.mem_singleton.1 hm] at hms
      cases hms
      decide +kernel
  refine ⟨hmethods, eq_of_beq (@run_of_test _ 30
    (fun items => (items.filterMap Item.pattern?).map Prod.fst == _) ?_),
    pairwise_locations_ne misleadingKeys Limits.default hmethods⟩
  decide +kernel

end Walk

end PatternAudit
