/-
How many patterns a walk can find.

References may be shared, so a walk can find the pattern of one node many times, at many
locations. What bounds the number is that a walk without references goes down a tree, and
comes to no node of it twice: what a node passes on stands apart in its tree. Following a
reference is what lets it begin anew.

So a walk falls into regions. The first one holds what is reached from the root without
following a reference; each reference that is followed enters another one, which bears its
number in the count of followed references. `finds` is the visit with the spot of each
item, its region and the address of its node. At one spot a pattern is found once at most
(`foundAt_finds_le`).

The bound is a charge. A task may find what is at its spot and below it, and nothing else
of its region. A step shares that out among the pattern that it finds and the tasks that
it leaves, and each reference that it follows opens one region (`charge_parts_le`).
-/
import Mathlib.Data.List.Nodup
import Mathlib.Data.List.Perm.Subperm
import Mathlib.Data.List.ProdSigma
import PatternAudit.Proofs.Walk.Offsets
import PatternAudit.Proofs.Walk.Visit

set_option autoImplicit false

namespace PatternAudit.Walk

open Json (Address Apart Stands each inside here)

/-! ## Spots -/

/-- Where a node is met: in which region of the walk, and where it stands in the document. -/
structure Spot where
  region : Nat
  address : Address
  deriving DecidableEq

/-- The spot of a node of a tree, where the tree is at a spot. -/
def Spot.down (s : Spot) (offset : Address) : Spot := ⟨s.region, s.address ++ offset⟩

/-- Where a descent is when it has followed references: where the last one of them leads,
in the region that it enters, or where it was before if it has followed none. -/
def Spot.after (w : Walker) (s : Spot) (before : Nat) : Landing → Spot
  | (.ok (_, target :: _), after) =>
    if after = before then s else ⟨after, Pointer.addressOf w.root target⟩
  | _ => s

/-- A part of what a step answers: what one node yields, and where the tasks of it stand. -/
structure Part where
  spot : Spot
  yield : Yield
  offsets : List Address

namespace Part

/-- A part without tasks. -/
def skip (s : Spot) (location : String) (why : Skip) : Part := ⟨s, .skip location why, []⟩

/-- The items of a part, each at its spot. -/
def items (p : Part) : List (Spot × Item) := p.yield.items.map (p.spot, ·)

/-- The tasks of a part, each at its spot. -/
def tasks (p : Part) : List (Spot × Task) := (p.offsets.map p.spot.down).zip p.yield.tasks

/-- What is known of a part of a node: the patterns that it finds are the node's own, and
its tasks stand further down and apart. -/
structure OfNode (p : Part) (v : Json) : Prop where
  own : OwnOnly v p.yield.items
  stands : Stands v p.offsets (nodes p.yield.tasks)
  below : ∀ a ∈ p.offsets, a ≠ []

theorem ofNode_skip (s : Spot) (location : String) (why : Skip) (v : Json) :
    (skip s location why).OfNode v where
  own := .of_no_pattern fun _ hi => skip_items hi
  stands := .nil v
  below _ ha := absurd ha List.not_mem_nil

theorem OfNode.length_eq {p : Part} {v : Json} (h : p.OfNode v) :
    p.offsets.length = p.yield.tasks.length := by
  rw [h.stands.length_eq, nodes, List.length_map]

theorem OfNode.map_tasks {p : Part} {v : Json} (h : p.OfNode v) :
    p.tasks.map Prod.snd = p.yield.tasks :=
  List.map_snd_zip (Nat.le_of_eq (by rw [List.length_map, h.length_eq]))

/-- A task of a part is at a spot of the part, and its node stands there. -/
theorem OfNode.of_mem_tasks {p : Part} {v : Json} (h : p.OfNode v) {s : Spot} {t : Task}
    (ht : (s, t) ∈ p.tasks) :
    ∃ a ∈ p.offsets, s = p.spot.down a ∧ v.nodeAt? a = some t.node := by
  obtain ⟨i, hi⟩ := List.mem_iff_getElem?.1 ht
  obtain ⟨hspot, htask⟩ := List.getElem?_zip_eq_some.1 hi
  rw [List.getElem?_map, Option.map_eq_some_iff] at hspot
  obtain ⟨a, ha, rfl⟩ := hspot
  refine ⟨a, List.mem_of_getElem? ha, rfl, ?_⟩
  have hfound : (p.offsets.map v.nodeAt?)[i]? = ((nodes p.yield.tasks).map some)[i]? := by
    rw [h.stands.found]
  simpa [nodes, ha, htask] using hfound

end Part

/-! ## The parts of a step -/

/-- The part that a header yields at the spot where following its references has ended. -/
def headerPart (s : Spot) (location : String) (result : Except Skip (Json × List String)) : Part :=
  ⟨s, headerYield location result, match result with
    | .ok (node, _) => inside "schema" here node
    | .error _ => []⟩

/-- The parts that the headers of a response yield, from an index on. -/
def headerParts (w : Walker) (location : String) (refs : List String) (s : Spot) :
    Nat → Nat → List (String × Json) → List Part
  | _, _, [] => []
  | i, n, (name, header) :: rest =>
    let landing := follow w n header refs
    headerPart ((s.down [i]).after w n landing) (belowKey location name) landing.1
      :: headerParts w location refs s (i + 1) landing.2 rest

/-- The parts that an object's headers yield in its role. -/
def Role.headerParts (w : Walker) (role : Role) (location : String)
    (members : List (String × Json)) (refs : List String) (s : Spot) (n : Nat) : List Part :=
  match role, Json.lookup "headers" members with
  | .response, some (.obj hs) =>
    Walk.headerParts w (below location "headers") refs (s.down (headersOffset members)) 0 n hs
  | _, _ => []

/-- The parts that a landing yields at the spot where it has ended. -/
def Landing.parts (w : Walker) (role : Role) (location : String) (s : Spot) : Landing → List Part
  | (.error why, _) => [.skip s location why]
  | (.ok (.obj members, refs), n) =>
    ⟨s, role.yield location members refs, role.offsets members refs⟩
      :: role.headerParts w location members refs s n
  | (.ok (other, _), _) => [.skip s location (role.misfit other)]

/-- The parts that a step answers for a task at a spot. -/
def parts (w : Walker) (n : Nat) (s : Spot) (t : Task) : List Part :=
  match barred? w t with
  | some y => [⟨s, y, []⟩]
  | none =>
    let landing := landing w n t
    landing.parts w t.role t.location (s.after w n landing)

/-- Parts are all that a step answers, in its order. -/
structure Splits (ps : List Part) (e : Expansion) : Prop where
  items : ps.flatMap (·.yield.items) = e.items
  tasks : ps.flatMap (·.yield.tasks) = e.tasks

theorem Splits.one (p : Part) (n : Nat) : Splits [p] (p.yield.keeping n) := by
  constructor <;> simp [Yield.keeping]

theorem Splits.before {ps : List Part} {e : Expansion} (h : Splits ps e) (p : Part) :
    Splits (p :: ps) (p.yield.before e) := by
  constructor
  · rw [List.flatMap_cons, h.items, Yield.before]
  · rw [List.flatMap_cons, h.tasks, Yield.before]

theorem headerParts_splits (w : Walker) (location : String) (refs : List String) (s : Spot)
    (i n : Nat) (hs : List (String × Json)) :
    Splits (headerParts w location refs s i n hs) (headers w location refs n hs) := by
  induction hs generalizing i n with
  | nil => exact ⟨rfl, rfl⟩
  | cons h hs ih => exact (ih _ _).before _

theorem Role.headerParts_splits (w : Walker) (role : Role) (location : String)
    (members : List (String × Json)) (refs : List String) (s : Spot) (n : Nat) :
    Splits (role.headerParts w location members refs s n)
      (role.headers w location members refs n) := by
  cases role with
  | response =>
    unfold Role.headerParts Role.headers
    cases Json.lookup "headers" members with
    | none => exact ⟨rfl, rfl⟩
    | some v =>
      cases v with
      | obj hs => exact Walk.headerParts_splits ..
      | _ => exact ⟨rfl, rfl⟩
  | _ => exact ⟨rfl, rfl⟩

theorem arrive_splits (w : Walker) (role : Role) (location : String) (s : Spot) (l : Landing) :
    Splits (l.parts w role location s) (l.arrive w role location) := by
  obtain ⟨result, n⟩ := l
  match result with
  | .error why => exact .one ..
  | .ok (.obj members, refs) =>
    exact (role.headerParts_splits w location members refs s n).before _
  | .ok (.null, _) | .ok (.bool _, _) | .ok (.num _, _) | .ok (.str _, _) | .ok (.arr _, _) =>
    exact .one ..

theorem parts_splits (w : Walker) (n : Nat) (s : Spot) (t : Task) :
    Splits (parts w n s t) (expand w n t) := by
  unfold parts expand
  cases barred? w t with
  | some y => exact .one ..
  | none => exact arrive_splits ..

/-! ## The nodes of the parts -/

/-- Where a walk has followed references, the last one names the node that it is at. -/
theorem follow_named {w : Walker} {n m : Nat} {node v : Json} {refs rs : List String}
    (h : follow w n node refs = (.ok (v, rs), m)) :
    m = n ∧ v = node ∨ m ≠ n ∧ ∃ target others, rs = target :: others ∧
      Pointer.resolveRef? w.root target = some v := by
  fun_induction follow w n node refs with
  | case1 n =>
    cases h
    exact .inl ⟨rfl, rfl⟩
  | case2 => cases h
  | case3 n node refs target htarget next hnext ih =>
    have hmore : n < m := by
      have hspends := (follow_spends w (n + 1) next (target :: refs)).1
      rw [h] at hspends
      exact hspends
    refine .inr ⟨Nat.ne_of_gt hmore, ?_⟩
    rcases ih h with ⟨rfl, rfl⟩ | ⟨-, hnamed⟩
    · -- no other reference was followed after this one
      have hstays := (follow_eq_of_resolved h).2
      exact ⟨target, refs, hstays, (hop_eq_ok_iff.1 hnext).2.2.2⟩
    · exact hnamed

/-- Whether the node at a spot is a given one. -/
def Spot.Holds (w : Walker) (s : Spot) (v : Json) : Prop := w.root.nodeAt? s.address = some v

theorem Spot.Holds.down {w : Walker} {s : Spot} {v u : Json} (h : s.Holds w v) {a : Address}
    (ha : v.nodeAt? a = some u) : (s.down a).Holds w u := by
  rw [Holds, Spot.down, Json.nodeAt?_append, h, Option.bind_some]
  exact ha

theorem Spot.Holds.follow {w : Walker} {s : Spot} {n m : Nat} {node v : Json}
    {refs rs : List String} (h : s.Holds w node)
    (hfollow : follow w n node refs = (.ok (v, rs), m)) :
    (s.after w n (.ok (v, rs), m)).Holds w v := by
  rcases follow_named hfollow with ⟨rfl, rfl⟩ | ⟨hmore, target, others, rfl, hnamed⟩
  · unfold Spot.after
    split
    · rename_i heq
      cases heq
      rw [if_pos rfl]
      exact h
    · exact h
  · rw [Spot.after, if_neg hmore]
    exact Pointer.nodeAt?_addressOf hnamed

theorem Spot.Holds.landing {w : Walker} {s : Spot} {n m : Nat} {t : Task} {v : Json}
    {refs : List String} (h : s.Holds w t.node)
    (hlanding : landing w n t = (.ok (v, refs), m)) :
    (s.after w n (.ok (v, refs), m)).Holds w v := by
  unfold Walk.landing at hlanding
  split at hlanding
  · exact h.follow hlanding
  · cases hlanding
    exact h

/-- What is known of the parts of a step at a spot: each is of a node, which stands at the
part's own spot if the node of the step stands at the spot of the step. -/
def OfNodes (w : Walker) (s : Spot) (node : Json) (ps : List Part) : Prop :=
  ∀ p ∈ ps, ∃ v, p.OfNode v ∧ (s.Holds w node → p.spot.Holds w v)

theorem headerPart_ofNode (s : Spot) (location : String) (node : Json) (refs : List String) :
    (headerPart s location (.ok (node, refs))).OfNode node where
  own := patternAt_ownOnly ..
  stands := stands_header ..
  below a ha := by
    obtain ⟨ms, -, hthrough⟩ := Json.through_of_mem_inside ha
    exact hthrough.ne_nil

theorem headerParts_ofNodes (w : Walker) (location : String) (refs : List String) (s : Spot)
    {members : List (String × Json)} {i : Nat} (n : Nat) {hs : List (String × Json)}
    (hdrop : members.drop i = hs) :
    OfNodes w s (.obj members) (headerParts w location refs s i n hs) := by
  induction hs generalizing i n with
  | nil => exact fun p hp => absurd hp List.not_mem_nil
  | cons h hs ih =>
    obtain ⟨name, header⟩ := h
    obtain ⟨hi, hrest⟩ : (Json.obj members).nodeAt? [i] = some header ∧ members.drop (i + 1) = hs := by
      constructor
      · have hi : members[i]? = some (name, header) := by
          rw [← List.head?_drop, hdrop, List.head?_cons]
        simp [Json.nodeAt?, Json.children, hi]
      · rw [← List.tail_drop, hdrop, List.tail_cons]
    intro p hp
    rcases List.mem_cons.1 hp with rfl | hp
    · rcases hfollow : follow w n header refs with ⟨result, m⟩
      rcases result with why | ⟨node, rs⟩
      · exact ⟨header, Part.ofNode_skip .., fun hholds => hholds.down hi⟩
      · exact ⟨node, headerPart_ofNode .., fun hholds => (hholds.down hi).follow hfollow⟩
    · exact ih _ hrest p hp

theorem parts_ofNodes (w : Walker) (n : Nat) (s : Spot) (t : Task) :
    OfNodes w s t.node (parts w n s t) := by
  have hone : ∀ {p : Part} {v : Json}, p.OfNode v → (s.Holds w t.node → p.spot.Holds w v) →
      OfNodes w s t.node [p] := by
    intro p v hp hholds p' hp'
    rw [List.mem_singleton.1 hp']
    exact ⟨v, hp, hholds⟩
  unfold parts
  cases hbarred : barred? w t with
  | some y =>
    refine hone (v := t.node) ?_ id
    rcases barred?_eq_some hbarred with ⟨_, _, _, _, rfl⟩ | ⟨_, _, _, _, _, rfl⟩
    · exact Part.ofNode_skip ..
    · exact ⟨.of_no_pattern fun _ hi => absurd hi List.not_mem_nil, .nil _,
        fun _ ha => absurd ha List.not_mem_nil⟩
  | none =>
    rcases hlanding : landing w n t with ⟨result, m⟩
    match result with
    | .error why => exact hone (v := t.node) (Part.ofNode_skip ..) id
    | .ok (.obj members, refs) =>
      intro p hp
      rcases List.mem_cons.1 hp with rfl | hp
      · exact ⟨.obj members, ⟨yield_ownOnly .., stands_yield .., offsets_ne_nil t.role members refs⟩,
          fun hholds => hholds.landing hlanding⟩
      · unfold Role.headerParts at hp
        split at hp
        · rename_i hs hrole hheaders
          obtain ⟨v, hv, hholds'⟩ := headerParts_ofNodes w _ refs _ m rfl p hp
          exact ⟨v, hv, fun hholds =>
            hholds' ((hholds.landing hlanding).down (of_lookup_headers hheaders).1)⟩
        · cases hp
    | .ok (.null, _) | .ok (.bool _, _) | .ok (.num _, _) | .ok (.str _, _) | .ok (.arr _, _) =>
      exact hone (Part.ofNode_skip ..) fun hholds => hholds.landing hlanding

/-! ## Finds -/

/-- The items of parts, each at its spot. -/
def itemsOf (ps : List Part) : List (Spot × Item) := ps.flatMap Part.items

/-- The tasks of parts, each at its spot. -/
def tasksOf (ps : List Part) : List (Spot × Task) := ps.flatMap Part.tasks

theorem map_itemsOf (w : Walker) (n : Nat) (s : Spot) (t : Task) :
    (itemsOf (parts w n s t)).map Prod.snd = (expand w n t).items := by
  rw [← (parts_splits w n s t).items, itemsOf, List.map_flatMap]
  congr 1
  funext p
  simp [Part.items, Function.comp_def]

theorem map_tasksOf (w : Walker) (n : Nat) (s : Spot) (t : Task) :
    (tasksOf (parts w n s t)).map Prod.snd = (expand w n t).tasks := by
  rw [← (parts_splits w n s t).tasks, tasksOf, List.map_flatMap]
  refine List.flatMap_congr fun p hp => ?_
  obtain ⟨v, hv, -⟩ := parts_ofNodes w n s t p hp
  exact hv.map_tasks

/-- The items of a visit, each at the spot where it is found. -/
def visitSpots (w : Walker) (n : Nat) : List (Spot × Task) → List (Spot × Item)
  | [] => []
  | (s, t) :: rest =>
    let e := expand w n t
    let ps := parts w n s t
    itemsOf ps ++ visitSpots w e.resolved (tasksOf ps)
      ++ visitSpots w (visitNodes w e.resolved e.tasks).1.resolved rest
termination_by ts => (w.limits.budget - n, tasksWeight (ts.map Prod.snd))
decreasing_by
  · rw [map_tasksOf]
    exact lex_expand w n t (rest.map Prod.snd)
  · exact lex_rest w t (rest.map Prod.snd)
      (Nat.le_trans (expand_spends w n t).1 (visitNodes w _ _).2)

/-- The part of a walk that nothing is found in: the tasks that it sets out with. -/
def rootPart (w : Walker) : Part := ⟨⟨0, []⟩, ⟨[], rootTasks w⟩, rootOffsets w.root⟩

theorem rootPart_ofNode (w : Walker) : (rootPart w).OfNode w.root where
  own := .of_no_pattern fun _ hi => absurd hi List.not_mem_nil
  stands := stands_root w
  below := rootOffsets_ne_nil w.root

/-- The items of a walk, each at the spot where it is found. -/
def finds (w : Walker) : List (Spot × Item) := visitSpots w 0 (rootPart w).tasks

theorem map_visitSpots (w : Walker) (n : Nat) (ts : List (Spot × Task)) :
    (visitSpots w n ts).map Prod.snd = (visitNodes w n (ts.map Prod.snd)).1.items := by
  fun_induction visitSpots w n ts with
  | case1 n => rw [List.map_nil, List.map_nil, visitNodes_nil]
  | case2 n s t rest e ps ihbelow ihothers =>
    have hitems : (itemsOf ps).map Prod.snd = e.items := map_itemsOf w n s t
    have htasks : (tasksOf ps).map Prod.snd = e.tasks := map_tasksOf w n s t
    rw [List.map_cons, visitNodes_cons, List.map_append, List.map_append, ihbelow, ihothers,
      hitems, htasks]

/-- Spots take nothing from a walk and add nothing to it. -/
theorem map_finds (w : Walker) : (finds w).map Prod.snd = run w := by
  rw [finds, map_visitSpots, (rootPart_ofNode w).map_tasks, run_eq_visit]
  rfl

/-- What a visit finds is where it says, if its tasks are. -/
theorem visitSpots_holds (w : Walker) (n : Nat) (ts : List (Spot × Task))
    (h : ∀ s t, (s, t) ∈ ts → s.Holds w t.node) {s : Spot} {location p : String}
    (hmem : (s, .pattern location p) ∈ visitSpots w n ts) :
    ∃ v, s.Holds w v ∧ v.pattern? = some p := by
  fun_induction visitSpots w n ts with
  | case1 n => cases hmem
  | case2 n s₀ t rest e ps ihbelow ihothers =>
    have hstep := parts_ofNodes w n s₀ t
    have hnode := h s₀ t List.mem_cons_self
    rcases List.mem_append.1 hmem with hmem | hmem
    · rcases List.mem_append.1 hmem with hmem | hmem
      · obtain ⟨part, hpart, hmem⟩ := List.mem_flatMap.1 hmem
        obtain ⟨v, hv, hholds⟩ := hstep part hpart
        obtain ⟨i, hi, heq⟩ := List.mem_map.1 hmem
        cases heq
        exact ⟨v, hholds hnode, hv.own.of_mem hi⟩
      · refine ihbelow (fun s t ht => ?_) hmem
        obtain ⟨part, hpart, ht⟩ := List.mem_flatMap.1 ht
        obtain ⟨v, hv, hholds⟩ := hstep part hpart
        obtain ⟨a, -, rfl, ha⟩ := hv.of_mem_tasks ht
        exact (hholds hnode).down ha
    · exact ihothers (fun s t ht => h s t (List.mem_cons_of_mem _ ht)) hmem

/-! ## The charge of a step -/

/-- Whether an item is a pattern. -/
def Item.isPattern (i : Item) : Bool := i.pattern?.isSome

/-- Whether one spot is another one or around it, in the same region. -/
def Spot.leads (spot s : Spot) : Bool := decide (s.region = spot.region ∧ s.address <+: spot.address)

/-- How often a pattern is found at a spot. -/
def foundAt (spot : Spot) (items : List (Spot × Item)) : Nat :=
  items.countP fun x => decide (x.1 = spot) && x.2.isPattern

/-- How many tasks may find a pattern at a spot. -/
def owedAt (spot : Spot) (ts : List (Spot × Task)) : Nat := ts.countP fun x => spot.leads x.1

/-- Whether a region is entered while a count of followed references rises. -/
def entered (before after : Nat) (spot : Spot) : Nat :=
  if before < spot.region ∧ spot.region ≤ after then 1 else 0

theorem entered_add {before between after : Nat} (h : before ≤ between) (h' : between ≤ after)
    (spot : Spot) :
    entered before between spot + entered between after spot = entered before after spot := by
  unfold entered
  split <;> split <;> split <;> omega

section Charge

variable {spot : Spot}

theorem foundAt_append (a b : List (Spot × Item)) :
    foundAt spot (a ++ b) = foundAt spot a + foundAt spot b := List.countP_append

theorem owedAt_append (a b : List (Spot × Task)) :
    owedAt spot (a ++ b) = owedAt spot a + owedAt spot b := List.countP_append

variable (spot)

/-- Of spots that are apart below one, one at most leads on, and only if that one does. -/
theorem countP_leads_le {offsets : List Address} (h : offsets.Pairwise Apart) (s : Spot) :
    offsets.countP (fun a => spot.leads (s.down a)) ≤ (spot.leads s).toNat := by
  by_cases hs : s.region = spot.region ∧ s.address <+: spot.address
  · obtain ⟨hregion, rest, hrest⟩ := hs
    have hleads : spot.leads s = true := decide_eq_true ⟨hregion, rest, hrest⟩
    have hdown : (fun a => spot.leads (s.down a)) = fun a => decide (a <+: rest) := by
      funext a
      simp [Spot.leads, Spot.down, hregion, ← hrest, List.prefix_append_right_inj]
    rw [hleads, hdown]
    exact Json.countP_prefix_le h rest
  · have hnone : offsets.countP (fun a => spot.leads (s.down a)) = 0 := by
      refine List.countP_eq_zero.2 fun a _ hleads => hs ?_
      obtain ⟨hregion, hprefix⟩ := of_decide_eq_true hleads
      exact ⟨hregion, (List.prefix_append ..).trans hprefix⟩
    rw [hnone]
    exact Nat.zero_le _

/-- What references lead to is charged to where they have started, or to the region that
the last of them enters. -/
theorem leads_after_le (w : Walker) (s : Spot) {n : Nat} {l : Landing} (h : n ≤ l.2) :
    (spot.leads (s.after w n l)).toNat ≤ (spot.leads s).toNat + entered n l.2 spot := by
  unfold Spot.after
  split
  · rename_i v target others m
    split
    · exact Nat.le_add_right _ _
    · rename_i hmore
      by_cases hregion : m = spot.region
      · have hentered : entered n m spot = 1 := if_pos (by omega)
        rw [hentered]
        exact Nat.le_add_left_of_le (Bool.toNat_le _)
      · simp [Spot.leads, hregion]
  · exact Nat.le_add_right _ _

/-- **The charge of a node.** One at most may find a pattern at a spot: the node itself,
or one of the nodes further down, be they tasks or else. -/
theorem charge_part_le {p : Part} {v : Json} (h : p.OfNode v) {others : List Address}
    (hapart : (p.offsets ++ others).Pairwise Apart) (hbelow : ∀ a ∈ others, a ≠ []) :
    foundAt spot p.items + owedAt spot p.tasks
        + others.countP (fun a => spot.leads (p.spot.down a))
      ≤ (spot.leads p.spot).toNat := by
  have howed : owedAt spot p.tasks = p.offsets.countP fun a => spot.leads (p.spot.down a) := by
    have hfst : p.tasks.map Prod.fst = p.offsets.map p.spot.down :=
      List.map_fst_zip (Nat.le_of_eq (by rw [List.length_map, h.length_eq]))
    have hcount := congrArg (List.countP fun s => spot.leads s) hfst
    rw [List.countP_map, List.countP_map] at hcount
    exact hcount
  have hfound : foundAt spot p.items
      = if p.spot = spot then (p.yield.items.filterMap Item.pattern?).length else 0 := by
    rw [foundAt, Part.items, List.countP_map, List.length_filterMap_eq_countP]
    split
    · rename_i hspot
      simp [hspot, Function.comp_def, Item.isPattern]
    · rename_i hspot
      simp [hspot, Function.comp_def]
  have hdown := countP_leads_le spot hapart p.spot
  rw [List.countP_append, ← howed] at hdown
  rw [hfound]
  by_cases hspot : p.spot = spot
  · -- at the spot itself, nothing further down leads there
    have hnone : owedAt spot p.tasks
        + others.countP (fun a => spot.leads (p.spot.down a)) = 0 := by
      rw [howed, ← List.countP_append, List.countP_eq_zero]
      intro a ha hleads
      have hne : a ≠ [] := (List.mem_append.1 ha).elim (h.below a) (hbelow a)
      have hprefix := (of_decide_eq_true hleads).2
      rw [Spot.down, hspot] at hprefix
      have hlength := hprefix.length_le
      rw [List.length_append] at hlength
      exact hne (List.eq_nil_of_length_eq_zero (by omega))
    have hself : spot.leads p.spot = true := by
      rw [hspot]
      exact decide_eq_true ⟨rfl, List.prefix_rfl⟩
    have hone := h.own.length_le
    rw [if_pos hspot, hself, Bool.toNat_true]
    omega
  · rw [if_neg hspot]
    omega

/-- What parts find at a spot, and how many of their tasks may find more there. -/
def charge (spot : Spot) (ps : List Part) : Nat :=
  foundAt spot (itemsOf ps) + owedAt spot (tasksOf ps)

theorem charge_cons (p : Part) (ps : List Part) :
    charge spot (p :: ps) = foundAt spot p.items + owedAt spot p.tasks + charge spot ps := by
  rw [charge, charge, itemsOf, tasksOf, List.flatMap_cons, List.flatMap_cons, foundAt_append,
    owedAt_append, itemsOf, tasksOf]
  omega

/-- A part alone is charged no more than its spot. -/
theorem charge_one_le {p : Part} {v : Json} (h : p.OfNode v) :
    foundAt spot p.items + owedAt spot p.tasks ≤ (spot.leads p.spot).toNat := by
  have hapart : (p.offsets ++ []).Pairwise Apart := by
    rw [List.append_nil]
    exact h.stands.apart
  have hpart := charge_part_le spot h hapart fun _ ha => absurd ha List.not_mem_nil
  simpa using hpart

/-- Headers are charged to where they stand, and to the regions that they enter. -/
theorem charge_headerParts_le (w : Walker) (location : String) (refs : List String) (s : Spot)
    (i n : Nat) (hs : List (String × Json)) :
    charge spot (headerParts w location refs s i n hs)
      ≤ (each here i hs).countP (fun a => spot.leads (s.down a))
        + entered n (headers w location refs n hs).resolved spot := by
  induction hs generalizing i n with
  | nil => exact Nat.zero_le _
  | cons h hs ih =>
    obtain ⟨name, header⟩ := h
    have hfirst := (follow_spends w n header refs).1
    have hothers := (headers_spends w location refs (follow w n header refs).2 hs).1
    have hspot := leads_after_le spot w (s.down [i]) hfirst
    have hrest := ih (i + 1) (follow w n header refs).2
    have hentered := entered_add hfirst hothers spot
    have hown : ∀ s' result, foundAt spot (headerPart s' (belowKey location name) result).items
        + owedAt spot (headerPart s' (belowKey location name) result).tasks
          ≤ (spot.leads s').toNat := by
      intro s' result
      match result with
      | .error why => exact charge_one_le spot (Part.ofNode_skip _ _ _ .null)
      | .ok (node, rs) => exact charge_one_le spot (headerPart_ofNode ..)
    have hcount : (each here i ((name, header) :: hs)).countP (fun a => spot.leads (s.down a))
        = (each here (i + 1) hs).countP (fun a => spot.leads (s.down a))
          + (spot.leads (s.down [i])).toNat := by
      show ([i] :: each here (i + 1) hs).countP _ = _
      rw [List.countP_cons]
      cases spot.leads (s.down [i]) <;> rfl
    have hpart := hown ((s.down [i]).after w n (follow w n header refs)) (follow w n header refs).1
    rw [headerParts, charge_cons, hcount]
    show _ ≤ _ + entered n (headers w location refs (follow w n header refs).2 hs).resolved spot
    omega

theorem charge_skip_le (s : Spot) (location : String) (why : Skip) :
    charge spot [.skip s location why] ≤ (spot.leads s).toNat := by
  rw [charge_cons]
  exact charge_one_le spot (Part.ofNode_skip s location why .null)

/-- An object is charged to its spot, with its headers. -/
theorem charge_object_le (w : Walker) (role : Role) (location : String) (s : Spot)
    (members : List (String × Json)) (refs : List String) (n : Nat) :
    charge spot (Landing.parts w role location s (.ok (.obj members, refs), n))
      ≤ (spot.leads s).toNat
        + entered n (readObject w role location members refs n).resolved spot := by
  have hpart : (⟨s, role.yield location members refs, role.offsets members refs⟩ : Part).OfNode
      (.obj members) := ⟨yield_ownOnly .., stands_yield .., offsets_ne_nil role members refs⟩
  rw [Landing.parts, charge_cons]
  show _ ≤ _ + entered n (role.headers w location members refs n).resolved spot
  unfold Role.headerParts
  split
  · rename_i hs hheaders
    obtain ⟨-, hthrough⟩ := of_lookup_headers hheaders
    have hown := charge_part_le spot hpart (headers_apart refs hheaders)
      fun a ha => by
        obtain ⟨rest, -, rfl⟩ := List.mem_map.1 ha
        exact (hthrough.append rest).ne_nil
    have hbelow := charge_headerParts_le spot w (below location "headers") refs
      (s.down (headersOffset members)) 0 n hs
    have hcount : ((each here 0 hs).map (headersOffset members ++ ·)).countP
          (fun a => spot.leads (s.down a))
        = (each here 0 hs).countP
          fun a => spot.leads ((s.down (headersOffset members)).down a) := by
      rw [List.countP_map]
      congr 1
      funext a
      simp [Spot.down]
    have hresolved : (Role.response.headers w location members refs n).resolved
        = (headers w (below location "headers") refs n hs).resolved := by
      unfold Role.headers
      rw [hheaders]
    rw [hcount] at hown
    rw [hresolved]
    dsimp only at hown ⊢
    omega
  · have hown := charge_one_le spot hpart
    exact Nat.le_add_right_of_le hown

theorem charge_landing_le (w : Walker) (role : Role) (location : String) (s : Spot) (l : Landing) :
    charge spot (l.parts w role location s)
      ≤ (spot.leads s).toNat + entered l.2 (l.arrive w role location).resolved spot := by
  obtain ⟨result, n⟩ := l
  match result with
  | .error why => exact Nat.le_add_right_of_le (charge_skip_le ..)
  | .ok (.obj members, refs) => exact charge_object_le ..
  | .ok (.null, _) | .ok (.bool _, _) | .ok (.num _, _) | .ok (.str _, _) | .ok (.arr _, _) =>
    exact Nat.le_add_right_of_le (charge_skip_le ..)

/-- **The charge of a step.** A task is charged to its spot, for one pattern at most. Each
reference that the step follows is charged to the region that it enters, again for one. -/
theorem charge_parts_le (w : Walker) (n : Nat) (s : Spot) (t : Task) :
    charge spot (parts w n s t)
      ≤ (spot.leads s).toNat + entered n (expand w n t).resolved spot := by
  unfold parts expand
  cases hbarred : barred? w t with
  | some y =>
    refine Nat.le_add_right_of_le ?_
    rcases barred?_eq_some hbarred with ⟨_, _, _, _, rfl⟩ | ⟨_, _, _, _, _, rfl⟩
    · exact charge_skip_le ..
    · exact Nat.zero_le _
  | none =>
    have hlands := (landing_spends w n t).1
    have harrives := (arrive_spends w t.role t.location (landing w n t)).1
    have hcharge := charge_landing_le spot w t.role t.location
      (s.after w n (landing w n t)) (landing w n t)
    have hspot := leads_after_le spot w s hlands
    have hentered := entered_add hlands harrives spot
    dsimp only
    omega

/-! ## The charge of a walk -/

/-- **The charge of a visit.** A pattern is found at a spot no more often than there are
tasks that may find it there, or once if the visit enters the region. -/
theorem foundAt_visitSpots_le (w : Walker) (n : Nat) (ts : List (Spot × Task)) :
    foundAt spot (visitSpots w n ts)
      ≤ owedAt spot ts + entered n (visitNodes w n (ts.map Prod.snd)).1.resolved spot := by
  fun_induction visitSpots w n ts with
  | case1 n => exact Nat.zero_le _
  | case2 n s t rest e ps ihbelow ihothers =>
    have htasks : (tasksOf ps).map Prod.snd = e.tasks := map_tasksOf w n s t
    rw [htasks] at ihbelow
    have hstep : foundAt spot (itemsOf ps) + owedAt spot (tasksOf ps)
        ≤ (spot.leads s).toNat + entered n e.resolved spot := charge_parts_le spot w n s t
    have hown : n ≤ e.resolved := (expand_spends w n t).1
    have hbelow := (visitNodes_spends w e.resolved e.tasks).1
    have hothers := (visitNodes_spends w (visitNodes w e.resolved e.tasks).1.resolved
      (rest.map Prod.snd)).1
    have hspent := entered_add hown (Nat.le_trans hbelow hothers) spot
    have hspent' := entered_add hbelow hothers spot
    have hvisit : (visitNodes w n (t :: rest.map Prod.snd)).1.resolved
        = (visitNodes w (visitNodes w e.resolved e.tasks).1.resolved
            (rest.map Prod.snd)).1.resolved := by
      rw [visitNodes_cons]
    have howed : owedAt spot ((s, t) :: rest) = owedAt spot rest + (spot.leads s).toNat := by
      rw [owedAt, List.countP_cons]
      cases spot.leads s <;> rfl
    rw [foundAt_append, foundAt_append, howed, List.map_cons, hvisit]
    omega

/-- **A pattern is found once at a spot.** There are no more regions than the budget
allows, beside the one of the root. -/
theorem foundAt_finds_le (w : Walker) (spot : Spot) :
    foundAt spot (finds w) ≤ if spot.region ≤ w.limits.budget then 1 else 0 := by
  have hvisit : foundAt spot (finds w) ≤ _ := foundAt_visitSpots_le spot w 0 (rootPart w).tasks
  have hroot := charge_one_le spot (rootPart_ofNode w)
  have hspent : (visitNodes w 0 (rootTasks w)).1.resolved ≤ w.limits.budget := by
    obtain ⟨-, hspends⟩ := visitNodes_spends w 0 (rootTasks w)
    by_cases hmore : 0 < (visitNodes w 0 (rootTasks w)).1.resolved
    · exact hspends hmore
    · omega
  have htasks : (rootPart w).tasks.map Prod.snd = rootTasks w := (rootPart_ofNode w).map_tasks
  rw [htasks, entered] at hvisit
  -- the root's region is charged for the root, and is not entered again
  by_cases hzero : spot.region = 0
  · have hleads := Bool.toNat_le (spot.leads (rootPart w).spot)
    rw [if_neg (by omega)] at hvisit
    rw [if_pos (by omega)]
    omega
  · have hleads : spot.leads (rootPart w).spot = false :=
      decide_eq_false fun h => hzero h.1.symm
    rw [hleads, Bool.toNat_false] at hroot
    split at hvisit <;> split <;> omega

end Charge

/-- The spots where a walk finds patterns. -/
def patternSpots (w : Walker) : List Spot :=
  ((finds w).filter fun x => x.2.isPattern).map Prod.fst

theorem length_patternSpots (w : Walker) : (patternSpots w).length = (patterns w).length := by
  rw [patternSpots, List.length_map, ← List.countP_eq_length_filter, patterns, ← map_finds,
    List.length_filterMap_eq_countP, List.countP_map]
  rfl

/-- **In a region, the pattern of a node is found once.** -/
theorem nodup_patternSpots (w : Walker) : (patternSpots w).Nodup := by
  refine List.nodup_iff_count_le_one.2 fun spot => ?_
  have hfound := foundAt_finds_le w spot
  have hcount : (patternSpots w).count spot = foundAt spot (finds w) := by
    rw [patternSpots, List.count, List.countP_map, List.countP_filter, foundAt]
    congr 1
  rw [hcount]
  split at hfound <;> omega

/-- A pattern is found at its own node, in one of the regions that the budget allows. -/
theorem of_mem_finds (w : Walker) {spot : Spot} {location p : String}
    (h : (spot, .pattern location p) ∈ finds w) :
    spot.region ≤ w.limits.budget ∧
      ∃ v, w.root.nodeAt? spot.address = some v ∧ v.pattern? = some p := by
  constructor
  · refine Nat.le_of_not_lt fun hlt => ?_
    have hfound := foundAt_finds_le w spot
    rw [if_neg (Nat.not_le_of_lt hlt)] at hfound
    have hpos : 0 < foundAt spot (finds w) :=
      List.countP_pos_iff.2 ⟨_, h, by simp [Item.isPattern, Item.pattern?]⟩
    omega
  · refine visitSpots_holds w 0 (rootPart w).tasks (fun s t ht => ?_) h
    obtain ⟨a, -, rfl, ha⟩ := (rootPart_ofNode w).of_mem_tasks ht
    exact ha

/-- **A walk finds no more patterns than its regions allow.** Every item of a walk is met
at a spot: in the root's region or in that of one of the references followed, and at the
address of a node. The patterns that are found are those of the nodes where they are found,
and in a region the pattern of a node is found once at most. So there are no more patterns
than nodes that bear one, for the root and for each reference that the budget allows. -/
theorem patterns_bounded (w : Walker) :
    (finds w).map Prod.snd = run w ∧
      (∀ spot location p, (spot, .pattern location p) ∈ finds w →
        spot.region ≤ w.limits.budget ∧
          ∃ v, w.root.nodeAt? spot.address = some v ∧ v.pattern? = some p) ∧
      (patternSpots w).Nodup ∧
      (patterns w).length ≤ w.root.bearers.length * (1 + w.limits.budget) := by
  refine ⟨map_finds w, fun spot location p h => of_mem_finds w h, nodup_patternSpots w, ?_⟩
  let place (s : Spot) : Nat × Address := (s.region, s.address)
  have hplace : Function.Injective place := by
    rintro ⟨r, a⟩ ⟨r', a'⟩ h
    cases h
    rfl
  have hnodup : ((patternSpots w).map place).Nodup := (nodup_patternSpots w).map hplace
  have hsubset : (patternSpots w).map place
      ⊆ List.range (1 + w.limits.budget) ×ˢ w.root.bearers := by
    intro x hx
    obtain ⟨spot, hspot, rfl⟩ := List.mem_map.1 hx
    obtain ⟨⟨spot, item⟩, hfind, rfl⟩ := List.mem_map.1 hspot
    obtain ⟨hfind, hpattern⟩ := List.mem_filter.1 hfind
    cases item with
    | pattern location p =>
      obtain ⟨hregion, v, hv, hp⟩ := of_mem_finds w hfind
      have hbearer : spot.address ∈ w.root.bearers :=
        Json.mem_bearers.2 ⟨v, hv, by rw [hp, Option.isSome_some]⟩
      have hrange : spot.region < 1 + w.limits.budget := by omega
      exact List.mem_product.2 ⟨List.mem_range.2 hrange, hbearer⟩
    | _ => cases hpattern
  have hle := (List.subperm_of_subset hnodup hsubset).length_le
  rw [List.length_map, length_patternSpots, List.length_product, List.length_range,
    Nat.mul_comm] at hle
  exact hle

end PatternAudit.Walk
