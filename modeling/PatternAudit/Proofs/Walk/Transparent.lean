/-
References are transparent.

A schema that is a reference stands for the schema that its references end at. A walk that
comes to the reference finds what it would find if the other schema stood there, at the same
locations and in the same order, unless it is stopped on the way: by a reference that it is
inside of, by too many references in a row, or by the end of its budget.

The two walks differ from there on. The one that came through the references remembers them and
has counted them, so at every later reference the other one has fewer references behind it and
has followed no more (`Fewer`). Each of the three things that stop a walk stops it the sooner
the more it has behind it. So where the first walk is not stopped, neither is the second one,
and all else is the same for both: a step at a schema hands the references on and does not look
at them (`readObject_schema_eased`). That depth is not counted along references, and that they
add nothing to a location, shows in the tasks below, which differ in nothing else (`Eased`).
-/
import Mathlib.Data.List.Forall2
import Mathlib.Logic.Relation
import PatternAudit.Proofs.Walk.Descent
import PatternAudit.Proofs.Walk.Spread
import PatternAudit.Proofs.Walk.Turns

set_option autoImplicit false

namespace PatternAudit.Walk

open Relation (ReflTransGen)

/-! ## Tasks alone -/

/-- What a walk hands out while it does a task to the end, when it has followed some references
before: the items of a walk that has nothing else to do. -/
def Task.found (w : Walker) (resolved : Nat) (t : Task) : List Item :=
  (runFrom w ⟨#[t], [], resolved⟩ #[]).toList

theorem Task.found_eq (w : Walker) (resolved : Nat) (t : Task) :
    t.found w resolved = (visitNodes w resolved [t]).1.items := by
  rw [found, runFrom_eq]
  rfl

/-- A task comes to the items of its step and then to what the tasks below it come to. -/
theorem Task.found_eq_append (w : Walker) (resolved : Nat) (t : Task) :
    t.found w resolved = (expand w resolved t).items ++
      (visitNodes w (expand w resolved t).resolved (expand w resolved t).tasks).1.items := by
  rw [found_eq, visitNodes_one]

/-- Whatever else is on the stack, a walk hands out what its next task comes to before it goes
on to the rest. Only the count of followed references is handed on. -/
theorem toCome_of_reading? {w : Walker} {s : State} {n : Nat} {t : Task}
    (h : s.reading? = some (n, t)) :
    ∃ m, s.toCome w = t.found w n ++ State.toCome w ⟨s.stack.pop, [], m⟩ := by
  unfold State.reading? at h
  split at h
  · rename_i hpending
    obtain ⟨_, htop, hread⟩ := Option.map_eq_some_iff.1 h
    cases hread
    refine ⟨(visitNodes w s.resolved [t]).1.resolved, ?_⟩
    have hsplit := visitNodes_append w s.resolved [t] s.stack.pop.toList.reverse
    rw [State.toCome, hpending, tasks_of_back? htop, Task.found_eq, ← List.singleton_append, hsplit]
    rfl
  · cases h

/-! ## What stops a walk at a reference -/

/-- Whether a reference was not followed because of what the walk had behind it. -/
def Skip.isCut : Skip → Bool
  | .cycle _ | .chainTooLong _ | .budgetSpent _ _ => true
  | _ => false

/-- Whether an item says that a reference was not followed because of what the walk had behind
it. -/
def Item.isCut : Item → Bool
  | .skipped _ why => why.isCut
  | _ => false

/-- Whether no item says that a reference was cut. -/
def Uncut (items : List Item) : Prop := ∀ i ∈ items, i.isCut = false

theorem Uncut.append {a b : List Item} (h : Uncut (a ++ b)) : Uncut a ∧ Uncut b :=
  List.forall_mem_append.1 h

/-- A task of a walk that cuts no reference cuts none. -/
theorem uncut_found {w : Walker} {turn n : Nat} {before : List Item} {s : State} {t : Task}
    (hturn : turns w turn = some (before, s)) (hread : s.reading? = some (n, t))
    (h : Uncut (run w)) : Uncut (t.found w n) := by
  obtain ⟨m, htask⟩ := toCome_of_reading? (w := w) hread
  rw [run_eq_of_turns hturn, htask] at h
  exact h.append.2.append.1

/-- Whether a landing is not that of a cut reference. -/
def Landing.Uncut (a : Landing) : Prop := ∀ why, a.1 = .error why → why.isCut = false

theorem Landing.uncut_of_arrive {a : Landing} {w : Walker} {role : Role} {location : String}
    (h : Walk.Uncut (a.arrive w role location).items) : a.Uncut := by
  obtain ⟨result, n⟩ := a
  rintro why rfl
  exact h _ (List.mem_singleton_self _)

/-! ## Fewer references behind -/

/-- A descent that went through no other references than another one, and no more. -/
structure Fewer (refs refs' : List String) : Prop where
  subset : refs' ⊆ refs
  length_le : refs'.length ≤ refs.length

namespace Fewer

variable {refs refs' : List String}

theorem refl (refs : List String) : Fewer refs refs := ⟨List.Subset.refl refs, Nat.le_refl _⟩

/-- Both descents may go through another reference. -/
theorem cons (h : Fewer refs refs') (target : String) :
    Fewer (target :: refs) (target :: refs') where
  subset := List.cons_subset_cons target h.subset
  length_le := Nat.succ_le_succ h.length_le

/-- One reference may be left out. -/
theorem of_cons {target : String} (h : Fewer refs (target :: refs')) : Fewer refs refs' where
  subset := fun _ hmem => h.subset (List.mem_cons_of_mem target hmem)
  length_le := Nat.le_of_succ_le h.length_le

end Fewer

/-- The same place, with fewer references behind the second landing. -/
inductive Landing.Eased : Landing → Landing → Prop where
  | stopped (why : Skip) {m m' : Nat} (hcount : m' ≤ m) : Eased (.error why, m) (.error why, m')
  | landed (node : Json) {refs refs' : List String} {m m' : Nat} (hrefs : Fewer refs refs')
      (hcount : m' ≤ m) : Eased (.ok (node, refs), m) (.ok (node, refs'), m')

section References

variable {w : Walker} {n n' : Nat} {refs refs' : List String}

/-- A reference that is not cut is new, and no bound is reached. -/
theorem bounds_of_uncut {target : String}
    (huncut : ∀ why, hop w n refs target = .error why → why.isCut = false) :
    target ∉ refs ∧ refs.length < w.limits.maxDepth ∧ n < w.limits.budget := by
  by_cases hcycle : target ∈ refs
  · have hcut := huncut (.cycle target) (by rw [hop, if_pos hcycle])
    cases hcut
  by_cases hlong : w.limits.maxDepth ≤ refs.length
  · have hcut := huncut (.chainTooLong w.limits.maxDepth) (by rw [hop, if_neg hcycle, if_pos hlong])
    cases hcut
  by_cases hspent : w.limits.budget ≤ n
  · have hcut := huncut (.budgetSpent w.limits.budget target)
      (by rw [hop, if_neg hcycle, if_neg hlong, if_pos hspent])
    cases hcut
  exact ⟨hcycle, Nat.lt_of_not_le hlong, Nat.lt_of_not_le hspent⟩

/-- With fewer references behind it a walk comes as far at a reference, if it was not cut. -/
theorem hop_fewer (hrefs : Fewer refs refs') (hcount : n' ≤ n) {target : String}
    (huncut : ∀ why, hop w n refs target = .error why → why.isCut = false) :
    hop w n' refs' target = hop w n refs target := by
  obtain ⟨hnew, hlen, hleft⟩ := bounds_of_uncut huncut
  have hnew' : target ∉ refs' := fun hmem => hnew (hrefs.subset hmem)
  have hlen' : refs'.length < w.limits.maxDepth := Nat.lt_of_le_of_lt hrefs.length_le hlen
  have hleft' : n' < w.limits.budget := Nat.lt_of_le_of_lt hcount hleft
  rw [hop, hop, if_neg hnew, if_neg hnew', if_neg (Nat.not_le_of_lt hlen),
    if_neg (Nat.not_le_of_lt hlen'), if_neg (Nat.not_le_of_lt hleft),
    if_neg (Nat.not_le_of_lt hleft')]

/-- With fewer references behind it a walk lands at the same place, if it was not cut. -/
theorem follow_fewer (hrefs : Fewer refs refs') (hcount : n' ≤ n) {node : Json}
    (huncut : (follow w n node refs).Uncut) :
    Landing.Eased (follow w n node refs) (follow w n' node refs') := by
  fun_induction follow w n node refs generalizing n' refs' with
  | case1 n node refs htarget =>
    rw [follow_of_none htarget]
    exact .landed node hrefs hcount
  | case2 n node refs target htarget why hstop =>
    have hsame : hop w n' refs' target = hop w n refs target := by
      refine hop_fewer hrefs hcount fun why' hwhy => ?_
      rw [hstop] at hwhy
      cases hwhy
      exact huncut why rfl
    rw [follow_of_error htarget (hsame.trans hstop)]
    exact .stopped why hcount
  | case3 n node refs target htarget next hnext ih =>
    have hsame : hop w n' refs' target = hop w n refs target := by
      refine hop_fewer hrefs hcount fun why hwhy => ?_
      rw [hnext] at hwhy
      cases hwhy
    rw [follow_of_ok htarget (hsame.trans hnext)]
    exact ih (hrefs.cons target) (Nat.succ_le_succ hcount) huncut

end References

/-! ## Tasks that differ in their references -/

/-- The same schema, with fewer references behind it in the second task. -/
inductive Task.Eased : Task → Task → Prop where
  | schema (depth : Nat) (node : Json) (location : String) {refs refs' : List String}
      (hrefs : Fewer refs refs') :
      Eased ⟨.schema depth refs, node, location⟩ ⟨.schema depth refs', node, location⟩

/-- The same task in another role. -/
def Task.inRole (role : Role) (t : Task) : Task := { t with role }

/-- The same yield, with its tasks in another role. -/
def Yield.inRole (role : Role) (y : Yield) : Yield := ⟨y.items, y.tasks.map (Task.inRole role)⟩

theorem Yield.inRole_append (role : Role) (a b : Yield) :
    (a.append b).inRole role = (a.inRole role).append (b.inRole role) := by
  simp only [inRole, append, List.map_append]

/-- The same slot, read in another role. -/
def Slot.inRole (role : Role) (slot : Slot) : Slot := { slot with role }

section Roles

variable (role role' : Role) (location : String)

theorem itemTasks_inRole (i : Nat) (vs : List Json) :
    itemTasks role' location i vs = (itemTasks role location i vs).map (Task.inRole role') := by
  induction vs generalizing i with
  | nil => rfl
  | cons v vs ih => rw [itemTasks, itemTasks, List.map_cons, ← ih, Task.inRole]

theorem mediaSchema_inRole (media : Json) :
    mediaSchema role' location media = (mediaSchema role location media).inRole role' := by
  cases media with
  | obj members =>
    simp only [mediaSchema]
    cases Json.lookup "schema" members <;> rfl
  | _ => rfl

theorem mediaSchemas_inRole (ms : List (String × Json)) :
    mediaSchemas role' location ms = (mediaSchemas role location ms).inRole role' := by
  induction ms with
  | nil => rfl
  | cons m ms ih =>
    rw [mediaSchemas, mediaSchemas, Yield.inRole_append, ← ih, ← mediaSchema_inRole]

/-- The nodes of a slot are spread in the same way whatever they are read as. -/
theorem spread_inRole (s : Spread) (v : Json) :
    s.at role' location v = (s.at role location v).inRole role' := by
  have hlist : ∀ vs, Yield.mk [] (itemTasks role' location 0 vs)
      = (Yield.mk [] (itemTasks role location 0 vs)).inRole role' :=
    fun vs => congrArg (Yield.mk []) (itemTasks_inRole role role' location 0 vs)
  cases s with
  | one => rfl
  | oneObject => cases v <;> rfl
  | list what => cases v <;> first | exact hlist _ | rfl
  | listOrOne => cases v <;> first | exact hlist _ | rfl
  | map what =>
    cases v with
    | obj ms =>
      simp only [Spread.at, Yield.inRole, memberTasks, List.map_map, Function.comp_def, Task.inRole]
    | _ => rfl
  | mediaTypes =>
    cases v with
    | obj ms => exact mediaSchemas_inRole role role' location ms
    | _ => rfl

theorem spreadSlots_inRole (members : List (String × Json)) (slots : List Slot) :
    spreadSlots location members (slots.map (Slot.inRole role'))
      = (spreadSlots location members slots).inRole role' := by
  induction slots with
  | nil => rfl
  | cons slot slots ih =>
    have hslot : (slot.inRole role').yield location members
        = (slot.yield location members).inRole role' := by
      simp only [Slot.yield, Slot.inRole]
      cases Json.lookup slot.key members with
      | none => rfl
      | some v => exact spread_inRole ..
    rw [List.map_cons, spreadSlots, spreadSlots, Yield.inRole_append, hslot, ih]

end Roles

/-! ## Steps -/

/-- The same items, and tasks that have fewer references behind them in the second answer. -/
structure Expansion.Eased (e e' : Expansion) : Prop where
  items : e'.items = e.items
  tasks : List.Forall₂ Task.Eased e.tasks e'.tasks
  count : e'.resolved ≤ e.resolved

section Steps

variable {w : Walker} {n n' : Nat} {refs refs' : List String}

/-- What is below a schema has the references of the schema behind it. -/
theorem role_of_mem_schemaSlots {depth : Nat} {location : String}
    {members : List (String × Json)} {t : Task}
    (ht : t ∈ (spreadSlots location members (schemaSlots depth refs)).tasks) :
    t.role = .schema depth refs := by
  have hroles : ∀ slot ∈ schemaSlots depth refs, slot.role = .schema depth refs := by
    simp [schemaSlots]
  obtain ⟨slot, hslot, v, -, ht⟩ := mem_spreadSlots_tasks.1 ht
  rw [role_of_mem_spread ht]
  exact hroles slot hslot

/-- A schema is read in the same way whatever references are behind it. -/
theorem readObject_schema_eased (hrefs : Fewer refs refs') (hcount : n' ≤ n) (depth : Nat)
    (rs rs' : List String) (location : String) (members : List (String × Json)) :
    (readObject w (.schema depth rs) location members refs n).Eased
      (readObject w (.schema depth rs') location members refs' n') := by
  have hslots : spreadSlots location members (schemaSlots (depth + 1) refs')
      = (spreadSlots location members (schemaSlots (depth + 1) refs)).inRole
          (.schema (depth + 1) refs') :=
    spreadSlots_inRole _ location members (schemaSlots (depth + 1) refs)
  have hnone : ∀ rs refs n, readObject w (.schema depth rs) location members refs n
      = ((Role.schema depth rs).yield location members refs).keeping n := by
    intro rs refs n
    simp only [readObject, Role.headers, Yield.before, Yield.keeping, Yield.nothing,
      List.append_nil]
  rw [hnone, hnone, Role.yield, Role.yield, hslots]
  refine ⟨rfl, ?_, hcount⟩
  show List.Forall₂ Task.Eased (spreadSlots location members (schemaSlots (depth + 1) refs)).tasks
    ((spreadSlots location members (schemaSlots (depth + 1) refs)).tasks.map _)
  rw [List.forall₂_map_right_iff, List.forall₂_same]
  rintro ⟨role, node, here⟩ ht
  have hrole : role = .schema (depth + 1) refs := role_of_mem_schemaSlots ht
  rw [hrole]
  exact .schema (depth + 1) node here hrefs

/-- Landings at the same place are read in the same way. -/
theorem arrive_schema_eased {a a' : Landing} (h : a.Eased a') (depth : Nat)
    (rs rs' : List String) (location : String) :
    (a.arrive w (.schema depth rs) location).Eased (a'.arrive w (.schema depth rs') location) := by
  cases h with
  | stopped why hcount => exact ⟨rfl, .nil, hcount⟩
  | landed node hrefs hcount =>
    cases node with
    | obj members => exact readObject_schema_eased hrefs hcount depth rs rs' location members
    | _ => exact ⟨rfl, .nil, hcount⟩

/-- A schema that is not gone into is the same whatever references are behind it. -/
theorem Yield.eased_keeping {y : Yield} (hleaf : y.tasks = []) (hcount : n' ≤ n) :
    (y.keeping n).Eased (y.keeping n') where
  items := rfl
  tasks := by
    rw [keeping, keeping, hleaf]
    exact .nil
  count := hcount

/-- A step at a schema comes to the same with fewer references behind it, if no reference is
cut. -/
theorem expand_eased {t t' : Task} (h : t.Eased t') (hcount : n' ≤ n)
    (huncut : Uncut (expand w n t).items) : (expand w n t).Eased (expand w n' t') := by
  cases h with
  | @schema depth node location refs refs' hrefs =>
    -- whether a schema is gone into does not depend on references
    have hsame : barred? w ⟨.schema depth refs', node, location⟩
        = barred? w ⟨.schema depth refs, node, location⟩ := rfl
    rw [expand, expand, hsame]
    rw [expand] at huncut
    cases hbarred : barred? w ⟨.schema depth refs, node, location⟩ with
    | some y => exact Yield.eased_keeping (barred?_tasks hbarred) hcount
    | none =>
      rw [hbarred] at huncut
      have hlands := Landing.uncut_of_arrive huncut
      exact arrive_schema_eased (follow_fewer hrefs hcount hlands) depth refs refs' location

/-! ## Walks -/

/-- **What a walk finds does not depend on the references behind it**, if none is cut. -/
theorem visitNodes_eased {ts ts' : List Task} (h : List.Forall₂ Task.Eased ts ts')
    (hcount : n' ≤ n) (huncut : Uncut (visitNodes w n ts).1.items) :
    (visitNodes w n' ts').1.items = (visitNodes w n ts).1.items ∧
      (visitNodes w n' ts').1.resolved ≤ (visitNodes w n ts).1.resolved := by
  induction n, ts using visitNodes_induction (w := w) generalizing n' ts' with
  | nil n =>
    cases h
    rw [visitNodes_nil, visitNodes_nil]
    exact ⟨rfl, hcount⟩
  | cons n t rest ihbelow ihothers =>
    cases h with
    | cons ht hrest =>
      rw [visitNodes_cons] at huncut
      obtain ⟨hfirst, hothers⟩ := huncut.append
      obtain ⟨hown, hbelow⟩ := hfirst.append
      have hstep := expand_eased ht hcount hown
      -- what a task hands on is no greater a count, so the next one is eased as well
      obtain ⟨hbelow, hcountbelow⟩ := ihbelow hstep.tasks hstep.count hbelow
      obtain ⟨hothers, hcountothers⟩ := ihothers hrest hcountbelow hothers
      rw [visitNodes_cons, visitNodes_cons]
      exact ⟨by simp only [hstep.items, hbelow, hothers], hcountothers⟩

end Steps

/-! ## Chains of references -/

/-- A node that is a local reference, and the node that it names. -/
def Refers (root v next : Json) : Prop :=
  ∃ target, target? v = some target ∧ Pointer.resolveRef? root target = some next

/-- Where a chain of references has an end, a walk lands there, if no reference is cut. -/
theorem follow_chain {w : Walker} {v last : Json} (hchain : ReflTransGen (Refers w.root) v last)
    (hend : target? last = none) {n : Nat} {refs : List String}
    (huncut : (follow w n v refs).Uncut) :
    (follow w n v refs).Eased (follow w n last refs) := by
  rw [follow_of_none hend]
  induction hchain using ReflTransGen.head_induction_on generalizing n refs with
  | refl =>
    rw [follow_of_none hend]
    exact .landed last (.refl refs) (Nat.le_refl n)
  | @head v next hrefers _ ih =>
    obtain ⟨target, htarget, hnext⟩ := hrefers
    have hbounds : target ∉ refs ∧ refs.length < w.limits.maxDepth ∧ n < w.limits.budget := by
      refine bounds_of_uncut fun why hwhy => ?_
      rw [follow_of_error htarget hwhy] at huncut
      exact huncut why rfl
    have hhop : hop w n refs target = .ok next :=
      hop_eq_ok_iff.2 ⟨hbounds.1, hbounds.2.1, hbounds.2.2, hnext⟩
    rw [follow_of_ok htarget hhop] at huncut ⊢
    have hlands := ih huncut
    -- the object alone has neither this reference behind it nor its count
    generalize follow w (n + 1) next (target :: refs) = landing at hlands
    cases hlands with
    | landed _ hrefs hcount => exact .landed last hrefs.of_cons (Nat.le_of_succ_le hcount)

/-- A step at a schema whose references end at an object comes to the same as a step at the
object, if no reference is cut. -/
theorem expand_chain {w : Walker} {v : Json} {members : List (String × Json)}
    (hchain : ReflTransGen (Refers w.root) v (.obj members)) (hend : target? (.obj members) = none)
    {n depth : Nat} {refs : List String} {location : String}
    (huncut : Uncut (expand w n ⟨.schema depth refs, v, location⟩).items) :
    (expand w n ⟨.schema depth refs, v, location⟩).Eased
      (expand w n ⟨.schema depth refs, .obj members, location⟩) := by
  -- a node that is a reference is an object, so neither schema is `true` or `false`
  obtain ⟨ms, rfl⟩ : ∃ ms, v = .obj ms := by
    rcases hchain.cases_head with rfl | ⟨next, ⟨target, htarget, -⟩, -⟩
    · exact ⟨members, rfl⟩
    · obtain ⟨x, hx, -⟩ := Option.bind_eq_some_iff.1 htarget
      exact obj_of_get? hx
  have hsame : barred? w ⟨.schema depth refs, .obj members, location⟩
      = barred? w ⟨.schema depth refs, .obj ms, location⟩ := rfl
  rw [expand, expand, hsame]
  rw [expand] at huncut
  cases hbarred : barred? w ⟨.schema depth refs, .obj ms, location⟩ with
  | some y => exact Yield.eased_keeping (barred?_tasks hbarred) (Nat.le_refl n)
  | none =>
    rw [hbarred] at huncut
    have hlands := follow_chain hchain hend (Landing.uncut_of_arrive huncut)
    exact arrive_schema_eased hlands depth refs refs location

/-- **References are transparent.** Where the references of a schema end at an object, a walk
that does the schema's task to the end finds what it finds when the object stands there, with
the same depth, the same references behind it and the same count, if no reference is cut. -/
theorem found_of_refers (w : Walker) (resolved depth : Nat) (refs : List String)
    (location : String) {node : Json} {members : List (String × Json)}
    (hchain : ReflTransGen (Refers w.root) node (.obj members))
    (hend : target? (.obj members) = none)
    (huncut : Uncut (Task.found w resolved ⟨.schema depth refs, node, location⟩)) :
    Task.found w resolved ⟨.schema depth refs, node, location⟩
      = Task.found w resolved ⟨.schema depth refs, .obj members, location⟩ := by
  rw [Task.found_eq_append] at huncut
  obtain ⟨hown, hbelow⟩ := huncut.append
  have hstep := expand_chain hchain hend hown
  have hvisit := (visitNodes_eased hstep.tasks hstep.count hbelow).1
  rw [Task.found_eq_append, Task.found_eq_append, hstep.items, hvisit]

/-- A person: a name that starts with a capital, and an address that is described elsewhere. -/
def person : Json :=
  .obj [("pattern", .str "^[A-Z]"),
    ("properties", .obj [("email", .obj [("$ref", .str "#/definitions/Email")])])]

/-- Schemas of a shop: who pays is a customer, and a customer is a person. -/
def payers : Json :=
  .obj [("swagger", .str "2.0"),
    ("definitions", .obj [
      ("Payer", .obj [("$ref", .str "#/definitions/Customer")]),
      ("Customer", .obj [("$ref", .str "#/definitions/Person")]),
      ("Person", person),
      ("Email", .obj [("pattern", .str "@")])])]

/-- Who pays is found as a person, although two references lead there and the person refers to
the address in turn. -/
theorem payer_found_as_person :
    (ReflTransGen (Refers payers) (.obj [("$ref", .str "#/definitions/Customer")]) person ∧
      target? person = none ∧
      Uncut (Task.found ⟨payers, .default⟩ 0 ⟨.schema 0 [],
        .obj [("$ref", .str "#/definitions/Customer")], "#/definitions/Payer"⟩)) ∧
      Task.found ⟨payers, .default⟩ 0 ⟨.schema 0 [],
          .obj [("$ref", .str "#/definitions/Customer")], "#/definitions/Payer"⟩
        = Task.found ⟨payers, .default⟩ 0 ⟨.schema 0 [], person, "#/definitions/Payer"⟩ := by
  have hdecode : ∀ pointer ∈ ["/definitions/Customer", "/definitions/Person"],
      Pointer.percentDecode pointer = pointer := by decide +kernel
  have hcustomer : Refers payers (.obj [("$ref", .str "#/definitions/Customer")])
      (.obj [("$ref", .str "#/definitions/Person")]) := by
    refine ⟨"#/definitions/Customer", rfl, ?_⟩
    show Pointer.resolve? payers (Pointer.percentDecode "/definitions/Customer") = _
    rw [hdecode _ (by decide)]
    rfl
  have hperson : Refers payers (.obj [("$ref", .str "#/definitions/Person")]) person := by
    refine ⟨"#/definitions/Person", rfl, ?_⟩
    show Pointer.resolve? payers (Pointer.percentDecode "/definitions/Person") = _
    rw [hdecode _ (by decide)]
    rfl
  have hchain := ReflTransGen.head hcustomer (.single hperson)
  have hrun : Uncut (run ⟨payers, .default⟩) := by
    intro i hi
    simpa using forall_run_of_test 19 (p := fun i => !i.isCut) (by decide +kernel) i hi
  -- the schemas themselves are handed out first, one in each turn
  have hturn : (turns ⟨payers, .default⟩ 5).bind (fun r => r.2.reading?) = some (0, ⟨.schema 0 [],
      .obj [("$ref", .str "#/definitions/Customer")], "#/definitions/Payer"⟩) := rfl
  obtain ⟨⟨before, s⟩, hturns, hread⟩ := Option.bind_eq_some_iff.1 hturn
  have huncut := uncut_found hturns hread hrun
  exact ⟨⟨hchain, rfl, huncut⟩,
    found_of_refers ⟨payers, .default⟩ 0 0 [] "#/definitions/Payer" hchain rfl huncut⟩

end PatternAudit.Walk
