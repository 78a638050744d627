/-
One step of a walk: reading one node in its role.

A step answers the node's own items, the tasks below it in the order in which
they are to be done, and how many references the walk has followed by then.
References are followed in place, so the locations below stay those of the place
that refers. A reference is not followed when the descent is inside of it already,
when the descent has gone through too many, or when the budget of the walk is spent.

Either a step follows a reference, which the budget allows only so often
(`expand_spends`), or the tasks that it answers weigh less than its own node
(`weight_expand_lt`); so a walk ends.
-/
import PatternAudit.Text.Blank
import PatternAudit.Text.Lower
import PatternAudit.Walk.Slot

set_option autoImplicit false

namespace PatternAudit.Walk

/-! ## References -/

/-- How far a walk goes: how deep schemas may be nested and how many references a descent
may go through, and how many references the whole walk may follow. -/
structure Limits where
  maxDepth : Nat
  budget : Nat
  deriving DecidableEq

/-- The limits of a walk that is told nothing else. -/
def Limits.default : Limits := ⟨64, 10000⟩

/-- The description that is walked, and the limits. -/
structure Walker where
  root : Json
  limits : Limits

/-- The reference that an object consists of. -/
def target? (v : Json) : Option String := (v.get? "$ref").bind Json.asStr?

/-- Follows one reference from a descent through others, when the walk has followed
`resolved` references before. Of several obstacles the first in this order is the one
named. -/
def hop (w : Walker) (resolved : Nat) (refs : List String) (target : String) : Except Skip Json :=
  if target ∈ refs then .error (.cycle target)
  else if w.limits.maxDepth ≤ refs.length then .error (.chainTooLong w.limits.maxDepth)
  else if w.limits.budget ≤ resolved then .error (.budgetSpent w.limits.budget target)
  else if target.toList.head? != some '#' then .error (.externalReference target)
  else match Pointer.resolveRef? w.root target with
    | some node => .ok node
    | none => .error (.unresolvable target)

/-- A reference is followed exactly if it names a node, is new on the descent, and
neither bound is reached. -/
theorem hop_eq_ok_iff {w : Walker} {resolved : Nat} {refs : List String} {target : String}
    {n : Json} :
    hop w resolved refs target = .ok n ↔
      target ∉ refs ∧ refs.length < w.limits.maxDepth ∧ resolved < w.limits.budget ∧
        Pointer.resolveRef? w.root target = some n := by
  constructor
  · intro h
    unfold hop at h
    split at h
    · cases h
    · rename_i hnew
      split at h
      · cases h
      · split at h
        · cases h
        · split at h
          · cases h
          · split at h
            · rename_i node hnode
              cases h
              exact ⟨hnew, by omega, by omega, hnode⟩
            · cases h
  · rintro ⟨hnew, hlen, hleft, hnode⟩
    have hlocal : (target.toList.head? != some '#') = false := by
      rw [Pointer.head_of_resolveRef? hnode]
      rfl
    unfold hop
    rw [if_neg hnew, if_neg (Nat.not_le_of_lt hlen), if_neg (Nat.not_le_of_lt hleft), hlocal,
      if_neg Bool.false_ne_true, hnode]

/-- Where following references ends: at a node that is none, with the references the
descent has gone through, or at an obstacle. Also how many references the walk has
followed by then. -/
abbrev Landing := Except Skip (Json × List String) × Nat

/-- Follows references until a node is none. -/
def follow (w : Walker) (resolved : Nat) (node : Json) (refs : List String) : Landing :=
  match target? node with
  | none => (.ok (node, refs), resolved)
  | some target =>
    match _h : hop w resolved refs target with
    | .error why => (.error why, resolved)
    | .ok next => follow w (resolved + 1) next (target :: refs)
termination_by w.limits.budget - resolved
decreasing_by
  have hleft := (hop_eq_ok_iff.1 _h).2.2.1
  omega

/-- A node that is no reference is where following ends. -/
theorem follow_of_none {w : Walker} {resolved : Nat} {node : Json} {refs : List String}
    (h : target? node = none) : follow w resolved node refs = (.ok (node, refs), resolved) := by
  rw [follow]
  simp only [h]

theorem follow_of_error {w : Walker} {resolved : Nat} {node : Json} {refs : List String}
    {target : String} {why : Skip} (h : target? node = some target)
    (hobstacle : hop w resolved refs target = .error why) :
    follow w resolved node refs = (.error why, resolved) := by
  rw [follow]
  simp only [h]
  split
  · rename_i _ hwhy
    rw [hobstacle] at hwhy
    cases hwhy
    rfl
  · rename_i _ hnext
    rw [hobstacle] at hnext
    cases hnext

theorem follow_of_ok {w : Walker} {resolved : Nat} {node next : Json} {refs : List String}
    {target : String} (h : target? node = some target)
    (hnext : hop w resolved refs target = .ok next) :
    follow w resolved node refs = follow w (resolved + 1) next (target :: refs) := by
  rw [follow]
  simp only [h]
  split
  · rename_i _ hwhy
    rw [hnext] at hwhy
    cases hwhy
  · rename_i _ hn
    rw [hnext] at hn
    cases hn
    rfl

/-- How the count of followed references may change: it never falls, and it rises to
the budget at most. -/
def Spends (w : Walker) (before after : Nat) : Prop :=
  before ≤ after ∧ (before < after → after ≤ w.limits.budget)

theorem Spends.refl (w : Walker) (n : Nat) : Spends w n n :=
  ⟨Nat.le_refl n, fun h => absurd h (Nat.lt_irrefl n)⟩

theorem Spends.trans {w : Walker} {a b c : Nat} (hab : Spends w a b) (hbc : Spends w b c) :
    Spends w a c := by
  obtain ⟨hab, hab'⟩ := hab
  obtain ⟨hbc, hbc'⟩ := hbc
  refine ⟨Nat.le_trans hab hbc, fun hac => ?_⟩
  by_cases hlt : b < c
  · exact hbc' hlt
  · have hcb : c = b := by omega
    rw [hcb] at hac ⊢
    exact hab' hac

theorem follow_spends (w : Walker) (resolved : Nat) (node : Json) (refs : List String) :
    Spends w resolved (follow w resolved node refs).2 := by
  fun_induction follow w resolved node refs with
  | case1 resolved => exact Spends.refl w resolved
  | case2 resolved => exact Spends.refl w resolved
  | case3 resolved node refs target _ next hnext ih =>
    have hleft := (hop_eq_ok_iff.1 hnext).2.2.1
    exact Spends.trans ⟨Nat.le_succ resolved, fun _ => hleft⟩ ih

/-- Following that spends nothing goes nowhere. -/
theorem follow_eq_of_resolved {w : Walker} {resolved : Nat} {node n : Json}
    {refs rs : List String} (h : follow w resolved node refs = (.ok (n, rs), resolved)) :
    n = node ∧ rs = refs := by
  cases htarget : target? node with
  | none =>
    rw [follow_of_none htarget] at h
    cases h
    exact ⟨rfl, rfl⟩
  | some target =>
    cases hhop : hop w resolved refs target with
    | error why =>
      rw [follow_of_error htarget hhop] at h
      cases h
    | ok next =>
      rw [follow_of_ok htarget hhop] at h
      have hspent := (follow_spends w (resolved + 1) next (target :: refs)).1
      rw [h] at hspent
      exact absurd hspent (Nat.not_succ_le_self resolved)

/-! ## Tables -/

/-- The methods that carry operations, in the order in which the description format
lists them. -/
def methods : List String :=
  ["get", "put", "post", "delete", "options", "head", "patch", "trace"]

/-- The method that a key names, in any case. -/
def methodOf? (key : String) : Option String :=
  methods.find? fun m => m.toList == key.toList.map Text.lowerAscii

/-- The list of parameters that a path item or an operation has. -/
def parametersSlot : Slot := ⟨"parameters", .list "a list of parameters", .parameter⟩

/-- What an operation holds. -/
def operationSlots : List Slot :=
  [parametersSlot,
    ⟨"requestBody", .one, .requestBody⟩,
    ⟨"responses", .map "a map of responses", .response⟩]

/-- What a parameter holds. -/
def parameterSlots (refs : List String) : List Slot :=
  [⟨"schema", .one, .schema 0 refs⟩,
    ⟨"items", .one, .schema 0 refs⟩,
    ⟨"content", .mediaTypes, .schema 0 refs⟩]

/-- What a request body holds. -/
def requestBodySlots (refs : List String) : List Slot := [⟨"content", .mediaTypes, .schema 0 refs⟩]

/-- What a response holds, its headers apart. -/
def responseSlots (refs : List String) : List Slot :=
  [⟨"content", .mediaTypes, .schema 0 refs⟩, ⟨"schema", .one, .schema 0 refs⟩]

/-- What a schema holds. -/
def schemaSlots (depth : Nat) (refs : List String) : List Slot :=
  let inner : Role := .schema depth refs
  [⟨"properties", .map "a map of schemas", inner⟩,
    ⟨"items", .listOrOne, inner⟩,
    ⟨"allOf", .list "a list of schemas", inner⟩,
    ⟨"anyOf", .list "a list of schemas", inner⟩,
    ⟨"oneOf", .list "a list of schemas", inner⟩,
    ⟨"not", .one, inner⟩,
    ⟨"additionalProperties", .oneObject, inner⟩]

/-! ## Elements -/

/-- The text of a member, unless it is blank. -/
def nonBlank (v : Option Json) : Option String :=
  ((v.bind Json.asStr?).map Text.trim).filter fun s => !s.isEmpty

/-- Whether a schema carries an example. -/
def hasExample (members : List (String × Json)) : Bool :=
  (Json.lookup "example" members).isSome ||
    match Json.lookup "examples" members with
    | some (.arr items) => !items.isEmpty
    | some (.obj ms) => !ms.isEmpty
    | some .null => false
    | none => false
    | some _ => true

/-- The item of a named schema; only an object has one. -/
def schemaItem (location name : String) : Json → List Item
  | .obj members =>
    [.schema ⟨location, name, nonBlank (Json.lookup "description" members), hasExample members⟩]
  | _ => []

/-- Whether a key of the map of paths is an extension and no path. -/
def isExtension (key : String) : Bool :=
  match key.toList with
  | 'x' :: '-' :: _ => true
  | _ => false

/-- The tasks of the operations of a path item, in the order of its keys. -/
def operationTasks (template location : String) : List (String × Json) → List Task
  | [] => []
  | (key, v) :: rest =>
    match methodOf? key with
    | some method =>
      ⟨.operation template method, v, below location method⟩ :: operationTasks template location rest
    | none => operationTasks template location rest

/-! ## Objects

What an object yields in its role, when following references has ended at it. -/

/-- What an object yields in its role, the headers of a response apart. `refs` are the
references that the descent to the object went through. -/
def Role.yield (role : Role) (location : String) (members : List (String × Json))
    (refs : List String) : Yield :=
  match role with
  | .definitions =>
    ⟨members.flatMap fun m => schemaItem (belowKey location m.1) m.1 m.2,
      memberTasks (.schema 0 []) location members⟩
  | .paths =>
    let paths := members.filter fun m => !isExtension m.1
    ⟨paths.map fun m => .path ⟨belowKey location m.1, m.1⟩,
      paths.map fun m => ⟨.pathItem m.1, m.2, belowKey location m.1⟩⟩
  | .pathItem template =>
    (spreadSlots location members [parametersSlot]).append
      ⟨[], operationTasks template location members⟩
  | .operation template method =>
    (spreadSlots location members operationSlots).own
      [.operation ⟨location, template, method, nonBlank (Json.lookup "operationId" members),
        nonBlank (Json.lookup "summary" members)⟩]
  | .parameter =>
    (spreadSlots location members (parameterSlots refs)).own
      (patternAt location (Json.lookup "pattern" members))
  | .requestBody => spreadSlots location members (requestBodySlots refs)
  | .response => spreadSlots location members (responseSlots refs)
  | .schema depth _ =>
    (spreadSlots location members (schemaSlots (depth + 1) refs)).own
      (patternAt location (Json.lookup "pattern" members))

/-- What a header yields when its references have been followed. -/
def headerYield (location : String) : Except Skip (Json × List String) → Yield
  | .error why => .skip location why
  | .ok (node, refs) =>
    ⟨patternAt location (node.get? "pattern"),
      match node.get? "schema" with
      | some v => [⟨.schema 0 refs, v, below location "schema"⟩]
      | none => []⟩

/-! ## Steps -/

/-- What a step answers. -/
structure Expansion where
  items : List Item
  tasks : List Task
  /-- how many references the walk has followed after the step -/
  resolved : Nat

/-- A step that follows no reference. -/
def Yield.keeping (y : Yield) (resolved : Nat) : Expansion := ⟨y.items, y.tasks, resolved⟩

/-- What comes before and the step after it. -/
def Yield.before (y : Yield) (e : Expansion) : Expansion :=
  ⟨y.items ++ e.items, y.tasks ++ e.tasks, e.resolved⟩

/-- What the headers of a response yield. Their references are followed as part of the
response's own step, one header after the other. -/
def headers (w : Walker) (location : String) (refs : List String) :
    Nat → List (String × Json) → Expansion
  | resolved, [] => Yield.nothing.keeping resolved
  | resolved, (name, header) :: rest =>
    let landing := follow w resolved header refs
    (headerYield (belowKey location name) landing.1).before
      (headers w location refs landing.2 rest)

/-- The headers of a response, if they are a map; no other role has headers. -/
def Role.headers (w : Walker) (role : Role) (location : String) (members : List (String × Json))
    (refs : List String) (resolved : Nat) : Expansion :=
  match role, Json.lookup "headers" members with
  | .response, some (.obj hs) => Walk.headers w (below location "headers") refs resolved hs
  | _, _ => Yield.nothing.keeping resolved

/-- What an object yields in its role. -/
def readObject (w : Walker) (role : Role) (location : String) (members : List (String × Json))
    (refs : List String) (resolved : Nat) : Expansion :=
  (role.yield location members refs).before (role.headers w location members refs resolved)

/-- Whether references are followed in a role. -/
def Role.refers : Role → Bool
  | .definitions | .paths | .operation _ _ => false
  | .pathItem _ | .parameter | .requestBody | .response | .schema _ _ => true

/-- The references that the descent to a node went through, innermost first. Only a
schema knows them: a descent through a parameter, a body or a response starts anew. -/
def Role.refs : Role → List String
  | .schema _ refs => refs
  | _ => []

/-- What is said of a node that is no object. -/
def Role.misfit : Role → Json → Skip
  | .definitions, _ => .expected "a map of schemas"
  | .paths, _ => .expected "a map of path items"
  | .pathItem _, _ => .expected "a path item object"
  | .operation _ _, _ => .expected "an operation object"
  | .parameter, _ => .expected "a parameter object"
  | .requestBody, _ => .expected "a request body object"
  | .response, _ => .expected "a response object"
  | .schema _ _, found => .notASchema found

/-- Where following the references of a task's node ends. -/
def landing (w : Walker) (resolved : Nat) (t : Task) : Landing :=
  if t.role.refers then follow w resolved t.node t.role.refs else (.ok (t.node, []), resolved)

/-- What a landing yields in a role: the object is read, and all else is a diagnostic. -/
def Landing.arrive (w : Walker) (role : Role) (location : String) : Landing → Expansion
  | (.error why, resolved) => (Yield.skip location why).keeping resolved
  | (.ok (.obj members, refs), resolved) => readObject w role location members refs resolved
  | (.ok (other, _), resolved) => (Yield.skip location (role.misfit other)).keeping resolved

/-- What a task yields that is not gone into: a schema that is nested too deep, or one
that is `true` or `false`, which is legal and constrains nothing. -/
def barred? (w : Walker) (t : Task) : Option Yield :=
  match t.role with
  | .schema depth _ =>
    if w.limits.maxDepth < depth then some (.skip t.location (.tooDeep w.limits.maxDepth))
    else match t.node with
      | .bool _ => some .nothing
      | _ => none
  | _ => none

/-- Reads one node. -/
def expand (w : Walker) (resolved : Nat) (t : Task) : Expansion :=
  match barred? w t with
  | some y => y.keeping resolved
  | none => (landing w resolved t).arrive w t.role t.location

/-! ## A step spends no more than the budget -/

theorem headers_spends (w : Walker) (location : String) (refs : List String) (resolved : Nat)
    (hs : List (String × Json)) : Spends w resolved (headers w location refs resolved hs).resolved := by
  induction hs generalizing resolved with
  | nil => exact Spends.refl w resolved
  | cons h hs ih =>
    obtain ⟨name, header⟩ := h
    exact Spends.trans (follow_spends w resolved header refs) (ih _)

theorem readObject_spends (w : Walker) (role : Role) (location : String)
    (members : List (String × Json)) (refs : List String) (resolved : Nat) :
    Spends w resolved (readObject w role location members refs resolved).resolved := by
  show Spends w resolved (role.headers w location members refs resolved).resolved
  unfold Role.headers
  split
  · exact headers_spends ..
  · exact Spends.refl w resolved

theorem arrive_spends (w : Walker) (role : Role) (location : String) (l : Landing) :
    Spends w l.2 (l.arrive w role location).resolved := by
  unfold Landing.arrive
  split
  · exact Spends.refl ..
  · exact readObject_spends ..
  · exact Spends.refl ..

theorem landing_spends (w : Walker) (resolved : Nat) (t : Task) :
    Spends w resolved (landing w resolved t).2 := by
  unfold landing
  split
  · exact follow_spends ..
  · exact Spends.refl w resolved

/-- A step follows only as many references as the budget has left. -/
theorem expand_spends (w : Walker) (resolved : Nat) (t : Task) :
    Spends w resolved (expand w resolved t).resolved := by
  unfold expand
  split
  · exact Spends.refl w resolved
  · exact Spends.trans (landing_spends w resolved t) (arrive_spends ..)

/-! ## A step that follows no reference goes down the tree -/

section Sums

variable {f : Json → Nat}

theorem sum_headerYield_le (hf : Json.Additive f) (location : String) (node : Json)
    (refs : List String) : sumTasks f (headerYield location (.ok (node, refs))).tasks ≤ f node := by
  unfold headerYield
  cases node with
  | obj members =>
    simp only [Json.get?]
    cases hschema : Json.lookup "schema" members with
    | none => exact Nat.zero_le _
    | some v => exact Nat.le_trans (Json.sum_lookup_le f hschema) (hf.obj members)
  | _ => exact Nat.zero_le _

/-- A table whose keys are distinct yields no more than the members of the object. -/
theorem sum_table_le (hf : Json.Additive f) (location : String) (ms : List (String × Json))
    (slots : List Slot) (distinct : (slots.map (·.key)).Nodup) :
    sumTasks f (spreadSlots location ms slots).tasks ≤ Json.sumMembers f ms :=
  Nat.le_trans (sum_slots_le hf _ _ _) (Json.sumUnder_le f _ _ distinct)

theorem sum_operationTasks_le (template location : String) (ms : List (String × Json)) :
    sumTasks f (operationTasks template location ms) + ((Json.lookup "parameters" ms).elim 0 f)
      ≤ Json.sumMembers f ms := by
  induction ms with
  | nil => simp [operationTasks, sumTasks, Json.lookup]
  | cons m ms ih =>
    obtain ⟨key, v⟩ := m
    simp only [operationTasks, Json.lookup, Json.sumMembers]
    by_cases hk : key = "parameters"
    · subst hk
      -- no method is spelled like the list of parameters, so the two are not counted twice
      have hmethod : methodOf? "parameters" = none := by decide +kernel
      simp only [hmethod, if_true, Option.elim_some]
      omega
    · simp only [if_neg hk]
      split
      · simp only [sumTasks]
        omega
      · omega

theorem sum_filterTasks_le (p : String × Json → Bool) (task : String × Json → Task)
    (htask : ∀ m, (task m).node = m.2) (ms : List (String × Json)) :
    sumTasks f ((ms.filter p).map task) ≤ Json.sumMembers f ms := by
  induction ms with
  | nil => simp [sumTasks]
  | cons m ms ih =>
    simp only [List.filter_cons, Json.sumMembers]
    split
    · simp only [List.map_cons, sumTasks, htask]
      omega
    · omega

/-- The tasks of an object come to no more than its members. A response has its headers
besides, so it leaves free what they come to. -/
theorem sum_yield_le (hf : Json.Additive f) (role : Role) (location : String)
    (members : List (String × Json)) (refs : List String) :
    sumTasks f (role.yield location members refs).tasks
        + (if role = .response then (Json.lookup "headers" members).elim 0 f else 0)
      ≤ Json.sumMembers f members := by
  cases role with
  | definitions => exact Nat.le_of_eq (sum_memberTasks ..)
  | paths => exact sum_filterTasks_le _ _ (fun _ => rfl) _
  | pathItem template =>
    have hslots := sum_slots_le hf location members [parametersSlot]
    have hmethods := sum_operationTasks_le (f := f) template location members
    simp only [Role.yield, reduceCtorEq, if_false, Yield.tasks_append, sumTasks_append,
      List.map_cons, List.map_nil, Json.sumUnder, parametersSlot, Nat.add_zero] at hslots ⊢
    omega
  | operation template method =>
    rw [Role.yield, Yield.tasks_own]
    exact sum_table_le hf location members operationSlots (by decide)
  | parameter =>
    rw [Role.yield, Yield.tasks_own]
    exact sum_table_le hf location members (parameterSlots refs) (by simp [parameterSlots])
  | requestBody =>
    rw [Role.yield]
    exact sum_table_le hf location members (requestBodySlots refs) (by simp [requestBodySlots])
  | response =>
    have hslots := sum_slots_le hf location members (responseSlots refs)
    have hall := Json.sumUnder_le f members ["content", "schema", "headers"] (by simp)
    simp only [Role.yield, if_true, responseSlots, List.map_cons, List.map_nil, Json.sumUnder,
      Nat.add_zero] at hslots hall ⊢
    omega
  | schema depth rs =>
    rw [Role.yield, Yield.tasks_own]
    exact sum_table_le hf location members (schemaSlots (depth + 1) refs) (by simp [schemaSlots])

end Sums

theorem weight_headers_le (w : Walker) (location : String) (refs : List String) (resolved : Nat)
    (hs : List (String × Json))
    (hkeeps : (headers w location refs resolved hs).resolved = resolved) :
    tasksWeight (headers w location refs resolved hs).tasks ≤ Json.weightMembers hs := by
  induction hs generalizing resolved with
  | nil => exact Nat.le_refl 0
  | cons h hs ih =>
    obtain ⟨name, header⟩ := h
    have hfirst := (follow_spends w resolved header refs).1
    have hothers := (headers_spends w location refs (follow w resolved header refs).2 hs).1
    simp only [headers, Yield.before] at hkeeps ⊢
    rw [hkeeps] at hothers
    have hstays : (follow w resolved header refs).2 = resolved := Nat.le_antisymm hothers hfirst
    rw [hstays] at hkeeps ⊢
    rw [tasksWeight_append, Json.weightMembers]
    refine Nat.add_le_add ?_ (ih resolved hkeeps)
    cases hl : (follow w resolved header refs).1 with
    | error why => exact Nat.zero_le _
    | ok found =>
      obtain ⟨node, rs⟩ := found
      obtain ⟨rfl, rfl⟩ := follow_eq_of_resolved (Prod.ext hl hstays)
      rw [tasksWeight_eq]
      exact sum_headerYield_le Json.additive_weight ..

theorem weight_readObject_le (w : Walker) (role : Role) (location : String)
    (members : List (String × Json)) (refs : List String) (resolved : Nat)
    (hkeeps : (readObject w role location members refs resolved).resolved = resolved) :
    tasksWeight (readObject w role location members refs resolved).tasks
      ≤ Json.weightMembers members := by
  have hyield := sum_yield_le Json.additive_weight role location members refs
  rw [← tasksWeight_eq, ← Json.weightMembers_eq] at hyield
  simp only [readObject, Yield.before, tasksWeight_append] at hkeeps ⊢
  unfold Role.headers at hkeeps ⊢
  split at hkeeps
  · rename_i hs hlookup
    have hheaders := weight_headers_le w _ refs resolved hs hkeeps
    rw [if_pos rfl, hlookup, Option.elim_some, Json.weight] at hyield
    omega
  · simp only [Yield.keeping, Yield.nothing, tasksWeight]
    omega

/-- What is not gone into is a schema nested deeper than the bound, or one that is `true`
or `false`. -/
theorem barred?_eq_some {w : Walker} {t : Task} {y : Yield} (h : barred? w t = some y) :
    (∃ depth refs, t.role = .schema depth refs ∧ w.limits.maxDepth < depth ∧
        y = .skip t.location (.tooDeep w.limits.maxDepth)) ∨
      (∃ depth refs b, t.role = .schema depth refs ∧ t.node = .bool b ∧ y = .nothing) := by
  unfold barred? at h
  split at h
  · rename_i depth refs hrole
    split at h
    · rename_i hdeep
      cases h
      exact Or.inl ⟨depth, refs, hrole, hdeep, rfl⟩
    · split at h
      · rename_i b hnode
        cases h
        exact Or.inr ⟨depth, refs, b, hrole, hnode, rfl⟩
      · cases h
  · cases h

theorem barred?_tasks {w : Walker} {t : Task} {y : Yield} (h : barred? w t = some y) :
    y.tasks = [] := by
  rcases barred?_eq_some h with ⟨_, _, _, _, rfl⟩ | ⟨_, _, _, _, _, rfl⟩ <;> rfl

theorem landing_eq_of_resolved {w : Walker} {resolved : Nat} {t : Task} {n : Json}
    {refs : List String} (h : landing w resolved t = (.ok (n, refs), resolved)) : n = t.node := by
  unfold landing at h
  split at h
  · exact (follow_eq_of_resolved h).1
  · cases h
    rfl

/-- A step that follows no reference leaves less to do than it found. -/
theorem weight_expand_lt {w : Walker} {resolved : Nat} {t : Task}
    (hkeeps : (expand w resolved t).resolved = resolved) :
    tasksWeight (expand w resolved t).tasks < t.node.weight := by
  have hpos := Json.weight_pos t.node
  unfold expand at hkeeps ⊢
  split at hkeeps
  · rename_i y hbarred
    rw [Yield.keeping, barred?_tasks hbarred]
    exact hpos
  · have hlands := (landing_spends w resolved t).1
    have harrives := (arrive_spends w t.role t.location (landing w resolved t)).1
    rw [hkeeps] at harrives
    have hstays : (landing w resolved t).2 = resolved := Nat.le_antisymm harrives hlands
    cases hl : (landing w resolved t).1 with
    | error why =>
      rw [← Prod.eta (landing w resolved t), hl]
      exact hpos
    | ok found =>
      obtain ⟨node, refs⟩ := found
      have hlanding : landing w resolved t = (.ok (node, refs), resolved) := Prod.ext hl hstays
      have hnode := landing_eq_of_resolved hlanding
      rw [hlanding] at hkeeps ⊢
      cases node with
      | obj members =>
        have hle := weight_readObject_le w t.role t.location members refs resolved hkeeps
        rw [← hnode, Json.weight]
        exact Nat.lt_succ_of_le hle
      | _ => exact hpos

end PatternAudit.Walk
