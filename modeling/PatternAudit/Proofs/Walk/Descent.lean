/-
Where the nodes of a description stand.

`Child` lists the steps down from a node, each with the key that it takes: a member, an
index, a method. What a node is read as decides which steps there are, so every position
has a `Place`. At six of these places a node may be a reference instead, and stands for
the node that it names.

A `Descent` goes from the root along a list of keys, through any references, the same
one as often as it likes. It knows nothing of a walk. A `Trail` is a descent that a walk
would make: it remembers the references it went through, enters none of them twice, and
no more of them than the bound.
-/
import PatternAudit.Proofs.Walk.Location
import PatternAudit.Walk.Expand

set_option autoImplicit false

namespace PatternAudit.Walk

/-! ## Places -/

/-- What a position of a description is read as. -/
inductive Place where
  | root
  | components
  /-- a map of named schemas -/
  | schemas
  | paths
  | pathItem
  | operation
  /-- a list of parameters -/
  | parameters
  | parameter
  | requestBody
  /-- a map of media types -/
  | content
  | mediaType
  | responses
  | response
  | headers
  | header
  | schema
  /-- the map of properties of a schema -/
  | properties
  /-- a list of schemas: the branches of a composition, or the items of a tuple -/
  | branches
  deriving DecidableEq

namespace Place

/-- Whether a node at a place may be a reference. -/
def refers : Place → Bool
  | pathItem | parameter | requestBody | response | header | schema => true
  | _ => false

/-- The members by which an object at a place leads on. Two members of a schema depend on
their values and have rules of their own in `Child`. -/
def members : Place → List (String × Place)
  | root => [("components", components), ("definitions", schemas), ("paths", paths)]
  | components => [("schemas", schemas)]
  | pathItem => [("parameters", parameters)]
  | operation =>
    [("parameters", parameters), ("requestBody", requestBody), ("responses", responses)]
  | parameter => [("schema", schema), ("items", schema), ("content", content)]
  | requestBody => [("content", content)]
  | mediaType => [("schema", schema)]
  | response => [("content", content), ("schema", schema), ("headers", headers)]
  | header => [("schema", schema)]
  | schema =>
    [("properties", properties), ("allOf", branches), ("anyOf", branches), ("oneOf", branches),
      ("not", schema)]
  | _ => []

/-- The keys of these members are written as they are. -/
theorem escape_member {p q : Place} {key : String} (h : (key, q) ∈ p.members) :
    Pointer.escape key = key := by
  have hall : ∀ m ∈ p.members, Pointer.escape m.1 = m.1 := by cases p <;> decide
  exact hall (key, q) h

/-- The places from which named members are the only way on. -/
def membersOnly : Place → Bool
  | root | components | operation | parameter | requestBody | mediaType | response | header => true
  | _ => false

/-- What every member of a map is. -/
def entry? : Place → Option Place
  | schemas | properties => some schema
  | paths => some pathItem
  | content => some mediaType
  | responses => some response
  | headers => some header
  | _ => none

/-- What every element of a list is. -/
def element? : Place → Option Place
  | parameters => some parameter
  | branches => some schema
  | _ => none

/-- The places that no step of a walk is made for: each is gone through as part of the
step at the place above. -/
def between : Place → Bool
  | root | components | parameters | content | mediaType | responses | headers | properties
  | branches => true
  | _ => false

/-- Whether a node is read at a place, instead of the node that it refers to. -/
def Reads (p : Place) (v : Json) : Prop := p.refers = true → target? v = none

/-- The references that a descent remembers below a place. What a path item refers to is
forgotten again. -/
def carry (p : Place) (refs : List String) : List String := if p = pathItem then [] else refs

theorem reads_of_not_refers {p : Place} (h : p.refers = false) (v : Json) : p.Reads v := by
  intro hrefers
  rw [h] at hrefers
  cases hrefers

theorem carry_of_not_refers {p : Place} (h : p.refers = false) (refs : List String) :
    p.carry refs = refs := by
  refine if_neg ?_
  rintro rfl
  cases h

/-- Neither lists nor maps are ever references. -/
theorem refers_of_element {p q : Place} (h : p.element? = some q) : p.refers = false := by
  cases p <;> first | rfl | cases h

theorem refers_of_entry {p q : Place} (h : p.entry? = some q) : p.refers = false := by
  cases p <;> first | rfl | cases h

theorem ne_paths_of_between {p : Place} (h : p.between = true) : p ≠ paths := by
  rintro rfl
  cases h

theorem between_of_element {p q : Place} (h : p.element? = some q) : p.between = true := by
  cases p <;> first | rfl | cases h

theorem refers_of_between {p : Place} (h : p.between = true) : p.refers = false := by
  cases p <;> first | rfl | cases h

theorem only_members {p : Place} (h : p.membersOnly = true) :
    p.entry? = none ∧ p.element? = none := by
  cases p <;> first | exact ⟨rfl, rfl⟩ | cases h

/-- A list has elements only. -/
theorem only_element {p q : Place} (h : p.element? = some q) :
    p.members = [] ∧ p.entry? = none := by
  cases p <;> first | exact ⟨rfl, rfl⟩ | cases h

/-- A map has entries only. -/
theorem only_entry {p q : Place} (h : p.entry? = some q) :
    p.members = [] ∧ p.element? = none := by
  cases p <;> first | exact ⟨rfl, rfl⟩ | cases h

/-- A key leads from an object to one place only. -/
theorem members_unique {p q r : Place} {key : String} (hq : (key, q) ∈ p.members)
    (hr : (key, r) ∈ p.members) : q = r := by
  have hall : ∀ m ∈ p.members, ∀ m' ∈ p.members, m.1 = m'.1 → m.2 = m'.2 := by cases p <;> decide
  exact hall (key, q) hq (key, r) hr rfl

/-- The places whose `pattern` member counts. -/
def bearsPattern : Place → Bool
  | parameter | header | schema => true
  | _ => false

theorem between_of_bearsPattern {p : Place} (h : p.bearsPattern = true) : p.between = false := by
  cases p <;> first | rfl | cases h

end Place

/-! ## Steps down -/

/-- Only objects have members. -/
theorem obj_of_get? {v x : Json} {key : String} (h : v.get? key = some x) : ∃ ms, v = .obj ms := by
  cases v with
  | obj ms => exact ⟨ms, rfl⟩
  | _ => cases h

/-- One step down, from a node at a place to another one, with the key that it takes. -/
inductive Child : Place → Json → String → Place → Json → Prop where
  /-- a member that leads on -/
  | member {p q : Place} {key : String} {v below : Json} (hplace : (key, q) ∈ p.members)
      (hv : v.get? key = some below) : Child p v key q below
  /-- the items of a tuple -/
  | tuple {v : Json} {vs : List Json} (hv : v.get? "items" = some (.arr vs)) :
      Child .schema v "items" .branches (.arr vs)
  /-- the one schema of all items -/
  | items {v below : Json} (hv : v.get? "items" = some below) (hone : ∀ vs, below ≠ .arr vs) :
      Child .schema v "items" .schema below
  /-- a schema of additional properties, which is an object -/
  | additional {v : Json} {ms : List (String × Json)}
      (hv : v.get? "additionalProperties" = some (.obj ms)) :
      Child .schema v "additionalProperties" .schema (.obj ms)
  /-- an operation, under any spelling of its method -/
  | method {ms : List (String × Json)} {key method : String} {below : Json}
      (hmem : (key, below) ∈ ms) (hmethod : method ∈ methods)
      (hkey : method.toList = key.toList.map Text.lowerAscii) :
      Child .pathItem (.obj ms) method .operation below
  /-- a member of a map; extensions are no paths -/
  | entry {p q : Place} {ms : List (String × Json)} {key : String} {below : Json}
      (hplace : p.entry? = some q) (hmem : (key, below) ∈ ms)
      (hpath : p = .paths → isExtension key = false) : Child p (.obj ms) key q below
  /-- an element of a list -/
  | element {p q : Place} {vs : List Json} {i : Nat} {below : Json}
      (hplace : p.element? = some q) (hi : vs[i]? = some below) :
      Child p (.arr vs) (toString i) q below

namespace Child

/-- Every member of a map counts, unless it is the map of paths. -/
theorem entry_of_ne {p q : Place} {ms : List (String × Json)} {key : String} {below : Json}
    (hplace : p.entry? = some q) (hmem : (key, below) ∈ ms) (hpath : p ≠ .paths) :
    Child p (.obj ms) key q below :=
  .entry hplace hmem fun hp => absurd hp hpath

/-- The only step from a list goes to one of its elements. -/
theorem of_element {p q r : Place} {v below : Json} {key : String} (hplace : p.element? = some r)
    (h : Child p v key q below) :
    q = r ∧ ∃ (vs : List Json) (i : Nat), v = .arr vs ∧ key = toString i ∧ vs[i]? = some below := by
  obtain ⟨hmembers, hentries⟩ := Place.only_element hplace
  cases h with
  | member hmember =>
    rw [hmembers] at hmember
    cases hmember
  | entry hentry =>
    rw [hentries] at hentry
    cases hentry
  | @element _ _ vs i _ helement hi =>
    rw [hplace] at helement
    cases helement
    exact ⟨rfl, vs, i, rfl, rfl, hi⟩
  | _ => cases hplace

/-- The only step from a map goes to one of its members. -/
theorem of_entry {p q r : Place} {v below : Json} {key : String} (hplace : p.entry? = some r)
    (h : Child p v key q below) :
    q = r ∧ ∃ ms, v = .obj ms ∧ (key, below) ∈ ms ∧ (p = .paths → isExtension key = false) := by
  obtain ⟨hmembers, helements⟩ := Place.only_entry hplace
  cases h with
  | member hmember =>
    rw [hmembers] at hmember
    cases hmember
  | @entry _ _ ms _ _ hentry hmem hpath =>
    rw [hplace] at hentry
    cases hentry
    exact ⟨rfl, ms, rfl, hmem, hpath⟩
  | element helement =>
    rw [helements] at helement
    cases helement
  | _ => cases hplace

/-- The only step along the key of a member goes to the member. -/
theorem of_member {p q r : Place} {v below : Json} {key : String} (hplace : (key, r) ∈ p.members)
    (h : Child p v key q below) : q = r ∧ v.get? key = some below := by
  have hsome : p.members ≠ [] := List.ne_nil_of_mem hplace
  cases h with
  | member hmember hv => exact ⟨Place.members_unique hmember hplace, hv⟩
  | tuple => simp [Place.members] at hplace
  | items => simp [Place.members] at hplace
  | additional => simp [Place.members] at hplace
  | method _ hmethod =>
    -- no method is spelled like the list of parameters
    have hkey : key = "parameters" := congrArg Prod.fst (List.mem_singleton.1 hplace)
    rw [hkey] at hmethod
    exact absurd hmethod (by decide)
  | entry hentry => exact absurd (Place.only_entry hentry).1 hsome
  | element helement => exact absurd (Place.only_element helement).1 hsome

/-- Where named members are the only way on, every step goes along one of them. -/
theorem mem_members {p q : Place} {v below : Json} {key : String} (hplace : p.membersOnly = true)
    (h : Child p v key q below) : (key, q) ∈ p.members := by
  obtain ⟨hentries, helements⟩ := Place.only_members hplace
  cases h with
  | member hmember => exact hmember
  | entry hentry =>
    rw [hentries] at hentry
    cases hentry
  | element helement =>
    rw [helements] at helement
    cases helement
  | _ => cases hplace

/-- Only a list has elements; every other step goes down from an object. -/
theorem obj_of_not_element {p q : Place} {v below : Json} {key : String}
    (helement : p.element? = none) (h : Child p v key q below) : ∃ ms, v = .obj ms := by
  cases h with
  | member _ hv => exact obj_of_get? hv
  | tuple hv => exact obj_of_get? hv
  | items hv => exact obj_of_get? hv
  | additional hv => exact obj_of_get? hv
  | method => exact ⟨_, rfl⟩
  | entry => exact ⟨_, rfl⟩
  | element hplace =>
    rw [hplace] at helement
    cases helement

/-- Only responses have headers. -/
theorem of_headers {p : Place} {v below : Json} {key : String} (h : Child p v key .headers below) :
    p = .response ∧ key = "headers" ∧ v.get? "headers" = some below := by
  cases h with
  | member hmember hv =>
    have hall : ∀ m ∈ p.members, m.2 = .headers → p = .response ∧ m.1 = "headers" := by
      cases p <;> decide
    obtain ⟨hplace, hkey⟩ := hall _ hmember rfl
    cases hkey
    exact ⟨hplace, rfl, hv⟩
  | entry hplace => cases p <;> cases hplace
  | element hplace => cases p <;> cases hplace

/-- The steps down from a schema. -/
theorem of_schema {q : Place} {v below : Json} {key : String} (h : Child .schema v key q below) :
    (key, q) ∈ Place.members .schema ∨
      (key = "items" ∧ v.get? key = some below ∧
        ((q = .branches ∧ ∃ vs, below = .arr vs) ∨ (q = .schema ∧ ∀ vs, below ≠ .arr vs))) ∨
      (key = "additionalProperties" ∧ v.get? key = some below ∧ q = .schema ∧
        ∃ ms, below = .obj ms) := by
  cases h with
  | member hmember => exact Or.inl hmember
  | tuple hv => exact Or.inr (Or.inl ⟨rfl, hv, Or.inl ⟨rfl, _, rfl⟩⟩)
  | items hv hone => exact Or.inr (Or.inl ⟨rfl, hv, Or.inr ⟨rfl, hone⟩⟩)
  | additional hv => exact Or.inr (Or.inr ⟨rfl, hv, rfl, _, rfl⟩)
  | entry hplace => cases hplace
  | element hplace => cases hplace

end Child

/-- Descents from the root of a document along a list of keys. -/
inductive Descent (doc : Json) : List String → Place → Json → Prop where
  | root : Descent doc [] .root doc
  /-- a reference, followed in place -/
  | hop {segs : List String} {p : Place} {v next : Json} {target : String}
      (h : Descent doc segs p v) (hrefers : p.refers = true) (htarget : target? v = some target)
      (hnext : Pointer.resolveRef? doc target = some next) : Descent doc segs p next
  | child {segs : List String} {p q : Place} {v below : Json} {key : String}
      (h : Descent doc segs p v) (hreads : p.Reads v) (hchild : Child p v key q below) :
      Descent doc (segs ++ [key]) q below

/-- The descents of a walk, each with the references it went through, innermost first. -/
inductive Trail (w : Walker) : List String → Place → Json → List String → Prop where
  | root : Trail w [] .root w.root []
  | hop {segs : List String} {p : Place} {v next : Json} {target : String} {refs : List String}
      (h : Trail w segs p v refs) (hrefers : p.refers = true) (htarget : target? v = some target)
      (hnew : target ∉ refs) (hbound : refs.length < w.limits.maxDepth)
      (hnext : Pointer.resolveRef? w.root target = some next) :
      Trail w segs p next (target :: refs)
  | child {segs : List String} {p q : Place} {v below : Json} {key : String} {refs : List String}
      (h : Trail w segs p v refs) (hreads : p.Reads v) (hchild : Child p v key q below) :
      Trail w (segs ++ [key]) q below (p.carry refs)

theorem Trail.descent {w : Walker} {segs : List String} {p : Place} {v : Json}
    {refs : List String} (h : Trail w segs p v refs) : Descent w.root segs p v := by
  induction h with
  | root => exact .root
  | hop _ hrefers htarget _ _ hnext ih => exact .hop ih hrefers htarget hnext
  | child _ hreads hchild ih => exact .child ih hreads hchild

/-! ## The references of a trail -/

theorem Place.mem_of_mem_carry {p : Place} {refs : List String} {r : String}
    (h : r ∈ p.carry refs) : r ∈ refs := by
  unfold Place.carry at h
  split at h
  · cases h
  · exact h

/-- What the references that a descent went through are always like. -/
structure ChainOk (w : Walker) (refs : List String) : Prop where
  nodup : refs.Nodup
  bounded : refs.length ≤ w.limits.maxDepth
  resolves : ∀ r ∈ refs, r.toList.head? = some '#' ∧ ∃ v, Pointer.resolveRef? w.root r = some v

theorem ChainOk.nil (w : Walker) : ChainOk w [] where
  nodup := List.nodup_nil
  bounded := Nat.zero_le _
  resolves _ hr := absurd hr List.not_mem_nil

theorem ChainOk.cons {w : Walker} {refs : List String} {target : String} {next : Json}
    (h : ChainOk w refs) (hnew : target ∉ refs) (hbound : refs.length < w.limits.maxDepth)
    (hnext : Pointer.resolveRef? w.root target = some next) : ChainOk w (target :: refs) where
  nodup := List.nodup_cons.2 ⟨hnew, h.nodup⟩
  bounded := hbound
  resolves := by
    intro r hr
    rcases List.mem_cons.1 hr with rfl | hr
    · exact ⟨Pointer.head_of_resolveRef? hnext, next, hnext⟩
    · exact h.resolves r hr

theorem Trail.chainOk {w : Walker} {segs : List String} {p : Place} {v : Json}
    {refs : List String} (h : Trail w segs p v refs) : ChainOk w refs := by
  induction h with
  | root => exact .nil w
  | hop _ _ _ hnew hbound hnext ih => exact ih.cons hnew hbound hnext
  | @child segs p _ _ _ _ _ _ _ _ ih =>
    -- below a path item the chain starts anew
    by_cases hp : p = .pathItem
    · rw [Place.carry, if_pos hp]
      exact .nil w
    · rw [Place.carry, if_neg hp]
      exact ih

/-- A reference that a trail remembers was entered on a trail of its own, at a place
where it was used. -/
theorem Trail.of_mem_refs {w : Walker} {segs : List String} {p : Place} {v : Json}
    {refs : List String} {target : String} (h : Trail w segs p v refs) (hmem : target ∈ refs) :
    ∃ segs' q u next refs', Trail w segs' q u refs' ∧ q.refers = true ∧
      target? u = some target ∧ Pointer.resolveRef? w.root target = some next ∧
      Trail w segs' q next (target :: refs') := by
  induction h with
  | root => cases hmem
  | @hop segs p v next new refs h hrefers htarget hnew hbound hnext ih =>
    rcases List.mem_cons.1 hmem with rfl | hmem
    · exact ⟨segs, p, v, next, refs, h, hrefers, htarget, hnext,
        .hop h hrefers htarget hnew hbound hnext⟩
    · exact ih hmem
  | child _ _ _ ih =>
    -- a step down remembers no more than it was given
    exact ih (Place.mem_of_mem_carry hmem)

/-- Following references from the end of a trail ends at the end of a trail. -/
theorem Trail.follow {w : Walker} {segs : List String} {p : Place} {n m : Nat} {v last : Json}
    {refs rs : List String} (h : Trail w segs p v refs) (hrefers : p.refers = true)
    (hfollow : follow w n v refs = (.ok (last, rs), m)) :
    Trail w segs p last rs ∧ p.Reads last := by
  fun_induction Walk.follow w n v refs with
  | case1 n v refs htarget =>
    cases hfollow
    exact ⟨h, fun _ => htarget⟩
  | case2 n v refs target htarget why hhop => cases hfollow
  | case3 n v refs target htarget next hhop ih =>
    obtain ⟨hnew, hbound, -, hnext⟩ := hop_eq_ok_iff.1 hhop
    exact ih (.hop h hrefers htarget hnew hbound hnext) hfollow

end PatternAudit.Walk
