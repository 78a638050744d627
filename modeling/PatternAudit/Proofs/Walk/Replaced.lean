/-
A document with one value replaced.

`Json.replaceAt` puts another value at an address. Whatever stands apart from the address is
the same before and after, and so a reference to a node that stands apart names the same node
(`resolveRef?_replaceAt`). `RefsApart` says that this is so of all references of a document.

A `Position` is an address that a walk comes to without following a reference, together with
the keys that it takes on the way. It says where in the walk the replaced value comes up.
-/
import PatternAudit.Proofs.Walk.Addresses
import PatternAudit.Proofs.Walk.Descent

set_option autoImplicit false

namespace PatternAudit

namespace Json

/-! ## Replacing a value -/

/-- A tree with the value at an address replaced. An address that leads nowhere changes
nothing. -/
def replaceAt (v : Json) : Address → Json → Json
  | [], new => new
  | i :: rest, new =>
    match v with
    | arr vs => arr (vs.modify i fun u => u.replaceAt rest new)
    | obj ms => obj (ms.modify i fun m => (m.1, m.2.replaceAt rest new))
    | other => other

/-- Putting the old value back undoes a replacement. -/
theorem replaceAt_restore {v old : Json} {q : Address} (h : v.nodeAt? q = some old) (new : Json) :
    (v.replaceAt q new).replaceAt q old = v := by
  induction q generalizing v with
  | nil =>
    cases h
    rfl
  | cons i q ih =>
    obtain ⟨child, hchild, hold⟩ := Option.bind_eq_some_iff.1 h
    have hback : ∀ {α : Type} (l : List α) (f : α → α), (∀ x, l[i]? = some x → f x = x) →
        l.modify i f = l := by
      intro α l f hf
      refine List.ext_getElem? fun j => ?_
      rw [List.getElem?_modify]
      split
      · rename_i hij
        cases hl : l[j]? with
        | none => rfl
        | some x => exact congrArg some (hf x (hij ▸ hl))
      · simp
    cases v with
    | arr vs =>
      rw [replaceAt, replaceAt, List.modify_modify_eq]
      refine congrArg arr (hback _ _ fun x hx => ?_)
      have hsame : x = child := Option.some.inj (hx.symm.trans hchild)
      exact hsame ▸ ih hold
    | obj ms =>
      rw [replaceAt, replaceAt, List.modify_modify_eq]
      refine congrArg obj (hback _ _ fun m hm => ?_)
      have hsame : m.2 = child := by
        have hvalue : (ms.map Prod.snd)[i]? = some m.2 := by rw [List.getElem?_map, hm]; rfl
        exact Option.some.inj (hvalue.symm.trans hchild)
      refine Prod.ext rfl ?_
      show (m.2.replaceAt q new).replaceAt q old = m.2
      exact hsame ▸ ih hold
    | _ => rfl

/-- The member that is found first under a key: where it stands, and what becomes of it when
the value of some member changes. -/
theorem lookup_modify {key : String} {ms : List (String × Json)} {x : Json}
    (h : lookup key ms = some x) :
    ∃ j, (∀ f i, within key f i ms = (f x).map ((i + j) :: ·)) ∧
      ∀ i (g : Json → Json),
        lookup key (ms.modify i fun m => (m.1, g m.2)) = some (if i = j then g x else x) := by
  induction ms with
  | nil => cases h
  | cons m ms ih =>
    obtain ⟨k, v⟩ := m
    rw [lookup] at h
    by_cases hk : k = key
    · rw [if_pos hk] at h
      cases h
      refine ⟨0, fun f i => by rw [within, if_pos hk]; rfl, fun i g => ?_⟩
      cases i with
      | zero => simp [lookup, hk]
      | succ i => simp [lookup, hk]
    · rw [if_neg hk] at h
      obtain ⟨j, hwithin, hmodify⟩ := ih h
      refine ⟨j + 1, fun f i => ?_, fun i g => ?_⟩
      · rw [within, if_neg hk, hwithin, Nat.add_assoc, Nat.add_comm 1]
      · cases i with
        | zero => simp [lookup, hk, h]
        | succ i => simp [lookup, hk, hmodify]

/-! ## Parts of a tree -/

/-- Whether a tree is part of another one. -/
def Has (doc v : Json) : Prop := ∃ a, doc.nodeAt? a = some v

theorem Has.child {doc v u : Json} (h : doc.Has v) (hu : u ∈ v.children) : doc.Has u := by
  obtain ⟨a, ha⟩ := h
  obtain ⟨i, hi⟩ := List.mem_iff_getElem?.1 hu
  refine ⟨a ++ [i], ?_⟩
  rw [nodeAt?_append, ha, Option.bind_some, nodeAt?, hi]
  rfl

theorem Has.member {doc u : Json} {ms : List (String × Json)} {key : String}
    (h : doc.Has (obj ms)) (hu : (key, u) ∈ ms) : doc.Has u :=
  h.child (List.mem_map.2 ⟨(key, u), hu, rfl⟩)

theorem Has.get? {doc v u : Json} {key : String} (h : doc.Has v) (hu : v.get? key = some u) :
    doc.Has u := by
  cases v with
  | obj ms => exact h.member (mem_of_lookup_eq_some hu)
  | _ => cases hu

end Json

/-! ## References to nodes that stand apart -/

namespace Pointer

open Json (Address Apart)

theorem follow?_replaceAt {node last : Json} {segments : List (List Char)} {a q : Address}
    (h : follow? node segments = some last) (ha : a ∈ addresses node segments)
    (hapart : Apart a q) (new : Json) : follow? (node.replaceAt q new) segments = some last := by
  induction segments generalizing node a q with
  | nil => exact absurd (List.mem_singleton.1 ha ▸ List.nil_prefix) hapart.1
  | cons segment rest ih =>
    cases q with
    | nil => exact absurd List.nil_prefix hapart.2
    | cons i q =>
      -- the way goes on in a child, which is the changed one or another one
      have hon : ∀ {j : Nat} {child : Json}, follow? child rest = some last →
          a ∈ (addresses child rest).map (j :: ·) →
          follow? (if i = j then child.replaceAt q new else child) rest = some last := by
        intro j child hchild haddress
        obtain ⟨b, hb, rfl⟩ := List.mem_map.1 haddress
        split
        · rename_i hij
          subst hij
          exact ih hchild hb ⟨fun hle => hapart.1 (List.cons_prefix_cons.2 ⟨rfl, hle⟩),
            fun hle => hapart.2 (List.cons_prefix_cons.2 ⟨rfl, hle⟩)⟩
        · exact hchild
      obtain ⟨child, hchild, hrest⟩ := Option.bind_eq_some_iff.1 h
      cases node with
      | obj ms =>
        obtain ⟨j, hwithin, hmodify⟩ := Json.lookup_modify hchild
        rw [addresses, hwithin, Nat.zero_add] at ha
        rw [Json.replaceAt, follow?, child?, hmodify i fun u => u.replaceAt q new, Option.bind_some]
        exact hon hrest ha
      | arr vs =>
        obtain ⟨j, hj, hvs⟩ := Option.bind_eq_some_iff.1 hchild
        simp only [addresses, hj, hvs] at ha
        have hmodify : (vs.modify i fun u => u.replaceAt q new)[j]?
            = some (if i = j then child.replaceAt q new else child) := by
          rw [List.getElem?_modify, hvs]
          rfl
        rw [Json.replaceAt, follow?, child?, hj, Option.bind_some, hmodify, Option.bind_some]
        exact hon hrest ha
      | _ => cases hchild

/-- A reference to a node that stands apart from what is replaced names the node as before. -/
theorem resolveRef?_replaceAt {root node : Json} {reference : String} {q : Address}
    (h : resolveRef? root reference = some node) (hapart : Apart (addressOf root reference) q)
    (new : Json) : resolveRef? (root.replaceAt q new) reference = some node := by
  rw [resolveRef?_eq] at h ⊢
  obtain ⟨segments, hsegments, hfollow⟩ := Option.bind_eq_some_iff.1 h
  rw [hsegments, Option.bind_some]
  refine follow?_replaceAt hfollow ?_ hapart new
  -- the address of the reference is the one that its segments lead to
  have hlength := (stands_addresses root segments).length_eq
  rw [hfollow, Option.toList_some, List.length_singleton] at hlength
  obtain ⟨a, haddresses⟩ := List.length_eq_one_iff.1 hlength
  rw [addressOf, hsegments, Option.bind_some, haddresses]
  exact List.mem_singleton_self _

theorem has_of_resolveRef? {root node : Json} {reference : String}
    (h : resolveRef? root reference = some node) : root.Has node :=
  ⟨addressOf root reference, nodeAt?_addressOf h⟩

end Pointer

namespace Walk

open Json (Address Apart)

/-! ## The references of a document -/

mutual

/-- The references in a tree, wherever they stand. -/
def references : Json → List String
  | .arr items => referencesOfItems items
  | .obj members => (target? (.obj members)).toList ++ referencesOfMembers members
  | _ => []

/-- The references in a list of trees. -/
def referencesOfItems : List Json → List String
  | [] => []
  | v :: rest => references v ++ referencesOfItems rest

/-- The references in the values of members. -/
def referencesOfMembers : List (String × Json) → List String
  | [] => []
  | (_, v) :: rest => references v ++ referencesOfMembers rest

end

theorem references_subset_of_mem_children {v u : Json} (hu : u ∈ v.children) :
    references u ⊆ references v := by
  have hitems : ∀ vs : List Json, u ∈ vs → references u ⊆ referencesOfItems vs := by
    intro vs hvs
    induction vs with
    | nil => cases hvs
    | cons v vs ih =>
      rw [referencesOfItems]
      rcases List.mem_cons.1 hvs with rfl | hvs
      · exact List.subset_append_left ..
      · exact fun r hr => List.mem_append_right _ (ih hvs hr)
  have hmembers : ∀ ms : List (String × Json), u ∈ ms.map Prod.snd →
      references u ⊆ referencesOfMembers ms := by
    intro ms hms
    induction ms with
    | nil => cases hms
    | cons m ms ih =>
      obtain ⟨k, v⟩ := m
      rw [referencesOfMembers]
      rcases List.mem_cons.1 hms with rfl | hms
      · exact List.subset_append_left ..
      · exact fun r hr => List.mem_append_right _ (ih hms hr)
  cases v with
  | arr vs =>
    rw [references]
    exact hitems vs hu
  | obj ms =>
    rw [references]
    exact fun r hr => List.mem_append_right _ (hmembers ms hu hr)
  | _ => cases hu

/-- What a node of a document refers to is a reference of the document. -/
theorem mem_references {doc v : Json} {target : String} (h : doc.Has v)
    (htarget : target? v = some target) : target ∈ references doc := by
  obtain ⟨a, ha⟩ := h
  induction a generalizing doc with
  | nil =>
    cases ha
    cases v with
    | obj ms =>
      rw [references, htarget]
      exact List.mem_cons_self ..
    | _ => cases htarget
  | cons i a ih =>
    obtain ⟨child, hchild, ha⟩ := Option.bind_eq_some_iff.1 ha
    exact references_subset_of_mem_children (List.mem_of_getElem? hchild) (ih ha)

instance (a b : Address) : Decidable (Apart a b) :=
  inferInstanceAs (Decidable (¬ a <+: b ∧ ¬ b <+: a))

/-- Whether no reference of a document names the node at an address, one above or one below. -/
def RefsApart (doc : Json) (q : Address) : Prop :=
  ∀ target ∈ references doc, (Pointer.resolveRef? doc target).isSome = true →
    Apart (Pointer.addressOf doc target) q

instance (doc : Json) (q : Address) : Decidable (RefsApart doc q) :=
  inferInstanceAs (Decidable (∀ target ∈ references doc, _ → _))

/-- Whether the references that two documents share name the same nodes in both. -/
def SameReferences (doc doc' : Json) : Prop :=
  ∀ target ∈ references doc, target ∈ references doc' →
    Pointer.resolveRef? doc' target = Pointer.resolveRef? doc target

theorem sameReferences_replaceAt {doc old : Json} {q : Address} (hold : doc.nodeAt? q = some old)
    (new : Json) (hrefs : RefsApart doc q) (hrefs' : RefsApart (doc.replaceAt q new) q) :
    SameReferences doc (doc.replaceAt q new) := by
  intro target hmem hmem'
  cases hnode : Pointer.resolveRef? doc target with
  | some node =>
    exact Pointer.resolveRef?_replaceAt hnode (hrefs target hmem (hnode ▸ rfl)) new
  | none =>
    -- what the new document makes of the reference, the old one would have, too
    cases hnode' : Pointer.resolveRef? (doc.replaceAt q new) target with
    | none => rfl
    | some node =>
      have hback := Pointer.resolveRef?_replaceAt hnode' (hrefs' target hmem' (hnode' ▸ rfl)) old
      rw [Json.replaceAt_restore hold, hnode] at hback
      cases hback

/-! ## Positions -/

/-- The key that a walk takes for a member: the method that it names, where that counts, and
else the key that it has. -/
def Place.keyOf (p : Place) (key : String) : String :=
  if p = .pathItem then (methodOf? key).getD key else key

/-- The positions that a walk comes to from a node at a place without following a reference:
the keys that it takes, and the address. -/
inductive Position : Place → Json → List String → Address → Prop where
  | here (p : Place) (v : Json) : Position p v [] []
  | member {p q : Place} {ms : List (String × Json)} {i : Nat} {key : String} {u : Json}
      {keys : List String} {a : Address} (hreads : p.Reads (.obj ms))
      (hi : ms[i]? = some (key, u)) (hchild : Child p (.obj ms) (p.keyOf key) q u)
      (h : Position q u keys a) : Position p (.obj ms) (p.keyOf key :: keys) (i :: a)
  | element {p q : Place} {vs : List Json} {i : Nat} {u : Json} {keys : List String}
      {a : Address} (hplace : p.element? = some q) (hi : vs[i]? = some u)
      (h : Position q u keys a) : Position p (.arr vs) (toString i :: keys) (i :: a)

/-- There is a node at every position. -/
theorem Position.exists_nodeAt? {p : Place} {v : Json} {keys : List String} {a : Address}
    (h : Position p v keys a) : ∃ u, v.nodeAt? a = some u := by
  induction h with
  | here p v => exact ⟨v, rfl⟩
  | member _ hi _ _ ih =>
    obtain ⟨u, hu⟩ := ih
    exact ⟨u, by simp [Json.nodeAt?, Json.children, hi, hu]⟩
  | element _ hi _ ih =>
    obtain ⟨u, hu⟩ := ih
    exact ⟨u, by simp [Json.nodeAt?, Json.children, hi, hu]⟩

/-! ## Nodes on trails -/

theorem Child.mem_children {p q : Place} {v below : Json} {key : String}
    (h : Child p v key q below) : below ∈ v.children := by
  have hmember : ∀ {v x : Json} {key : String}, v.get? key = some x → x ∈ v.children := by
    intro v x key hget
    cases v with
    | obj ms => exact List.mem_map.2 ⟨_, Json.mem_of_lookup_eq_some hget, rfl⟩
    | _ => cases hget
  cases h with
  | member _ hv => exact hmember hv
  | tuple hv => exact hmember hv
  | items hv => exact hmember hv
  | additional hv => exact hmember hv
  | method hmem => exact List.mem_map.2 ⟨_, hmem, rfl⟩
  | entry _ hmem => exact List.mem_map.2 ⟨_, hmem, rfl⟩
  | element _ hi => exact List.mem_of_getElem? hi

/-- What a trail leads to is part of the document. -/
theorem Trail.has {w : Walker} {segs : List String} {p : Place} {v : Json} {refs : List String}
    (h : Trail w segs p v refs) : w.root.Has v := by
  induction h with
  | root => exact ⟨[], rfl⟩
  | hop _ _ _ _ _ hnext => exact Pointer.has_of_resolveRef? hnext
  | child _ _ hchild ih => exact ih.child hchild.mem_children

end Walk

end PatternAudit
