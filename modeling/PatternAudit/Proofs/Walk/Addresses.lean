/-
Where a node stands in a tree.

Two nodes of a tree may be alike. What tells them apart is their address: which child to
take at each level. A node is inside of another one exactly if its address begins with the
address of that one, so addresses of which none begins with another one belong to separate
parts of a tree (`Apart`). `Stands` says that a list of nodes stands at a list of such
addresses. It is put together child by child (`Stands.each`) and key by key
(`Stands.within`), as the nodes are.

The nodes that references name have addresses, too (`Pointer.nodeAt?_addressOf`).
-/
import PatternAudit.Pointer

set_option autoImplicit false

namespace PatternAudit

namespace Json

/-! ## Addresses -/

/-- Which child to take at each level, from the root down. -/
abbrev Address := List Nat

/-- The trees that a tree is made of, in order. -/
def children : Json → List Json
  | arr vs => vs
  | obj ms => ms.map Prod.snd
  | _ => []

/-- The tree at an address. -/
def nodeAt? (v : Json) : Address → Option Json
  | [] => some v
  | i :: rest => (v.children[i]?).bind (·.nodeAt? rest)

theorem nodeAt?_append (v : Json) (a b : Address) :
    v.nodeAt? (a ++ b) = (v.nodeAt? a).bind (·.nodeAt? b) := by
  induction a generalizing v with
  | nil => rfl
  | cons i a ih =>
    rw [List.cons_append, nodeAt?, nodeAt?, Option.bind_assoc]
    simp only [ih]

/-- Whether neither of two addresses leads through the other. -/
def Apart (a b : Address) : Prop := ¬ a <+: b ∧ ¬ b <+: a

theorem apart_of_ne {i j : Nat} (h : i ≠ j) (a b : Address) : Apart (i :: a) (j :: b) := by
  constructor <;> intro hprefix <;> have hhead := (List.cons_prefix_cons.1 hprefix).1 <;> omega

theorem Apart.cons {a b : Address} (h : Apart a b) (i : Nat) : Apart (i :: a) (i :: b) :=
  ⟨fun hprefix => h.1 (List.cons_prefix_cons.1 hprefix).2,
    fun hprefix => h.2 (List.cons_prefix_cons.1 hprefix).2⟩

/-- Of addresses that are apart, one at most leads to a node or to a node around it. -/
theorem countP_prefix_le {as : List Address} (h : as.Pairwise Apart) (b : Address) :
    as.countP (fun a => decide (a <+: b)) ≤ 1 := by
  induction as with
  | nil => exact Nat.zero_le _
  | cons a as ih =>
    obtain ⟨hfirst, hothers⟩ := List.pairwise_cons.1 h
    rw [List.countP_cons]
    by_cases hab : a <+: b
    · -- two beginnings of one address are never apart
      have hnone : as.countP (fun a => decide (a <+: b)) = 0 := by
        refine List.countP_eq_zero.2 fun a' ha' hb => ?_
        have hapart := hfirst a' ha'
        rcases List.prefix_or_prefix_of_prefix hab (of_decide_eq_true hb) with hle | hle
        · exact hapart.1 hle
        · exact hapart.2 hle
      simp [hnone, hab]
    · simpa [hab] using ih hothers

/-! ## Nodes that stand apart -/

/-- Whether nodes stand at addresses of a tree, none of them inside of another one. -/
structure Stands (v : Json) (as : List Address) (nodes : List Json) : Prop where
  found : as.map v.nodeAt? = nodes.map some
  apart : as.Pairwise Apart

namespace Stands

variable {v : Json} {as bs : List Address} {ns ms : List Json}

theorem nil (v : Json) : Stands v [] [] := ⟨rfl, .nil⟩

theorem self (v : Json) : Stands v [[]] [v] := ⟨rfl, List.pairwise_singleton ..⟩

theorem length_eq (h : Stands v as ns) : as.length = ns.length := by
  simpa using congrArg List.length h.found

theorem append (ha : Stands v as ns) (hb : Stands v bs ms)
    (hapart : ∀ a ∈ as, ∀ b ∈ bs, Apart a b) : Stands v (as ++ bs) (ns ++ ms) where
  found := by rw [List.map_append, List.map_append, ha.found, hb.found]
  apart := List.pairwise_append.2 ⟨ha.apart, hb.apart, hapart⟩

/-- What stands in a child stands in the tree. -/
theorem below {i : Nat} {child : Json} (h : Stands child as ns) (hi : v.children[i]? = some child) :
    Stands v (as.map (i :: ·)) ns where
  found := by
    rw [← h.found, List.map_map]
    refine List.map_congr_left fun a _ => ?_
    rw [Function.comp_apply, nodeAt?, hi, Option.bind_some]
  apart := List.pairwise_map.2 (h.apart.imp fun h => h.cons i)

end Stands

/-! ## Child by child -/

/-- The addresses that each of a list of children gives, from an index on. -/
def each {α : Type} (f : α → List Address) : Nat → List α → List Address
  | _, [] => []
  | i, x :: rest => (f x).map (i :: ·) ++ each f (i + 1) rest

/-- The addresses that the first member under a key gives, from an index on. -/
def within (key : String) (f : Json → List Address) : Nat → List (String × Json) → List Address
  | _, [] => []
  | i, (k, v) :: rest => if k = key then (f v).map (i :: ·) else within key f (i + 1) rest

/-- The addresses that the member of an object under a key gives. -/
def inside (key : String) (f : Json → List Address) : Json → List Address
  | obj ms => within key f 0 ms
  | _ => []

/-- The address of a node in itself. -/
def here {α : Type} : α → List Address := fun _ => [[]]

theorem mem_each {α : Type} {f : α → List Address} {i : Nat} {xs : List α} {a : Address} :
    a ∈ each f i xs ↔ ∃ j x rest, xs[j]? = some x ∧ rest ∈ f x ∧ a = (i + j) :: rest := by
  induction xs generalizing i with
  | nil => simp [each]
  | cons x xs ih =>
    rw [each, List.mem_append, List.mem_map, ih]
    constructor
    · rintro (⟨rest, hrest, rfl⟩ | ⟨j, y, rest, hj, hrest, rfl⟩)
      · exact ⟨0, x, rest, rfl, hrest, rfl⟩
      · exact ⟨j + 1, y, rest, hj, hrest, by rw [Nat.add_right_comm, Nat.add_assoc]⟩
    · rintro ⟨j, y, rest, hj, hrest, rfl⟩
      cases j with
      | zero =>
        cases hj
        exact .inl ⟨rest, hrest, rfl⟩
      | succ j => exact .inr ⟨j, y, rest, hj, hrest, by rw [Nat.add_right_comm, Nat.add_assoc]⟩

theorem of_mem_within {key : String} {f : Json → List Address} {i : Nat}
    {ms : List (String × Json)} {a : Address} (h : a ∈ within key f i ms) :
    ∃ j v rest, ms[j]? = some (key, v) ∧ rest ∈ f v ∧ a = (i + j) :: rest := by
  induction ms generalizing i with
  | nil => cases h
  | cons m ms ih =>
    obtain ⟨k, v⟩ := m
    rw [within] at h
    split at h
    · rename_i hk
      obtain ⟨rest, hrest, rfl⟩ := List.mem_map.1 h
      exact ⟨0, v, rest, by rw [hk, List.getElem?_cons_zero], hrest, rfl⟩
    · obtain ⟨j, v', rest, hj, hrest, rfl⟩ := ih h
      exact ⟨j + 1, v', rest, hj, hrest, by rw [Nat.add_right_comm, Nat.add_assoc]⟩

section Below

variable {v : Json}

/-- The first of the children from an index on, and the others. -/
theorem children_of_drop {i : Nat} {child : Json} {others : List Json}
    (h : v.children.drop i = child :: others) :
    v.children[i]? = some child ∧ v.children.drop (i + 1) = others := by
  constructor
  · rw [← List.head?_drop, h, List.head?_cons]
  · rw [← List.tail_drop, h, List.tail_cons]

theorem Stands.each {α : Type} {f : α → List Address} {g : α → List Json} {child : α → Json}
    (h : ∀ x, Stands (child x) (f x) (g x)) {i : Nat} {xs : List α}
    (hchildren : v.children.drop i = xs.map child) : Stands v (each f i xs) (xs.flatMap g) := by
  induction xs generalizing i with
  | nil => exact .nil v
  | cons x xs ih =>
    obtain ⟨hfirst, hothers⟩ := children_of_drop hchildren
    refine ((h x).below hfirst).append (ih hothers) fun a ha b hb => ?_
    obtain ⟨rest, -, rfl⟩ := List.mem_map.1 ha
    obtain ⟨j, _, rest', -, -, rfl⟩ := mem_each.1 hb
    exact apart_of_ne (by omega) _ _

theorem Stands.within {f : Json → List Address} {g : Json → List Json}
    (h : ∀ u, Stands u (f u) (g u)) (key : String) {i : Nat} {ms : List (String × Json)}
    (hchildren : v.children.drop i = ms.map Prod.snd) :
    Stands v (within key f i ms) ((lookup key ms).elim [] g) := by
  induction ms generalizing i with
  | nil => exact .nil v
  | cons m ms ih =>
    obtain ⟨k, u⟩ := m
    obtain ⟨hfirst, hothers⟩ := children_of_drop hchildren
    rw [Json.within, lookup]
    split
    · exact (h u).below hfirst
    · exact ih hothers

theorem Stands.inside {f : Json → List Address} {g : Json → List Json}
    (h : ∀ u, Stands u (f u) (g u)) (key : String) :
    Stands v (inside key f v) ((v.get? key).elim [] g) := by
  cases v with
  | obj ms => exact .within h key rfl
  | _ => exact .nil _

end Below

/-! ## Through members -/

/-- Whether an address leads through a member under a key. -/
def Through (ms : List (String × Json)) (key : String) (a : Address) : Prop :=
  ∃ i v rest, ms[i]? = some (key, v) ∧ a = i :: rest

section Through

variable {ms : List (String × Json)} {key other : String} {a b : Address}

theorem through_of_mem_within {f : Json → List Address} (h : a ∈ within key f 0 ms) :
    Through ms key a := by
  obtain ⟨i, v, rest, hi, -, rfl⟩ := of_mem_within h
  exact ⟨i, v, rest, hi, by rw [Nat.zero_add]⟩

theorem through_of_mem_inside {f : Json → List Address} {v : Json} (h : a ∈ inside key f v) :
    ∃ ms, v = obj ms ∧ Through ms key a := by
  cases v with
  | obj ms => exact ⟨ms, rfl, through_of_mem_within h⟩
  | _ => cases h

theorem Through.append (h : Through ms key a) (b : Address) : Through ms key (a ++ b) := by
  obtain ⟨i, v, rest, hi, rfl⟩ := h
  exact ⟨i, v, rest ++ b, hi, rfl⟩

theorem Through.ne_nil (h : Through ms key a) : a ≠ [] := by
  obtain ⟨i, v, rest, -, rfl⟩ := h
  exact List.cons_ne_nil i rest

/-- Members under different keys are different members. -/
theorem Through.apart (ha : Through ms key a) (hb : Through ms other b) (hne : key ≠ other) :
    Apart a b := by
  obtain ⟨i, v, rest, hi, rfl⟩ := ha
  obtain ⟨j, u, rest', hj, rfl⟩ := hb
  refine apart_of_ne ?_ _ _
  rintro rfl
  rw [hi] at hj
  cases hj
  exact hne rfl

end Through

/-! ## Nodes that bear patterns -/

/-- The text that an object has as its `pattern`. -/
def pattern? (v : Json) : Option String := (v.get? "pattern").bind asStr?

mutual

/-- The addresses of the objects of a tree that have a text as their `pattern`. -/
def bearers : Json → List Address
  | null => []
  | bool _ => []
  | num _ => []
  | str _ => []
  | arr items => bearersOfItems 0 items
  | obj members =>
    (if (pattern? (obj members)).isSome then [[]] else []) ++ bearersOfMembers 0 members

/-- The addresses of these objects in a list of trees, from an index on. -/
def bearersOfItems : Nat → List Json → List Address
  | _, [] => []
  | i, v :: rest => (bearers v).map (i :: ·) ++ bearersOfItems (i + 1) rest

/-- The addresses of these objects in the values of members, from an index on. -/
def bearersOfMembers : Nat → List (String × Json) → List Address
  | _, [] => []
  | i, (_, v) :: rest => (bearers v).map (i :: ·) ++ bearersOfMembers (i + 1) rest

end

theorem bearersOfItems_eq (i : Nat) (vs : List Json) : bearersOfItems i vs = each bearers i vs := by
  induction vs generalizing i with
  | nil => rfl
  | cons v vs ih => rw [bearersOfItems, each, ih]

theorem bearersOfMembers_eq (i : Nat) (ms : List (String × Json)) :
    bearersOfMembers i ms = each bearers i (ms.map Prod.snd) := by
  induction ms generalizing i with
  | nil => rfl
  | cons m ms ih => rw [bearersOfMembers, List.map_cons, each, ih]

/-- An object with a pattern bears it, and so do the nodes of its children. -/
theorem bearers_eq (v : Json) :
    v.bearers = (if v.pattern?.isSome then [[]] else []) ++ each bearers 0 v.children := by
  cases v with
  | arr vs => rw [bearers, bearersOfItems_eq]; rfl
  | obj ms => rw [bearers, bearersOfMembers_eq]; rfl
  | _ => rfl

/-- The bearers of a tree are its nodes that have a pattern. -/
theorem mem_bearers {v : Json} {a : Address} :
    a ∈ v.bearers ↔ ∃ u, v.nodeAt? a = some u ∧ u.pattern?.isSome = true := by
  induction a generalizing v with
  | nil =>
    rw [bearers_eq, List.mem_append, nodeAt?]
    constructor
    · rintro (hown | hbelow)
      · split at hown
        · rename_i hpattern
          exact ⟨v, rfl, hpattern⟩
        · cases hown
      · obtain ⟨j, x, rest, -, -, hnil⟩ := mem_each.1 hbelow
        cases hnil
    · rintro ⟨u, hu, hpattern⟩
      cases hu
      rw [if_pos hpattern]
      exact .inl (List.mem_singleton_self _)
  | cons i a ih =>
    rw [bearers_eq, List.mem_append, nodeAt?]
    constructor
    · rintro (hown | hbelow)
      · split at hown
        · cases List.mem_singleton.1 hown
        · cases hown
      · obtain ⟨j, x, rest, hj, hrest, hcons⟩ := mem_each.1 hbelow
        rw [Nat.zero_add] at hcons
        cases hcons
        rw [hj, Option.bind_some]
        exact ih.1 hrest
    · rintro ⟨u, hu, hpattern⟩
      obtain ⟨child, hchild, hu⟩ := Option.bind_eq_some_iff.1 hu
      exact .inr (mem_each.2 ⟨i, child, a, hchild, ih.2 ⟨u, hu, hpattern⟩, by rw [Nat.zero_add]⟩)

end Json

/-! ## Named nodes -/

namespace Pointer

open Json (Address Stands)

/-- The segments of a pointer. -/
def segmentsOf? (pointer : String) : Option (List (List Char)) :=
  match pointer.toList with
  | [] => some []
  | '/' :: cs => some (splitSlash cs)
  | _ => none

/-- The segments of a local reference. -/
def segments? (reference : String) : Option (List (List Char)) :=
  match reference.toList with
  | '#' :: [] => some []
  | '#' :: cs => segmentsOf? (percentDecode (String.ofList cs))
  | _ => none

theorem resolve?_eq (root : Json) (pointer : String) :
    resolve? root pointer = (segmentsOf? pointer).bind (follow? root) := by
  unfold resolve? segmentsOf?
  cases pointer.toList with
  | nil => rfl
  | cons c cs =>
    by_cases hc : c = '/'
    · rw [hc]
      rfl
    · simp [hc]

theorem resolveRef?_eq (root : Json) (reference : String) :
    resolveRef? root reference = (segments? reference).bind (follow? root) := by
  unfold resolveRef? segments?
  cases reference.toList with
  | nil => rfl
  | cons c cs =>
    by_cases hc : c = '#'
    · rw [hc]
      cases cs with
      | nil => rfl
      | cons c cs => exact resolve?_eq ..
    · simp [hc]

/-- The addresses that segments lead to: one, if they lead anywhere. -/
def addresses (node : Json) : List (List Char) → List Address
  | [] => [[]]
  | segment :: rest =>
    match node with
    | .obj members =>
      Json.within (String.ofList (unescapeChars segment)) (fun below => addresses below rest) 0 members
    | .arr items =>
      match index? segment with
      | some i => match items[i]? with
        | some below => (addresses below rest).map (i :: ·)
        | none => []
      | none => []
    | _ => []

theorem stands_addresses (node : Json) (segments : List (List Char)) :
    Stands node (addresses node segments) (follow? node segments).toList := by
  induction segments generalizing node with
  | nil => exact .self node
  | cons segment rest ih =>
    rw [follow?]
    cases node with
    | obj members =>
      have hchildren : (Json.obj members).children.drop 0 = members.map Prod.snd := rfl
      have hwithin := Stands.within (ih ·) (String.ofList (unescapeChars segment)) hchildren
      rw [addresses, child?]
      cases hlookup : Json.lookup (String.ofList (unescapeChars segment)) members with
      | none => simpa [hlookup] using hwithin
      | some below => simpa [hlookup] using hwithin
    | arr items =>
      rw [addresses, child?]
      cases index? segment with
      | none => exact .nil _
      | some i =>
        cases hi : items[i]? with
        | none => simpa [hi] using Stands.nil (.arr items)
        | some below =>
          have hbelow := (ih below).below (v := .arr items) (i := i) hi
          simpa [hi] using hbelow
    | _ => exact .nil _

/-- The address of the node that a reference names. -/
def addressOf (root : Json) (reference : String) : Address :=
  ((segments? reference).bind fun segments => (addresses root segments).head?).getD []

/-- A reference names the node at its address. -/
theorem nodeAt?_addressOf {root node : Json} {reference : String}
    (h : resolveRef? root reference = some node) :
    root.nodeAt? (addressOf root reference) = some node := by
  rw [resolveRef?_eq] at h
  obtain ⟨segments, hsegments, hfollow⟩ := Option.bind_eq_some_iff.1 h
  have hfound := (stands_addresses root segments).found
  rw [hfollow, Option.toList_some, List.map_singleton] at hfound
  obtain ⟨a, haddresses, hnode⟩ := List.map_eq_singleton_iff.1 hfound
  rw [addressOf, hsegments, Option.bind_some, haddresses]
  exact hnode

end Pointer

end PatternAudit
