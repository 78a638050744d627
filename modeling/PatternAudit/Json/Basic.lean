/-
The ordered tree that every description is loaded into.

Members keep the order in which they were declared, because a report lists
locations in declaration order. Integers are those of the 64-bit formats
(`-2^63` up to `2^64 - 1`); every other number is a double.

Measures of trees can be summed over the members of an object. Members under
different keys together come to no more than all members, whatever the measure
(`sumUnder_le`). `weight` counts the nodes of a tree. It is the measure that lets
a traversal go down the tree.
-/

set_option autoImplicit false

namespace PatternAudit

/-- A number of a document. -/
inductive Number where
  | int (value : Int)
  | float (value : Float)
  deriving Inhabited

/-- A document tree. -/
inductive Json where
  | null
  | bool (value : Bool)
  | num (value : Number)
  | str (value : String)
  | arr (items : List Json)
  | obj (members : List (String × Json))
  deriving Inhabited

namespace Json

/-! ## Looking at a node -/

/-- The first entry under a key. -/
def lookup {α : Type} (key : String) : List (String × α) → Option α
  | [] => none
  | (k, v) :: rest => if k = key then some v else lookup key rest

/-- The member of an object under a key; `none` for every other node. -/
def get? (key : String) : Json → Option Json
  | obj members => lookup key members
  | _ => none

/-- The text of a string node. -/
def asStr? : Json → Option String
  | str s => some s
  | _ => none

/-- The members of an object node. -/
def asObj? : Json → Option (List (String × Json))
  | obj members => some members
  | _ => none

/-- The items of an array node. -/
def asArr? : Json → Option (List Json)
  | arr items => some items
  | _ => none

/-- The name of a node's type, as diagnostics write it. -/
def typeName : Json → String
  | null => "null"
  | bool _ => "boolean"
  | num _ => "number"
  | str _ => "string"
  | arr _ => "array"
  | obj _ => "object"

/-! ## Entering members

A key that comes twice keeps its first place and takes its last value. -/

/-- Enters a value under a key. -/
def insert {α : Type} (key : String) (value : α) : List (String × α) → List (String × α)
  | [] => [(key, value)]
  | (k, v) :: rest => if k = key then (k, value) :: rest else (k, v) :: insert key value rest

theorem lookup_insert_self {α : Type} (key : String) (value : α) (ms : List (String × α)) :
    lookup key (insert key value ms) = some value := by
  induction ms with
  | nil => simp [insert, lookup]
  | cons m ms ih =>
    obtain ⟨k, v⟩ := m
    by_cases h : k = key <;> simp [insert, lookup, h, ih]

theorem lookup_insert_of_ne {α : Type} {key other : String} (h : other ≠ key) (value : α)
    (ms : List (String × α)) : lookup other (insert key value ms) = lookup other ms := by
  induction ms with
  | nil => simp [insert, lookup, Ne.symm h]
  | cons m ms ih =>
    obtain ⟨k, v⟩ := m
    by_cases hk : k = key
    · subst hk; simp [insert, lookup, Ne.symm h]
    · simp only [insert, if_neg hk, lookup, ih]

theorem lookup_eq_none_iff {α : Type} {key : String} {ms : List (String × α)} :
    lookup key ms = none ↔ key ∉ ms.map Prod.fst := by
  induction ms with
  | nil => simp [lookup]
  | cons m ms ih =>
    obtain ⟨k, v⟩ := m
    by_cases hk : k = key
    · simp [lookup, hk]
    · simp [lookup, hk, ih, Ne.symm hk]

theorem mem_of_lookup_eq_some {α : Type} {key : String} {value : α} {ms : List (String × α)}
    (h : lookup key ms = some value) : (key, value) ∈ ms := by
  induction ms with
  | nil => cases h
  | cons m ms ih =>
    obtain ⟨k, v⟩ := m
    rw [lookup] at h
    split at h
    · rename_i hk
      cases h
      exact hk ▸ List.mem_cons_self
    · exact List.mem_cons_of_mem _ (ih h)

/-- A key that is new comes last. -/
theorem insert_of_not_mem {α : Type} {key : String} {ms : List (String × α)}
    (h : key ∉ ms.map Prod.fst) (value : α) : insert key value ms = ms ++ [(key, value)] := by
  induction ms with
  | nil => rfl
  | cons m ms ih =>
    obtain ⟨k, v⟩ := m
    obtain ⟨hk, hrest⟩ := not_or.1 (mt List.mem_cons.2 h)
    rw [insert, if_neg (Ne.symm hk), ih hrest, List.cons_append]

/-- Where no key comes twice, looking up finds every member. -/
theorem lookup_eq_some_iff {α : Type} {key : String} {value : α} {ms : List (String × α)}
    (h : (ms.map Prod.fst).Nodup) : lookup key ms = some value ↔ (key, value) ∈ ms := by
  induction ms with
  | nil => simp [lookup]
  | cons m ms ih =>
    obtain ⟨k, v⟩ := m
    obtain ⟨hfirst, hrest⟩ := List.nodup_cons.1 h
    rw [lookup, List.mem_cons, Prod.mk.injEq]
    by_cases hk : k = key
    · -- the key stands nowhere else
      have hnot : (key, value) ∉ ms := fun hmem =>
        hfirst (List.mem_map.2 ⟨_, hmem, hk.symm⟩)
      simp [hk, hnot, eq_comm]
    · simp [hk, Ne.symm hk, ih hrest]

/-- Where members are chosen by their keys, the chosen keys keep their values. -/
theorem lookup_filter {α : Type} (p : String → Bool) (key : String) (ms : List (String × α)) :
    lookup key (ms.filter fun m => p m.1) = if p key then lookup key ms else none := by
  induction ms with
  | nil => simp [lookup]
  | cons m ms ih =>
    obtain ⟨k, v⟩ := m
    rw [List.filter_cons]
    by_cases hk : k = key
    · subst hk
      by_cases hp : p k
      · simp [hp, lookup]
      · simp [hp, ih]
    · by_cases hp : p k
      · simp [hp, lookup, hk, ih]
      · simp [hp, lookup, hk, ih]

/-- Where keys stay apart, members may be renamed. -/
theorem lookup_map {α β : Type} {f : String → String} (hf : Function.Injective f) (g : α → β)
    (key : String) (ms : List (String × α)) :
    lookup (f key) (ms.map fun m => (f m.1, g m.2)) = (lookup key ms).map g := by
  induction ms with
  | nil => rfl
  | cons m ms ih =>
    obtain ⟨k, v⟩ := m
    by_cases hk : k = key
    · simp [lookup, hk]
    · have hne : f k ≠ f key := fun hsame => hk (hf hsame)
      simp [lookup, hk, hne, ih]

theorem insert_map {α β : Type} {f : String → String} (hf : Function.Injective f) (g : α → β)
    (key : String) (value : α) (ms : List (String × α)) :
    insert (f key) (g value) (ms.map fun m => (f m.1, g m.2))
      = (insert key value ms).map fun m => (f m.1, g m.2) := by
  induction ms with
  | nil => rfl
  | cons m ms ih =>
    obtain ⟨k, v⟩ := m
    by_cases hk : k = key
    · simp [insert, hk]
    · have hne : f k ≠ f key := fun hsame => hk (hf hsame)
      simp [insert, hk, hne, ih]

/-- Entering a value under a chosen key is the same before members are chosen and after. -/
theorem insert_filter {α : Type} {p : String → Bool} {key : String} (h : p key = true)
    (value : α) (ms : List (String × α)) :
    (insert key value ms).filter (fun m => p m.1)
      = insert key value (ms.filter fun m => p m.1) := by
  induction ms with
  | nil => simp [insert, h]
  | cons m ms ih =>
    obtain ⟨k, v⟩ := m
    by_cases hk : k = key
    · subst hk
      simp [insert, h]
    · by_cases hp : p k = true
      · simp [insert, hk, hp, ih]
      · simp [insert, hk, hp, ih]

theorem mem_insert {α : Type} {key : String} {value : α} {ms : List (String × α)}
    {m : String × α} (h : m ∈ insert key value ms) : m = (key, value) ∨ m ∈ ms := by
  induction ms with
  | nil => exact .inl (List.mem_singleton.1 h)
  | cons first ms ih =>
    rw [insert] at h
    split at h
    · rename_i hk
      rcases List.mem_cons.1 h with hm | hm
      · exact .inl (by rw [hm, hk])
      · exact .inr (List.mem_cons_of_mem _ hm)
    · rcases List.mem_cons.1 h with hm | hm
      · exact .inr (hm ▸ List.mem_cons_self)
      · exact (ih hm).imp_right (List.mem_cons_of_mem _)

/-- Entering a value adds its key, if it is new. -/
theorem mem_keys_insert {α : Type} {key other : String} {value : α} {ms : List (String × α)} :
    other ∈ (insert key value ms).map Prod.fst ↔ other = key ∨ other ∈ ms.map Prod.fst := by
  induction ms with
  | nil => simp [insert]
  | cons m ms ih =>
    rw [insert]
    split
    · rename_i hk
      simp [hk]
    · rw [List.map_cons, List.mem_cons, ih, List.map_cons, List.mem_cons, or_left_comm]

theorem nodup_keys_insert {α : Type} {ms : List (String × α)} (h : (ms.map Prod.fst).Nodup)
    (key : String) (value : α) : ((insert key value ms).map Prod.fst).Nodup := by
  induction ms with
  | nil => simp [insert]
  | cons m ms ih =>
    obtain ⟨hfirst, hrest⟩ := List.nodup_cons.1 h
    rw [insert]
    split
    · exact h
    · rename_i hk
      refine List.nodup_cons.2 ⟨fun hmem => ?_, ih hrest⟩
      rcases mem_keys_insert.1 hmem with hsame | hother
      · exact hk hsame
      · exact hfirst hother

/-! ## Sums

A measure gives each tree a number. -/

/-- What a measure comes to over a list of trees. -/
def sumItems (f : Json → Nat) : List Json → Nat
  | [] => 0
  | v :: rest => f v + sumItems f rest

/-- What a measure comes to over the values of a list of members. -/
def sumMembers (f : Json → Nat) : List (String × Json) → Nat
  | [] => 0
  | (_, v) :: rest => f v + sumMembers f rest

/-- What a measure comes to under a list of keys, one lookup each. -/
def sumUnder (f : Json → Nat) (members : List (String × Json)) : List String → Nat
  | [] => 0
  | key :: keys => ((lookup key members).elim 0 f) + sumUnder f members keys

/-- Measures by which a tree comes to no less than the trees it is made of. -/
structure Additive (f : Json → Nat) : Prop where
  arr : ∀ vs, sumItems f vs ≤ f (arr vs)
  obj : ∀ ms, sumMembers f ms ≤ f (obj ms)

theorem sumUnder_nil (f : Json → Nat) (keys : List String) : sumUnder f [] keys = 0 := by
  induction keys with
  | nil => rfl
  | cons key keys ih => simp [sumUnder, lookup, ih]

/-- A member counts under one key at most. -/
theorem sumUnder_cons (f : Json → Nat) (k : String) (v : Json) (ms : List (String × Json)) :
    ∀ keys : List String, keys.Nodup →
      sumUnder f ((k, v) :: ms) keys ≤ f v + sumUnder f ms keys
  | [], _ => by simp [sumUnder]
  | key :: keys, h => by
    have hk : key ∉ keys := (List.nodup_cons.1 h).1
    have hrest : keys.Nodup := (List.nodup_cons.1 h).2
    by_cases he : k = key
    · -- the new member answers this key, so it answers no other one
      have same : ∀ ks : List String, key ∉ ks →
          sumUnder f ((k, v) :: ms) ks = sumUnder f ms ks := by
        intro ks
        induction ks with
        | nil => intro _; rfl
        | cons a ks ih =>
          intro hmem
          have ha : k ≠ a := by
            intro hka
            exact hmem (by simp [← hka, he])
          have hks : key ∉ ks := fun hin => hmem (List.mem_cons_of_mem _ hin)
          simp [sumUnder, lookup, ha, ih hks]
      have := same keys hk
      simp only [sumUnder, lookup, he, if_true, Option.elim_some]
      rw [he] at this
      omega
    · have ih := sumUnder_cons f k v ms keys hrest
      simp only [sumUnder, lookup, if_neg he]
      omega

/-- Members under different keys together come to no more than all members. -/
theorem sumUnder_le (f : Json → Nat) (ms : List (String × Json)) (keys : List String)
    (h : keys.Nodup) : sumUnder f ms keys ≤ sumMembers f ms := by
  induction ms with
  | nil =>
    rw [sumUnder_nil]
    exact Nat.zero_le _
  | cons m ms ih =>
    obtain ⟨k, v⟩ := m
    have := sumUnder_cons f k v ms keys h
    simp only [sumMembers]
    omega

theorem sum_lookup_le (f : Json → Nat) {key : String} {ms : List (String × Json)} {v : Json}
    (h : lookup key ms = some v) : f v ≤ sumMembers f ms := by
  have := sumUnder_le f ms [key] (by simp)
  simpa [sumUnder, h] using this

/-! ## Weight -/

mutual

/-- The number of nodes of a tree. -/
def weight : Json → Nat
  | null => 1
  | bool _ => 1
  | num _ => 1
  | str _ => 1
  | arr items => weightItems items + 1
  | obj members => weightMembers members + 1

/-- The number of nodes of a list of trees. -/
def weightItems : List Json → Nat
  | [] => 0
  | v :: rest => weight v + weightItems rest

/-- The number of nodes of the values of a list of members. -/
def weightMembers : List (String × Json) → Nat
  | [] => 0
  | (_, v) :: rest => weight v + weightMembers rest

end

theorem weight_pos (v : Json) : 0 < weight v := by
  cases v <;> simp [weight]

theorem weightItems_eq (vs : List Json) : weightItems vs = sumItems weight vs := by
  induction vs with
  | nil => rfl
  | cons v vs ih => rw [weightItems, sumItems, ih]

theorem weightMembers_eq (ms : List (String × Json)) : weightMembers ms = sumMembers weight ms := by
  induction ms with
  | nil => rfl
  | cons m ms ih => rw [weightMembers, sumMembers, ih]

theorem additive_weight : Additive weight where
  arr vs := by
    rw [weight, weightItems_eq]
    exact Nat.le_succ _
  obj ms := by
    rw [weight, weightMembers_eq]
    exact Nat.le_succ _

end Json

end PatternAudit
