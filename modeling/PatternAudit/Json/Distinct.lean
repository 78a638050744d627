/-
Trees in which no object has a key twice.

Both readers make only such trees: they enter the members of an object one after the
other, and a key that comes again takes the place of the first one. So every node of a
description can be told by its keys.
-/
import PatternAudit.Error
import PatternAudit.Json.Read
import PatternAudit.Yaml.Tree

set_option autoImplicit false

namespace PatternAudit

namespace Json

mutual

/-- Whether no object of a tree has a key twice. -/
def keysDistinct : Json → Bool
  | null => true
  | bool _ => true
  | num _ => true
  | str _ => true
  | arr items => itemsDistinct items
  | obj members => decide (members.map Prod.fst).Nodup && membersDistinct members

/-- Whether no object of a list of trees has a key twice. -/
def itemsDistinct : List Json → Bool
  | [] => true
  | v :: rest => keysDistinct v && itemsDistinct rest

/-- Whether no object of the values of members has a key twice. -/
def membersDistinct : List (String × Json) → Bool
  | [] => true
  | (_, v) :: rest => keysDistinct v && membersDistinct rest

end

theorem itemsDistinct_iff {vs : List Json} :
    itemsDistinct vs = true ↔ ∀ v ∈ vs, v.keysDistinct = true := by
  induction vs with
  | nil => simp [itemsDistinct]
  | cons v vs ih => simp [itemsDistinct, ih]

theorem membersDistinct_iff {ms : List (String × Json)} :
    membersDistinct ms = true ↔ ∀ m ∈ ms, m.2.keysDistinct = true := by
  induction ms with
  | nil => simp [membersDistinct]
  | cons m ms ih => simp [membersDistinct, ih]

theorem keysDistinct_arr {vs : List Json} :
    (arr vs).keysDistinct = true ↔ ∀ v ∈ vs, v.keysDistinct = true := by
  rw [keysDistinct, itemsDistinct_iff]

theorem keysDistinct_obj {ms : List (String × Json)} :
    (obj ms).keysDistinct = true ↔
      (ms.map Prod.fst).Nodup ∧ ∀ m ∈ ms, m.2.keysDistinct = true := by
  rw [keysDistinct, Bool.and_eq_true, decide_eq_true_iff, membersDistinct_iff]

/-- Entering a member keeps an object free of a key that comes twice. -/
theorem keysDistinct_insert {ms : List (String × Json)} (h : (obj ms).keysDistinct = true)
    (key : String) {v : Json} (hv : v.keysDistinct = true) :
    (obj (insert key v ms)).keysDistinct = true := by
  rw [keysDistinct_obj] at h ⊢
  refine ⟨nodup_keys_insert h.1 key v, fun m hm => ?_⟩
  rcases mem_insert hm with rfl | hm
  · exact hv
  · exact h.2 m hm

/-- A member of such a tree is one. -/
theorem keysDistinct_get? {v below : Json} {key : String} (h : v.keysDistinct = true)
    (hbelow : v.get? key = some below) : below.keysDistinct = true := by
  cases v with
  | obj ms => exact (keysDistinct_obj.1 h).2 _ (mem_of_lookup_eq_some hbelow)
  | _ => cases hbelow

end Json

/-! ## JSON -/

namespace Json.Read

theorem keysDistinct_ident {v u : Json} (h : u.keysDistinct = true) {es cs rest : List Char}
    (hident : ident u es cs = .ok (v, rest)) : v.keysDistinct = true := by
  fun_induction ident u es cs with
  | case1 cs =>
    cases hident
    exact h
  | case2 => cases hident
  | case3 es c cs ih => exact ih hident
  | case4 => cases hident

/-- Values read with this much fuel have no key twice. -/
def DistinctValues (fuel : Nat) : Prop :=
  ∀ depth cs v rest, value false fuel depth .any cs = .ok (v, rest) → v.keysDistinct = true

/-- Items read with this much fuel have no key twice. -/
def DistinctItems (fuel : Nat) : Prop :=
  ∀ depth first cs vs rest, items false fuel depth .any first cs = .ok (vs, rest) →
    (arr vs).keysDistinct = true

/-- Members read with this much fuel, on top of members that have no key twice, have none. -/
def DistinctMembers (fuel : Nat) : Prop :=
  ∀ depth first done cs ms rest, (obj done).keysDistinct = true →
    members false fuel depth .any first done cs = .ok (ms, rest) → (obj ms).keysDistinct = true

theorem distinctValues_succ {fuel : Nat} (hitems : DistinctItems fuel)
    (hmembers : DistinctMembers fuel) : DistinctValues (fuel + 1) := by
  intro depth text v rest h
  unfold value at h
  cases hcs : skipBlanks text with
  | nil =>
    simp only [hcs] at h
    cases h
  | cons c cs =>
    simp only [hcs] at h
    -- the three names, a string, a number, a sequence, an object
    split at h
    · exact keysDistinct_ident rfl h
    split at h
    · exact keysDistinct_ident rfl h
    split at h
    · exact keysDistinct_ident rfl h
    split at h
    · obtain ⟨⟨s, left⟩, -, h⟩ := bind_eq_ok_iff.1 h
      cases h
      rfl
    split at h
    · obtain ⟨⟨n, left⟩, -, h⟩ := bind_eq_ok_iff.1 h
      cases h
      rfl
    split at h
    · split at h
      · cases h
      · obtain ⟨⟨vs, left⟩, hread, h⟩ := bind_eq_ok_iff.1 h
        cases h
        exact hitems _ _ _ _ _ hread
    split at h
    · split at h
      · cases h
      · obtain ⟨⟨ms, left⟩, hread, h⟩ := bind_eq_ok_iff.1 h
        cases h
        exact hmembers _ _ _ _ _ _ rfl hread
    · cases h

theorem distinctItems_succ {fuel : Nat} (hvalues : DistinctValues fuel)
    (hitems : DistinctItems fuel) : DistinctItems (fuel + 1) := by
  intro depth first cs vs rest h
  rw [items] at h
  obtain ⟨⟨more, cs'⟩, -, h⟩ := bind_eq_ok_iff.1 h
  cases more with
  | false =>
    cases h
    rfl
  | true =>
    obtain ⟨⟨v, cs''⟩, hvalue, h⟩ := bind_eq_ok_iff.1 h
    obtain ⟨⟨others, left⟩, hothers, h⟩ := bind_eq_ok_iff.1 h
    cases h
    rw [keysDistinct_arr, List.forall_mem_cons]
    exact ⟨hvalues _ _ _ _ hvalue, keysDistinct_arr.1 (hitems _ _ _ _ _ hothers)⟩

theorem distinctMembers_succ {fuel : Nat} (hvalues : DistinctValues fuel)
    (hmembers : DistinctMembers fuel) : DistinctMembers (fuel + 1) := by
  intro depth first done cs ms rest hdone h
  rw [members] at h
  obtain ⟨⟨key, cs'⟩, -, h⟩ := bind_eq_ok_iff.1 h
  cases key with
  | none =>
    cases h
    exact hdone
  | some key =>
    obtain ⟨⟨⟨⟩, cs''⟩, -, h⟩ := bind_eq_ok_iff.1 h
    obtain ⟨⟨v, left⟩, hvalue, h⟩ := bind_eq_ok_iff.1 h
    have hentered := keysDistinct_insert hdone key (hvalues _ _ _ _ hvalue)
    exact hmembers _ _ _ _ _ _ hentered h

/-- What is read without a shape has no key twice; the members of an object are read on top
of others. -/
theorem keysDistinct_of_read (fuel : Nat) :
    DistinctValues fuel ∧ DistinctItems fuel ∧ DistinctMembers fuel := by
  -- the three readers call each other with less fuel, so one induction carries them together
  induction fuel with
  | zero =>
    refine ⟨fun depth cs v rest h => ?_, fun depth first cs vs rest h => ?_,
      fun depth first done cs ms rest hdone h => ?_⟩
    · cases h
    · cases h
    · cases h
  | succ fuel ih =>
    obtain ⟨hvalues, hitems, hmembers⟩ := ih
    exact ⟨distinctValues_succ hitems hmembers, distinctItems_succ hvalues hitems,
      distinctMembers_succ hvalues hmembers⟩

theorem keysDistinct_of_parse {text : String} {v : Json} (h : parse text = .ok v) :
    v.keysDistinct = true := by
  unfold parse parseAs at h
  split at h
  · rename_i u hdocument
    cases h
    unfold document at hdocument
    obtain ⟨⟨u, left⟩, hvalue, hend⟩ := bind_eq_ok_iff.1 hdocument
    dsimp only at hend
    split at hend
    · cases hend
      exact (keysDistinct_of_read _).1 _ _ _ _ hvalue
    · cases hend
  · cases h

end Json.Read

/-! ## YAML -/

namespace Yaml.Value

mutual

theorem keysDistinct_toJson : ∀ v : Value, v.toJson.keysDistinct = true
  | null => rfl
  | bool _ => rfl
  | num n => by
    rw [toJson]
    unfold numberTree
    cases n with
    | int n => rfl
    | float x =>
      dsimp only
      split <;> rfl
  | str _ => rfl
  | seq items => by
    rw [toJson, Json.keysDistinct]
    exact itemsDistinct_toJson items
  | map members => by
    rw [toJson]
    exact keysDistinct_membersToJson members rfl
  | tagged _ v => by
    rw [toJson]
    exact keysDistinct_toJson v

theorem itemsDistinct_toJson : ∀ vs : List Value, Json.itemsDistinct (itemsToJson vs) = true
  | [] => rfl
  | v :: rest => by
    rw [itemsToJson, Json.itemsDistinct, keysDistinct_toJson v, itemsDistinct_toJson rest]
    rfl

theorem keysDistinct_membersToJson : ∀ (ms : List (Value × Value)) {done : List (String × Json)},
    (Json.obj done).keysDistinct = true → (Json.obj (membersToJson done ms)).keysDistinct = true
  | [], _, h => h
  | (k, v) :: rest, _, h => by
    rw [membersToJson]
    exact keysDistinct_membersToJson rest
      (Json.keysDistinct_insert h (keyText k) (keysDistinct_toJson v))

end

end Yaml.Value

end PatternAudit
