/-
The entries in memory.

Three things happen to them: an entry is set (`putKept`), an entry is dropped (`dropKept`),
and past the limit the oldest ones go (`keep`). For each there is one lemma about what is
found afterwards and one about how many entries there are. `size_keep_le` is the one about
the limit: what `keep` leaves is never past it, whatever was there before.
-/
import PatternAudit.Cache.Basic

set_option autoImplicit false

namespace PatternAudit.Cache

open Files (Disk)

/-! ## Setting and dropping -/

theorem putKept_eq (id : String) (e : Entry) (kept : List (String × Entry)) :
    putKept id e kept = Json.insert id e kept := by
  induction kept with
  | nil => rfl
  | cons k kept ih => rw [putKept, Json.insert, ih]

theorem lookup_putKept (id other : String) (e : Entry) (kept : List (String × Entry)) :
    Json.lookup other (putKept id e kept)
      = if other = id then some e else Json.lookup other kept := by
  rw [putKept_eq]
  by_cases h : other = id
  · rw [if_pos h, h, Json.lookup_insert_self]
  · rw [if_neg h, Json.lookup_insert_of_ne h]

/-- Setting an entry adds one at most. -/
theorem length_putKept_le (id : String) (e : Entry) (kept : List (String × Entry)) :
    (putKept id e kept).length ≤ kept.length + 1 := by
  induction kept with
  | nil => exact Nat.le_refl _
  | cons k kept ih =>
    rw [putKept]
    split
    · exact Nat.le_succ _
    · exact Nat.succ_le_succ ih

/-- No entry comes in by setting but the one that is set. -/
theorem mem_putKept {id : String} {e : Entry} {kept : List (String × Entry)}
    {x : String × Entry} (h : x ∈ putKept id e kept) : x = (id, e) ∨ x ∈ kept := by
  rw [putKept_eq] at h
  exact Json.mem_insert h

/-- Keys stay different when something comes and what had its key goes. -/
theorem nodup_filter_ne_append {α : Type} (key : α → String) {xs : List α}
    (h : (xs.map key).Nodup) (x : α) :
    (((xs.filter fun y => decide (key y ≠ key x)) ++ [x]).map key).Nodup := by
  rw [List.map_append, List.nodup_append]
  refine ⟨h.sublist (List.filter_sublist.map _), List.pairwise_singleton _ _, ?_⟩
  intro a ha b hb hab
  obtain ⟨y, hy, rfl⟩ := List.mem_map.1 ha
  have hne : key y ≠ key x := of_decide_eq_true (List.mem_filter.1 hy).2
  rw [List.map_singleton, List.mem_singleton] at hb
  exact hne (hab.trans hb)

theorem length_dropKept_le (id : String) (kept : List (String × Entry)) :
    (dropKept id kept).length ≤ kept.length := List.length_filter_le _ _

/-- Dropping ids one after the other leaves the entries of all others. -/
theorem foldl_dropKept (gone : List String) (kept : List (String × Entry)) :
    gone.foldl (fun k i => dropKept i k) kept = kept.filter fun x => decide (x.1 ∉ gone) := by
  induction gone generalizing kept with
  | nil => exact (List.filter_eq_self.2 fun x _ => by simp).symm
  | cons i gone ih =>
    rw [List.foldl_cons, ih, dropKept, List.filter_filter]
    congr 1
    funext x
    simp [Bool.and_comm]

/-! ## Past the limit -/

/-- Nothing goes where there is room. -/
theorem surplus_of_length_le {limit : Nat} {kept : List (String × Entry)}
    (h : kept.length ≤ limit) : surplus limit kept = [] := by
  rw [surplus, Nat.sub_eq_zero_of_le h, List.take_zero, List.map_nil]

/-- What goes is held. -/
theorem of_mem_surplus {limit : Nat} {kept : List (String × Entry)} {i : String}
    (h : i ∈ surplus limit kept) : ∃ e, (i, e) ∈ kept := by
  obtain ⟨⟨i, e⟩, hmem, rfl⟩ := List.mem_map.1 h
  exact ⟨e, List.mem_mergeSort.1 (List.mem_of_mem_take hmem)⟩

/-- Nothing is left of a list when all its keys go. -/
theorem filter_not_mem_keys {α : Type} (key : α → String) (xs : List α) :
    (xs.filter fun x => decide (key x ∉ xs.map key)) = [] := by
  refine List.filter_eq_nil_iff.2 fun x hx => ?_
  have hgone : key x ∈ xs.map key := List.mem_map_of_mem hx
  simp only [hgone, not_true_eq_false, decide_false, Bool.false_eq_true, not_false_eq_true]

/-- Where the first of a list go by their keys, no more are left than come after them. -/
theorem length_filter_not_mem_take_le {α : Type} (key : α → String) {xs sorted : List α}
    (hperm : sorted.Perm xs) (n : Nat) :
    (xs.filter fun x => decide (key x ∉ (sorted.take n).map key)).length ≤ xs.length - n := by
  -- the first have all gone, so that what is left is among the others
  have hfirst := filter_not_mem_keys key (sorted.take n)
  calc (xs.filter fun x => decide (key x ∉ (sorted.take n).map key)).length
      = (sorted.filter fun x => decide (key x ∉ (sorted.take n).map key)).length :=
        (hperm.symm.filter _).length_eq
    _ = ((sorted.take n ++ sorted.drop n).filter
          fun x => decide (key x ∉ (sorted.take n).map key)).length := by
        rw [List.take_append_drop]
    _ = ((sorted.drop n).filter fun x => decide (key x ∉ (sorted.take n).map key)).length := by
        rw [List.filter_append, hfirst, List.nil_append]
    _ ≤ (sorted.drop n).length := List.length_filter_le _ _
    _ = xs.length - n := by rw [List.length_drop, hperm.length_eq]

/-- What is left when the oldest have gone is not past the limit. -/
theorem length_filter_surplus_le (limit : Nat) (kept : List (String × Entry)) :
    (kept.filter fun x => decide (x.1 ∉ surplus limit kept)).length ≤ limit := by
  have hperm := List.mergeSort_perm kept fun a b => a.2.isOlder b.2
  have hleft := length_filter_not_mem_take_le Prod.fst hperm (kept.length - limit)
  rw [surplus]
  omega

/-! ## Keeping an entry -/

/-- The ids that go when an entry is kept, oldest first. -/
def evicted (c : Cache) (id : String) (e : Entry) : List String :=
  surplus c.limit (putKept id e c.kept)

section Keep

variable (c : Cache) (d : Disk) (id : String) (e : Entry)

theorem kept_keep :
    (c.keep d id e).1.kept
      = (putKept id e c.kept).filter fun x => decide (x.1 ∉ c.evicted id e) :=
  foldl_dropKept ..

theorem lookup_keep (k : String) :
    Json.lookup k (c.keep d id e).1.kept
      = if k ∈ c.evicted id e then none
        else if k = id then some e else Json.lookup k c.kept := by
  rw [kept_keep, Json.lookup_filter fun k => decide (k ∉ c.evicted id e), lookup_putKept]
  by_cases h : k ∈ c.evicted id e
  · simp [h]
  · simp [h]

/-- **What is kept is within the limit.** -/
theorem size_keep_le : (c.keep d id e).1.size ≤ c.limit := by
  rw [size, kept_keep]
  exact length_filter_surplus_le ..

end Keep

end PatternAudit.Cache
