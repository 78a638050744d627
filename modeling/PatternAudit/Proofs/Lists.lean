/-
Lists that are cut, gone through and sorted.

Texts are cut at a character, steps that may fail are taken for each item of a list, numbers are
written as lists of digits, and items are put in the order of their names. What is said here of
each of these is said apart from what the items are.
-/
import Mathlib.Data.List.Forall2
import Mathlib.Data.List.TakeWhile
import PatternAudit.Error

set_option autoImplicit false

namespace PatternAudit

/-! ## Cutting -/

/-- A text up to a character that does not come before. -/
theorem takeWhile_ne_append {x : Char} {front back : List Char} (h : x ∉ front) :
    (front ++ x :: back).takeWhile (· ≠ x) = front ∧
      (front ++ x :: back).dropWhile (· ≠ x) = x :: back := by
  have hfront : ∀ c ∈ front, decide (c ≠ x) = true := by
    intro c hc
    exact decide_eq_true fun heq => h (heq ▸ hc)
  rw [List.takeWhile_append_of_pos hfront, List.dropWhile_append_of_pos hfront]
  simp

/-! ## Going through -/

/-- A step for each item of a list has results where each step has one. -/
theorem mapM_eq_ok_iff {ε α β : Type} {f : α → Except ε β} {xs : List α} {ys : List β} :
    xs.mapM f = .ok ys ↔ List.Forall₂ (fun x y => f x = .ok y) xs ys := by
  induction xs generalizing ys with
  | nil =>
    rw [List.forall₂_nil_left_iff, List.mapM_nil]
    exact ⟨fun h => (Except.ok.inj h).symm, fun h => congrArg Except.ok h.symm⟩
  | cons x xs ih =>
    simp only [List.mapM_cons, bind_eq_ok_iff, List.forall₂_cons_left_iff, ih]
    constructor
    · rintro ⟨y, hy, rest, hrest, hys⟩
      exact ⟨y, rest, hy, hrest, (Except.ok.inj hys).symm⟩
    · rintro ⟨y, rest, hy, hrest, rfl⟩
      exact ⟨y, hy, rest, hrest, rfl⟩

/-! ## Digits -/

/-- What holds of every digit of a base holds of the digits of a number. -/
theorem of_mem_toDigits {p : Char → Prop} {base : Nat} (hbase : 1 < base)
    (hdigit : ∀ k < base, p (Nat.digitChar k)) {n : Nat} {c : Char}
    (h : c ∈ Nat.toDigits base n) : p c := by
  induction n using Nat.strongRecOn with
  | ind n ih =>
    rw [Nat.toDigits_eq_if hbase] at h
    split at h
    · rename_i hlt
      rw [List.mem_singleton.1 h]
      exact hdigit n hlt
    · rename_i hge
      have hsmaller : n / base < n := Nat.div_lt_self (by omega) hbase
      rcases List.mem_append.1 h with hc | hc
      · exact ih (n / base) hsmaller hc
      · rw [List.mem_singleton.1 hc]
        exact hdigit (n % base) (Nat.mod_lt _ (by omega))

/-! ## Ascending names -/

section Ascending

variable {α : Type} (name : α → String) {xs ys : List α}

/-- Sorting by names that are all different makes them ascend. -/
theorem ascending_mergeSort (h : (xs.map name).Nodup) :
    (xs.mergeSort fun a b => name a ≤ name b).Pairwise fun a b => name a < name b := by
  have hsorted : (xs.mergeSort fun a b => name a ≤ name b).Pairwise
      fun a b => decide (name a ≤ name b) = true := by
    refine List.pairwise_mergeSort (fun a b c hab hbc => ?_) (fun a b => ?_) xs
    · exact decide_eq_true (String.le_trans (of_decide_eq_true hab) (of_decide_eq_true hbc))
    · simpa using String.le_total (name a) (name b)
  have hdistinct := (((List.mergeSort_perm xs fun a b => name a ≤ name b).map name).nodup_iff).2 h
  rw [List.Nodup, List.pairwise_map] at hdistinct
  exact hsorted.imp₂ (fun a b hle hne => Std.lt_of_le_of_ne (of_decide_eq_true hle) hne) hdistinct

/-- Of the lists of some elements, one ascends. -/
theorem eq_of_ascending (hx : xs.Pairwise fun a b => name a < name b)
    (hy : ys.Pairwise fun a b => name a < name b) (h : ∀ a, a ∈ xs ↔ a ∈ ys) : xs = ys := by
  have hnodup : ∀ {zs : List α}, (zs.Pairwise fun a b => name a < name b) → zs.Nodup := by
    intro zs hzs
    rw [List.Nodup]
    refine hzs.imp ?_
    intro a b hlt heq
    exact String.lt_irrefl (name a) (heq ▸ hlt)
  refine List.Perm.eq_of_pairwise ?_ hx hy ?_
  · exact fun _ _ _ _ hlt hgt => absurd hgt (String.lt_asymm hlt)
  · rw [List.perm_ext_iff_of_nodup (hnodup hx) (hnodup hy)]
    exact h

end Ascending

end PatternAudit
