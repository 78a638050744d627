/-
What trimming and narrowing keep.

Both touch blanks only. Every other character stays, as often as it was there (`count_collapse`),
and a text can be narrowed piece by piece where a piece begins with another character
(`narrow_append`). Narrowing alone keeps a blank at either end. So what is trimmed away is
missed: a text comes out of both as it comes out of narrowing alone exactly if it has no blank
at its ends (`collapseChars_eq_narrow_iff`).
-/
import Mathlib.Data.List.DropRight
import PatternAudit.Text.Blank

set_option autoImplicit false

namespace PatternAudit.Text

variable {cs : List Char} {c : Char} {seen : Bool}

/-! ## Trimming -/

/-- Whether a text begins with no blank and ends with none. -/
def Trimmed (cs : List Char) : Prop :=
  (∀ c ∈ cs.head?, isBlank c = false) ∧ ∀ c ∈ cs.getLast?, isBlank c = false

theorem trimStart_eq_self_iff : trimStart cs = cs ↔ ∀ c ∈ cs.head?, isBlank c = false := by
  cases cs with
  | nil => simp [trimStart]
  | cons c cs => simp [trimStart, List.dropWhile_eq_self_iff]

theorem trimEnd_eq_self_iff : trimEnd cs = cs ↔ ∀ c ∈ cs.getLast?, isBlank c = false := by
  have hfront : trimStart cs.reverse = cs.reverse ↔ _ := trimStart_eq_self_iff
  rwa [List.head?_reverse, trimStart, ← List.reverse_eq_iff] at hfront

/-- A text is left as it is exactly if it is trimmed. -/
theorem trimChars_eq_self_iff : trimChars cs = cs ↔ Trimmed cs := by
  rw [Trimmed, ← trimStart_eq_self_iff, ← trimEnd_eq_self_iff]
  constructor
  · intro h
    -- neither cut can have taken anything
    have hback : (trimChars cs).length ≤ (trimStart cs).length :=
      (List.rdropWhile_prefix isBlank (trimStart cs)).length_le
    have hfront : trimStart cs <:+ cs := List.dropWhile_suffix isBlank
    rw [h] at hback
    have hstart : trimStart cs = cs := hfront.eq_of_length_le hback
    rw [trimChars, hstart] at h
    exact ⟨hstart, h⟩
  · rintro ⟨hstart, hend⟩
    rw [trimChars, hstart, hend]

/-- What trimming leaves is trimmed. -/
theorem trimmed_trimChars (cs : List Char) : Trimmed (trimChars cs) := by
  constructor
  · intro c hc
    -- the first character is that of the text without the blanks at its front
    obtain ⟨rest, hrest⟩ := List.head?_eq_some_iff.1 hc
    obtain ⟨tail, htail⟩ := List.rdropWhile_prefix isBlank (trimStart cs)
    have hfirst : (trimStart cs).head? = some c := by
      rw [← htail]
      exact congrArg (fun ds => (ds ++ tail).head?) hrest
    have hnot := List.head?_dropWhile_not isBlank cs
    rw [← trimStart, hfirst] at hnot
    exact hnot
  · intro c hc
    obtain ⟨hne, rfl⟩ := List.mem_getLast?_eq_getLast hc
    exact Bool.eq_false_iff.2 (List.rdropWhile_last_not isBlank (trimStart cs) hne)

theorem count_trimChars (hc : isBlank c = false) (cs : List Char) :
    (trimChars cs).count c = cs.count c := by
  have hdrop : ∀ ds : List Char, (ds.dropWhile isBlank).count c = ds.count c := by
    intro ds
    have hnone : c ∉ ds.takeWhile isBlank := by
      intro hmem
      rw [List.mem_takeWhile_imp hmem] at hc
      cases hc
    conv_rhs => rw [← List.takeWhile_append_dropWhile (p := isBlank) (l := ds)]
    rw [List.count_append, List.count_eq_zero_of_not_mem hnone, Nat.zero_add]
  rw [trimChars, trimEnd, trimStart, List.count_reverse, hdrop, List.count_reverse, hdrop]

/-! ## Narrowing -/

/-- A text is narrowed piece by piece where a piece begins with no blank. -/
theorem narrow_append {ds : List Char} (hds : ∀ c ∈ ds.head?, isBlank c = false) :
    narrow seen (cs ++ ds) = narrow seen cs ++ narrow false ds := by
  induction cs generalizing seen with
  | nil =>
    cases ds with
    | nil => cases seen <;> rfl
    | cons d ds =>
      have hd : isBlank d = false := hds d rfl
      simp [narrow, hd]
  | cons c cs ih =>
    rw [List.cons_append, narrow, narrow, ih, ih]
    repeat' split
    all_goals rfl

/-- A character that is no blank is kept, and what follows is narrowed anew. -/
theorem narrow_cons (hc : isBlank c = false) : narrow seen (c :: cs) = c :: narrow false cs := by
  simp [narrow, hc]

/-- A text without blanks is narrow. -/
theorem narrow_eq_self (h : ∀ c ∈ cs, isBlank c = false) : narrow seen cs = cs := by
  induction cs generalizing seen with
  | nil => cases seen <;> rfl
  | cons c cs ih =>
    rw [narrow_cons (h c (List.mem_cons_self ..)), ih fun d hd => h d (List.mem_cons_of_mem _ hd)]

theorem count_narrow (hc : isBlank c = false) (seen : Bool) (cs : List Char) :
    (narrow seen cs).count c = cs.count c := by
  have hspace : (' ' == c) = false := by
    refine beq_eq_false_iff_ne.2 fun h => ?_
    rw [← h] at hc
    cases hc
  induction cs generalizing seen with
  | nil => cases seen <;> rfl
  | cons d cs ih =>
    rw [narrow]
    split
    · rename_i hd
      have hdc : (d == c) = false := by
        refine beq_eq_false_iff_ne.2 fun h => ?_
        rw [h, hc] at hd
        cases hd
      split <;> simp [List.count_cons, ih, hdc, hspace]
    · rw [List.count_cons, List.count_cons, ih]

/-- A blank at the end stays, as a space. -/
theorem getLast?_narrow_concat (hc : isBlank c = true) (cs : List Char) :
    (narrow false (cs ++ [c])).getLast? = some ' ' := by
  -- also where the run of blanks before the text has been written
  have hboth : (narrow false (cs ++ [c])).getLast? = some ' ' ∧
      (' ' :: narrow true (cs ++ [c])).getLast? = some ' ' := by
    induction cs with
    | nil => simp [narrow, hc]
    | cons d cs ih =>
      by_cases hd : isBlank d = true
      · simp [narrow, hd, ih.2]
      · simp [narrow, hd, List.getLast?_cons, ih.1]
  exact hboth.1

/-- Narrowing keeps a text trimmed, and makes none so. -/
theorem trimmed_narrow_iff : Trimmed (narrow false cs) ↔ Trimmed cs := by
  have hspace : isBlank ' ' = true := by decide
  refine and_congr ?_ ?_
  · cases cs with
    | nil => rfl
    | cons c cs => by_cases hc : isBlank c = true <;> simp [narrow, hc, hspace]
  · rcases List.eq_nil_or_concat cs with rfl | ⟨cs, c, rfl⟩
    · rfl
    · rw [List.concat_eq_append]
      by_cases hc : isBlank c = true
      · rw [getLast?_narrow_concat hc]
        simp [hc, hspace]
      · have hlast : narrow false (cs ++ [c]) = narrow false cs ++ [c] := by
          rw [narrow_append (by simpa using hc), narrow_cons (Bool.eq_false_iff.2 hc)]
          rfl
        rw [hlast, List.getLast?_concat, List.getLast?_concat]

/-! ## Both -/

theorem count_collapseChars (hc : isBlank c = false) (cs : List Char) :
    (collapseChars cs).count c = cs.count c := by
  rw [collapseChars, count_narrow hc, count_trimChars hc]

/-- Trimming before narrowing makes a difference to texts with blanks at their ends only. -/
theorem collapseChars_eq_narrow_iff : collapseChars cs = narrow false cs ↔ trimChars cs = cs := by
  constructor
  · intro h
    rw [trimChars_eq_self_iff, ← trimmed_narrow_iff, ← h]
    exact trimmed_narrow_iff.2 (trimmed_trimChars cs)
  · intro h
    rw [collapseChars, h]

/-- A text without blanks is not changed. -/
theorem collapseChars_eq_self (h : ∀ c ∈ cs, isBlank c = false) : collapseChars cs = cs := by
  have htrim : trimChars cs = cs :=
    trimChars_eq_self_iff.2
      ⟨fun c hc => h c (List.mem_of_mem_head? hc), fun c hc => h c (List.mem_of_mem_getLast? hc)⟩
  rw [collapseChars, htrim, narrow_eq_self h]

end PatternAudit.Text
