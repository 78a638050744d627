/-
What respelling a path template does to it.

The check on paths and the respelling that it suggests each carry a flag along that tells
whether braces are open. What the flag says can be said of the text before a character alone
(`EndsInside`): there is an opening brace in it, and no closing brace behind that one. Braces
are not counted, so a second opening brace changes nothing, and the first closing brace ends
what any number of them began.

So a template falls into its characters, each with the text before it (`contexts`), and what
becomes of a character is decided by these two: whether a hyphen comes before it
(`StartsWord`), and whether it is made small (`Misplaced`). The check finds nothing in what
comes out, and what has nothing for the check to find is left as it is; so a second respelling
changes nothing.
-/
import Mathlib.Data.List.Basic
import Mathlib.Data.List.Induction
import PatternAudit.Api.Metadata

set_option autoImplicit false

namespace PatternAudit.Api

/-! ## Capitals -/

section Capitals

variable {c : Char}

/-- What is checked of 26 letters holds of all capitals. -/
theorem forall_upper {P : Char → Prop} (h : ∀ n < 26, P (Char.ofNat (65 + n)))
    (hc : Text.isUpper c = true) : P c := by
  have hbounds : 65 ≤ c.toNat ∧ c.toNat ≤ 90 := by
    simpa [Text.isUpper, Char.le_def, UInt32.le_iff_toNat_le] using hc
  have hletter := h (c.toNat - 65) (by omega)
  rwa [Nat.add_sub_cancel' hbounds.1, Char.ofNat_toNat] at hletter

/-- A capital is no brace, and neither are the characters that are written for it. -/
theorem inBraces_of_isUpper (hc : Text.isUpper c = true) (inside : Bool) :
    inBraces inside c = inside ∧ inBraces inside (Text.lowerAscii c) = inside := by
  cases inside
  · exact forall_upper
      (P := fun c => inBraces false c = false ∧ inBraces false (Text.lowerAscii c) = false)
      (by decide) hc
  · exact forall_upper
      (P := fun c => inBraces true c = true ∧ inBraces true (Text.lowerAscii c) = true)
      (by decide) hc

/-- What was made small is no capital any more. -/
theorem isUpper_lowerAscii (hc : Text.isUpper c = true) :
    Text.isUpper (Text.lowerAscii c) = false :=
  forall_upper (P := fun c => Text.isUpper (Text.lowerAscii c) = false) (by decide) hc

/-- A capital is neither a small letter nor a digit. -/
theorem isLower_or_isDigit_of_isUpper (hc : Text.isUpper c = true) :
    (Text.isLower c || Text.isDigit c) = false :=
  forall_upper (P := fun c => (Text.isLower c || Text.isDigit c) = false) (by decide) hc

end Capitals

/-! ## The text before a character -/

/-- Whether a text ends inside of braces: an opening brace stands in it, and behind that one
no closing brace. -/
def EndsInside (before : List Char) : Prop := ∃ a b, before = a ++ '{' :: b ∧ '}' ∉ b

/-- Whether a text ends with a small letter or a digit. -/
def EndsSmall (before : List Char) : Prop :=
  before.getLast?.any (fun c => Text.isLower c || Text.isDigit c) = true

theorem endsInside_concat (before : List Char) (c : Char) :
    EndsInside (before ++ [c]) ↔ c = '{' ∨ (c ≠ '}' ∧ EndsInside before) := by
  constructor
  · rintro ⟨a, b, heq, hb⟩
    -- the last character is the opening brace, or it comes after it
    rcases List.eq_nil_or_concat b with rfl | ⟨b, last, rfl⟩
    · obtain ⟨-, hlast⟩ := List.append_inj' heq rfl
      exact Or.inl (List.cons.inj hlast).1
    · rw [List.concat_eq_append, ← List.cons_append, ← List.append_assoc] at heq
      obtain ⟨hbefore, hlast⟩ := List.append_inj' heq rfl
      obtain rfl : c = last := (List.cons.inj hlast).1
      rw [List.concat_eq_append, List.mem_append, not_or] at hb
      refine Or.inr ⟨?_, a, b, hbefore, hb.1⟩
      rintro rfl
      exact hb.2 List.mem_cons_self
  · rintro (rfl | ⟨hc, a, b, rfl, hb⟩)
    · exact ⟨before, [], rfl, List.not_mem_nil⟩
    · refine ⟨a, b ++ [c], by rw [List.append_assoc, List.cons_append], ?_⟩
      rw [List.mem_append, List.mem_singleton, not_or]
      exact ⟨hb, Ne.symm hc⟩

theorem inBraces_iff (inside : Bool) (c : Char) :
    inBraces inside c = true ↔ c = '{' ∨ (c ≠ '}' ∧ inside = true) := by
  rw [inBraces]
  by_cases hopen : c = '{'
  · simp [hopen]
  · by_cases hclose : c = '}'
    · simp [hclose]
    · simp [hopen, hclose]

/-- The flag of a scan that has come through a text tells whether the text ends inside. -/
theorem foldl_inBraces_iff (before : List Char) :
    before.foldl inBraces false = true ↔ EndsInside before := by
  induction before using List.reverseRecOn with
  | nil =>
    refine ⟨fun h => absurd h Bool.false_ne_true, ?_⟩
    rintro ⟨a, b, heq, -⟩
    cases a <;> cases heq
  | append_singleton before c ih =>
    rw [List.foldl_append, List.foldl_cons, List.foldl_nil, endsInside_concat, ← ih,
      inBraces_iff]

instance (before : List Char) : Decidable (EndsInside before) :=
  decidable_of_iff _ (foldl_inBraces_iff before)

instance (before : List Char) : Decidable (EndsSmall before) :=
  inferInstanceAs (Decidable (_ = true))

/-- The flag after one more character. -/
theorem inBraces_endsInside (before : List Char) (c : Char) :
    inBraces (decide (EndsInside before)) c = decide (EndsInside (before ++ [c])) := by
  rw [Bool.eq_iff_iff, decide_eq_true_iff, inBraces_iff, endsInside_concat, decide_eq_true_iff]

/-- The second flag after one more character. -/
theorem endsSmall_concat (before : List Char) (c : Char) :
    decide (EndsSmall (before ++ [c])) = (Text.isLower c || Text.isDigit c) := by
  simp [EndsSmall]

/-! ## Characters in their places -/

/-- Each character of a text with what stands before it, which begins with the given text. -/
def contexts : List Char → List Char → List (List Char × Char)
  | _, [] => []
  | before, c :: cs => (before, c) :: contexts (before ++ [c]) cs

/-- Whether a character is a capital outside of braces. -/
def Misplaced (before : List Char) (c : Char) : Prop :=
  Text.isUpper c = true ∧ ¬EndsInside before

instance (before : List Char) (c : Char) : Decidable (Misplaced before c) :=
  inferInstanceAs (Decidable (_ ∧ _))

/-- What is written for a character: the small letter, if it is a capital outside of braces. -/
def spelled (before : List Char) (c : Char) : Char :=
  if Misplaced before c then Text.lowerAscii c else c

/-- Whether a hyphen is written before a character: it is a capital outside of braces that a
small letter or a digit precedes. -/
def StartsWord (before : List Char) (c : Char) : Prop := Misplaced before c ∧ EndsSmall before

instance (before : List Char) (c : Char) : Decidable (StartsWord before c) :=
  inferInstanceAs (Decidable (_ ∧ _))

/-- What is written for a text, with a mark on the hyphens that are not in it. -/
def marked (before cs : List Char) : List (Char × Bool) :=
  (contexts before cs).flatMap fun x =>
    (if StartsWord x.1 x.2 then [('-', true)] else []) ++ [(spelled x.1 x.2, false)]

/-- The braces of a text, and what stands inside of them. -/
def braced (before cs : List Char) : List Char :=
  ((contexts before cs).filter fun x => x.2 = '{' ∨ x.2 = '}' ∨ EndsInside x.1).map Prod.snd

/-- A text whose capitals outside of braces are made small. -/
def small (before cs : List Char) : List Char :=
  (contexts before cs).map fun x => spelled x.1 x.2

/-- What stands before a character is what was given, and the text up to the character. -/
theorem mem_contexts_iff {before cs : List Char} {x : List Char × Char} :
    x ∈ contexts before cs ↔ ∃ a b, cs = a ++ x.2 :: b ∧ x.1 = before ++ a := by
  induction cs generalizing before with
  | nil => simp [contexts]
  | cons c cs ih =>
    rw [contexts, List.mem_cons, ih]
    constructor
    · rintro (rfl | ⟨a, b, rfl, hx⟩)
      · exact ⟨[], cs, rfl, (List.append_nil before).symm⟩
      · exact ⟨c :: a, b, rfl, by rw [hx, List.append_assoc, List.singleton_append]⟩
    · rintro ⟨a, b, heq, hx⟩
      cases a with
      | nil =>
        obtain ⟨rfl, -⟩ := List.cons.inj heq
        exact Or.inl (Prod.ext (hx.trans (List.append_nil before)) rfl)
      | cons _ a =>
        obtain ⟨rfl, rfl⟩ := List.cons.inj heq
        exact Or.inr ⟨a, b, rfl, by rw [hx, List.append_assoc, List.singleton_append]⟩

/-! ## The scans -/

/-- Both scans stop at the same characters. -/
theorem misplaced_eq (before : List Char) (c : Char) :
    (!decide (EndsInside (before ++ [c])) && Text.isUpper c) = decide (Misplaced before c) := by
  by_cases hc : Text.isUpper c = true
  · rw [← inBraces_endsInside, (inBraces_of_isUpper hc _).1]
    simp [Misplaced, hc]
  · simp [Misplaced, hc]

/-- The check finds the capitals outside of braces. -/
theorem hasCapital_iff (before cs : List Char) :
    hasCapital (decide (EndsInside before)) cs = true ↔
      ∃ x ∈ contexts before cs, Misplaced x.1 x.2 := by
  induction cs generalizing before with
  | nil => simp [hasCapital, contexts]
  | cons c cs ih =>
    rw [hasCapital, Bool.or_eq_true, inBraces_endsInside, misplaced_eq, decide_eq_true_iff, ih,
      contexts, List.exists_mem_cons_iff]

/-- The respelling writes for each character what is to be written in its place. -/
theorem respell_eq (before cs : List Char) :
    respell (decide (EndsInside before)) (decide (EndsSmall before)) cs
      = (marked before cs).map Prod.fst := by
  induction cs generalizing before with
  | nil => rfl
  | cons c cs ih =>
    have hrest := ih (before ++ [c])
    rw [endsSmall_concat] at hrest
    rw [respell, inBraces_endsInside, misplaced_eq, marked, contexts, List.flatMap_cons, ← marked,
      List.map_append, ← hrest]
    by_cases hc : Misplaced before c
    · rw [isLower_or_isDigit_of_isUpper hc.1]
      by_cases hsmall : EndsSmall before
      · simp [StartsWord, spelled, hc, hsmall]
      · simp [StartsWord, spelled, hc, hsmall]
    · simp [StartsWord, spelled, hc]

/-- Only hyphens are put in. -/
theorem hyphen_of_marked {before cs : List Char} {y : Char × Bool} (hy : y ∈ marked before cs)
    (hinserted : y.2 = true) : y.1 = '-' := by
  obtain ⟨x, -, hx⟩ := List.mem_flatMap.1 hy
  rcases List.mem_append.1 hx with hhyphen | hkept
  · split at hhyphen
    · rw [List.mem_singleton.1 hhyphen]
    · exact absurd hhyphen List.not_mem_nil
  · rw [List.mem_singleton.1 hkept] at hinserted
    cases hinserted

/-- What is left when the marked hyphens are taken out. -/
theorem unmarked_marked (before cs : List Char) :
    ((marked before cs).filter fun y => !y.2).map Prod.fst = small before cs := by
  rw [marked, List.filter_flatMap, List.map_flatMap, small, List.map_eq_flatMap]
  refine List.flatMap_congr fun x _ => ?_
  by_cases hx : StartsWord x.1 x.2
  · simp [hx]
  · simp [hx]

/-- Whatever the flags say, what comes out has no capital outside of braces. -/
theorem hasCapital_respell (inside afterSmall : Bool) (cs : List Char) :
    hasCapital inside (respell inside afterSmall cs) = false := by
  induction cs generalizing inside afterSmall with
  | nil => rfl
  | cons c cs ih =>
    rw [respell]
    by_cases hc : Text.isUpper c = true
    · obtain ⟨hsame, hlower⟩ := inBraces_of_isUpper hc inside
      rw [hsame]
      cases inside with
      | true => simp [hasCapital, hsame, ih]
      | false =>
        have hhyphen : inBraces false '-' = false ∧ Text.isUpper '-' = false := by decide
        cases afterSmall <;>
          simp [hasCapital, hc, hlower, isUpper_lowerAscii hc, hhyphen, ih]
    · simp [hasCapital, hc, ih]

/-- What has no capital outside of braces is left as it is. -/
theorem respell_of_hasCapital {inside : Bool} {cs : List Char} (h : hasCapital inside cs = false)
    (afterSmall : Bool) : respell inside afterSmall cs = cs := by
  induction cs generalizing inside afterSmall with
  | nil => rfl
  | cons c cs ih =>
    rw [hasCapital, Bool.or_eq_false_iff] at h
    rw [respell, h.1]
    exact congrArg (c :: ·) (ih h.2 _)

/-- Outside of braces, what is no brace is passed over. -/
theorem braced_cons_of_plain {before : List Char} {c : Char} (houtside : ¬EndsInside before)
    (hplain : ∀ inside, inBraces inside c = inside) (cs : List Char) :
    braced before (c :: cs) = braced (before ++ [c]) cs ∧ ¬EndsInside (before ++ [c]) := by
  have hopen : c ≠ '{' := by
    rintro rfl
    exact absurd (hplain false) (by decide)
  have hclose : c ≠ '}' := by
    rintro rfl
    exact absurd (hplain true) (by decide)
  rw [endsInside_concat]
  simp [braced, contexts, houtside, hopen, hclose]

/-- The braces and what they hold come through, whatever was written before them. -/
theorem braced_respell {before written : List Char} (h : EndsInside written ↔ EndsInside before)
    (afterSmall : Bool) (cs : List Char) :
    braced written (respell (decide (EndsInside before)) afterSmall cs) = braced before cs := by
  induction cs generalizing before written afterSmall with
  | nil => rfl
  | cons c cs ih =>
    rw [respell, inBraces_endsInside, misplaced_eq]
    by_cases hc : Misplaced before c
    · rw [decide_eq_true hc, if_pos rfl]
      obtain ⟨hupper, houtside⟩ := hc
      have hplain := fun inside => inBraces_of_isUpper hupper inside
      obtain ⟨hskip, hstill⟩ := braced_cons_of_plain houtside (fun i => (hplain i).1) cs
      -- the small letter is passed over in what is written, and so is the hyphen before it
      have hletter : ∀ {written : List Char}, ¬EndsInside written →
          braced written (Text.lowerAscii c
            :: respell (decide (EndsInside (before ++ [c]))) false cs) = braced before (c :: cs) := by
        intro written hwritten
        obtain ⟨hpassed, hafter⟩ := braced_cons_of_plain hwritten (fun i => (hplain i).2)
          (respell (decide (EndsInside (before ++ [c]))) false cs)
        rw [hpassed, hskip]
        exact ih (iff_of_false hafter hstill) false
      have hwritten : ¬EndsInside written := mt h.1 houtside
      rw [decide_eq_false hstill] at hletter ⊢
      cases afterSmall with
      | false => exact hletter hwritten
      | true =>
        obtain ⟨hhyphen, hafter⟩ := braced_cons_of_plain hwritten (c := '-') (by decide)
          (Text.lowerAscii c :: respell false false cs)
        exact hhyphen.trans (hletter hafter)
    · rw [decide_eq_false hc, if_neg Bool.false_ne_true]
      have hsame : EndsInside (written ++ [c]) ↔ EndsInside (before ++ [c]) := by
        rw [endsInside_concat, endsInside_concat, h]
      have hrest := ih hsame (Text.isLower c || Text.isDigit c)
      simp only [braced, contexts, List.filter_cons, h] at hrest ⊢
      split
      · rw [List.map_cons, List.map_cons, hrest]
      · exact hrest

/-! ## The fix -/

/-- What the check looks for in a template. -/
theorem hasCapitalSegment_iff (template : String) :
    hasCapitalSegment template = true ↔
      ∃ before c after, template.toList = before ++ c :: after ∧ Misplaced before c := by
  have hinside : decide (EndsInside []) = false := by decide
  rw [hasCapitalSegment, ← hinside, hasCapital_iff]
  constructor
  · rintro ⟨x, hx, hmisplaced⟩
    obtain ⟨before, after, heq, hbefore⟩ := mem_contexts_iff.1 hx
    rw [List.nil_append] at hbefore
    exact ⟨before, x.2, after, heq, hbefore ▸ hmisplaced⟩
  · rintro ⟨before, c, after, heq, hmisplaced⟩
    exact ⟨(before, c), mem_contexts_iff.2 ⟨before, after, heq, rfl⟩, hmisplaced⟩

/-- **The fix for the name of a path settles it.** The check is about capitals outside of
braces, and what it suggests is the respelled template. No such capital stands in that, so the
check has nothing to say about it, and respelling it again changes nothing. Its braces and what
they hold are those of the template. With the hyphens taken out that were put in, it is the
template with exactly the capitals outside of braces made small. -/
theorem respelling_settles_naming (p : PathEntry) (checks : Checks) :
    let fixed := kebabCase p.template
    (hasCapitalSegment p.template = true ↔
        ∃ before c after, p.template.toList = before ++ c :: after ∧ Misplaced before c) ∧
      (∀ f ∈ checkPath p checks, f.suggestedFix = some fixed) ∧
      (∀ before c after, fixed.toList = before ++ c :: after → ¬Misplaced before c) ∧
      hasCapitalSegment fixed = false ∧
      (∀ location, checkPath ⟨location, fixed⟩ checks = []) ∧
      kebabCase fixed = fixed ∧
      braced [] fixed.toList = braced [] p.template.toList ∧
      fixed.toList = (marked [] p.template.toList).map Prod.fst ∧
      (∀ y ∈ marked [] p.template.toList, y.2 = true → y.1 = '-') ∧
      ((marked [] p.template.toList).filter fun y => !y.2).map Prod.fst
        = small [] p.template.toList := by
  intro fixed
  have hfixed : fixed.toList = respell false false p.template.toList := String.toList_ofList
  -- nothing stands before the first character
  have hinside : decide (EndsInside []) = false := by decide
  have hsmall : decide (EndsSmall []) = false := by decide
  have hnone : hasCapitalSegment fixed = false := by
    rw [hasCapitalSegment, hfixed]
    exact hasCapital_respell false false _
  refine ⟨hasCapitalSegment_iff _, ?_, ?_, hnone, ?_, ?_, ?_, ?_,
    fun y => hyphen_of_marked, unmarked_marked [] _⟩
  · intro f hf
    unfold checkPath findingIf at hf
    split at hf
    · rw [List.mem_singleton.1 hf]
      rfl
    · exact absurd hf List.not_mem_nil
  · intro before c after heq hmisplaced
    have hfound := (hasCapitalSegment_iff fixed).2 ⟨before, c, after, heq, hmisplaced⟩
    exact Bool.false_ne_true (hnone.symm.trans hfound)
  · intro location
    rw [checkPath, hnone, Bool.and_false]
    rfl
  · rw [kebabCase, respell_of_hasCapital hnone, String.ofList_toList]
  · rw [hfixed, ← hinside]
    exact braced_respell Iff.rfl false _
  · rw [hfixed, ← respell_eq, hinside, hsmall]

example : kebabCase "/userProfiles/{userId}/{a{b}C}" = "/user-profiles/{userId}/{a{b}c}" := by
  decide

end PatternAudit.Api
