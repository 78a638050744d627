/-
Anchors and alternatives.

A bar binds more loosely than an anchor, so each alternative of a pattern needs anchors of its
own. `alternatives` cuts a pattern at its bars, unless they are escaped or stand in a class or a
group. What is tested of a pattern is whether its two ends are anchored, which are the beginning
of the first alternative and the end of the last one (`isAnchored_iff_outer`), and the fix for a
pattern adds anchors at these two places. The places at the bars in between are neither looked
at nor changed (`innerAnchored_anchor`): whether every alternative is anchored at both ends is
decided there.
-/
import PatternAudit.Proofs.Pattern.Mending

set_option autoImplicit false

namespace PatternAudit.Pattern

/-! ## Alternatives -/

/-- Whether a character comes between two alternatives: a bar that is plain and in no group. -/
def Scan.isBar (s : Scan) (c : Char) : Bool := c = '|' && s.isPlain && s.unclosed = 0

/-- A pattern on the way through its alternatives. -/
structure Cut where
  scan : Scan
  /-- the alternatives that have ended -/
  ended : List (List Char)
  /-- what has been read of the next one -/
  current : List Char

namespace Cut

/-- The state before the first character. -/
def start : Cut := ⟨.start, [], []⟩

/-- Takes one character. -/
def step (k : Cut) (c : Char) : Cut :=
  if k.scan.isBar c then ⟨k.scan.step c, k.ended ++ [k.current], []⟩
  else ⟨k.scan.step c, k.ended, k.current ++ [c]⟩

/-- The alternatives, with the one at hand. -/
def all (k : Cut) : List (List Char) := k.ended ++ [k.current]

/-- The state with one more character at the very beginning. -/
def putFirst (x : Char) (k : Cut) : Cut :=
  match k.ended with
  | [] => { k with current := x :: k.current }
  | first :: rest => { k with ended := (x :: first) :: rest }

/-- What has been read does not change how it goes on. -/
theorem step_putFirst (x : Char) (k : Cut) (c : Char) :
    (k.putFirst x).step c = (k.step c).putFirst x := by
  obtain ⟨scan, ended, current⟩ := k
  cases ended with
  | nil =>
    by_cases hbar : scan.isBar c = true
    · simp [step, putFirst, hbar]
    · simp [step, putFirst, hbar]
  | cons first rest =>
    by_cases hbar : scan.isBar c = true
    · simp [step, putFirst, hbar]
    · simp [step, putFirst, hbar]

end Cut

/-- A pattern at its end, behind all alternatives but the last. -/
def cut (cs : List Char) : Cut := cs.foldl Cut.step .start

/-- The alternatives of a pattern. -/
def alternatives (cs : List Char) : List (List Char) := (cut cs).all

theorem cut_concat (cs : List Char) (c : Char) : cut (cs ++ [c]) = (cut cs).step c := by
  rw [cut, List.foldl_append]
  rfl

/-- A caret in front of a pattern is part of the first alternative. -/
theorem cut_caret (cs : List Char) : cut ('^' :: cs) = (cut cs).putFirst '^' := by
  induction cs using List.reverseRecOn with
  | nil => rfl
  | append_singleton cs c ih =>
    rw [← List.cons_append, cut_concat, ih, Cut.step_putFirst, cut_concat]

/-- A dollar sign behind a pattern is part of the last alternative. -/
theorem cut_dollar (cs : List Char) :
    (cut (cs ++ ['$'])).ended = (cut cs).ended ∧
      (cut (cs ++ ['$'])).current = (cut cs).current ++ ['$'] := by
  rw [cut_concat]
  exact ⟨rfl, rfl⟩

theorem Scan.eq_bar_of_isBar {s : Scan} {c : Char} (h : s.isBar c = true) : c = '|' := by
  simp only [isBar, Bool.and_eq_true, decide_eq_true_eq] at h
  exact h.1.1

/-- What comes of the last one of some texts with bars between them, and what comes before. -/
theorem intercalate_concat (as : List (List Char)) (last : List Char) :
    List.intercalate ['|'] (as ++ [last]) = as.flatMap (· ++ ['|']) ++ last := by
  induction as with
  | nil => exact List.intercalate_singleton
  | cons a as ih =>
    cases as with
    | nil => simp [List.intercalate_cons_cons]
    | cons b bs =>
      rw [List.cons_append, List.cons_append, List.intercalate_cons_cons, ← List.cons_append, ih]
      simp only [List.flatMap_cons, List.append_assoc]

/-- **The alternatives, with bars between them, are the pattern.** -/
theorem intercalate_alternatives (cs : List Char) :
    List.intercalate ['|'] (alternatives cs) = cs := by
  induction cs using List.reverseRecOn with
  | nil => rfl
  | append_singleton cs c ih =>
    rw [alternatives, Cut.all, intercalate_concat] at ih ⊢
    rw [cut_concat, Cut.step]
    -- a bar that ends an alternative comes back as the bar behind it
    by_cases hbar : (cut cs).scan.isBar c = true
    · rw [if_pos hbar, List.flatMap_append, List.flatMap_singleton, List.append_nil,
        ← List.append_assoc, ih, Scan.eq_bar_of_isBar hbar]
    · rw [if_neg hbar, ← List.append_assoc, ih]

/-! ## Outer and inner ends -/

/-- Whether the first alternative begins with an anchor and the last one ends with one. -/
structure OuterAnchored (as : List (List Char)) : Prop where
  first : ∀ a ∈ as.head?, startsAnchored a = true
  last : ∀ a ∈ as.getLast?, endsAnchored a = true

/-- Whether all alternatives but the first begin with an anchor, and all but the last end with
one. -/
structure InnerAnchored (as : List (List Char)) : Prop where
  begins : ∀ a ∈ as.tail, startsAnchored a = true
  ends : ∀ a ∈ as.dropLast, endsAnchored a = true

/-- **Alternatives are anchored at their outer and inner ends.** -/
theorem forall_isAnchored_iff {as : List (List Char)} :
    (∀ a ∈ as, isAnchored a = true) ↔ OuterAnchored as ∧ InnerAnchored as := by
  have hbegins : (∀ a ∈ as, startsAnchored a = true) ↔
      (∀ a ∈ as.head?, startsAnchored a = true) ∧ ∀ a ∈ as.tail, startsAnchored a = true := by
    cases as with
    | nil => simp
    | cons a as => simp
  have hends : (∀ a ∈ as, endsAnchored a = true) ↔
      (∀ a ∈ as.getLast?, endsAnchored a = true) ∧ ∀ a ∈ as.dropLast, endsAnchored a = true := by
    rcases List.eq_nil_or_concat as with rfl | ⟨as, a, rfl⟩
    · simp
    · simp [or_imp, forall_and, and_comm]
  simp only [isAnchored, Bool.and_eq_true]
  constructor
  · intro h
    obtain ⟨hfirst, htail⟩ := hbegins.1 fun a ha => (h a ha).1
    obtain ⟨hlast, hinit⟩ := hends.1 fun a ha => (h a ha).2
    exact ⟨⟨hfirst, hlast⟩, ⟨htail, hinit⟩⟩
  · rintro ⟨houter, hinner⟩ a ha
    exact ⟨hbegins.2 ⟨houter.first, hinner.begins⟩ a ha, hends.2 ⟨houter.last, hinner.ends⟩ a ha⟩

theorem endsAnchored_concat_of_ne {c : Char} (hc : c ≠ '$') (cs : List Char) :
    endsAnchored (cs ++ [c]) = false := by
  rw [endsAnchored, List.reverse_concat]
  unfold endsAnchoredRev
  split
  · rename_i heq
    exact absurd (List.cons.inj heq).1 hc
  · rfl

/-- A pattern and its last alternative end in an escape, or neither does. -/
theorem endsInEscape_current (cs : List Char) :
    endsInEscape (cut cs).current = endsInEscape cs := by
  induction cs using List.reverseRecOn with
  | nil => rfl
  | append_singleton cs c ih =>
    rw [cut_concat, Cut.step, endsInEscape_concat]
    by_cases hbar : (cut cs).scan.isBar c = true
    · rw [if_pos hbar, Scan.eq_bar_of_isBar hbar]
      rfl
    · rw [if_neg hbar, endsInEscape_concat, ih]

/-- The end of a pattern is the end of its last alternative. -/
theorem endsAnchored_current (cs : List Char) :
    endsAnchored (cut cs).current = endsAnchored cs := by
  rcases List.eq_nil_or_concat cs with rfl | ⟨cs, c, rfl⟩
  · rfl
  rw [List.concat_eq_append]
  -- only a dollar sign can be an anchor here, and it ends no alternative
  by_cases hc : c = '$'
  · rw [hc, (cut_dollar cs).2, endsAnchored_concat, endsAnchored_concat, endsInEscape_current]
  · rw [endsAnchored_concat_of_ne hc, cut_concat, Cut.step]
    split
    · rfl
    · exact endsAnchored_concat_of_ne hc _

/-- The beginning of a pattern is the beginning of its first alternative. -/
theorem startsAnchored_first {cs first : List Char} {rest : List (List Char)}
    (h : alternatives cs = first :: rest) : startsAnchored first = startsAnchored cs := by
  rw [← intercalate_alternatives cs, h]
  cases rest with
  | nil => rw [List.intercalate_singleton]
  | cons next rest =>
    rw [List.intercalate_cons_cons]
    cases first <;> rfl

/-- **What is tested of a pattern are the outer ends of its alternatives.** -/
theorem isAnchored_iff_outer (cs : List Char) :
    isAnchored cs = true ↔ OuterAnchored (alternatives cs) := by
  have hlast : (alternatives cs).getLast? = some (cut cs).current := List.getLast?_concat
  rw [isAnchored, Bool.and_eq_true, ← endsAnchored_current]
  cases halternatives : alternatives cs with
  | nil =>
    rw [halternatives] at hlast
    cases hlast
  | cons first rest =>
    rw [halternatives] at hlast
    rw [← startsAnchored_first halternatives]
    constructor
    · rintro ⟨hfirst, hend⟩
      refine ⟨?_, ?_⟩
      · rintro a ⟨⟩
        exact hfirst
      · intro a ha
        rw [hlast] at ha
        cases ha
        exact hend
    · intro h
      exact ⟨h.first first rfl, h.last _ hlast⟩

/-! ## What the fix changes -/

/-- A caret in front of an alternative does not change its end. -/
theorem endsAnchored_caret (cs : List Char) : endsAnchored ('^' :: cs) = endsAnchored cs := by
  rcases List.eq_nil_or_concat cs with rfl | ⟨cs, c, rfl⟩
  · rfl
  rw [List.concat_eq_append, ← List.cons_append]
  by_cases hc : c = '$'
  · rw [hc, endsAnchored_concat, endsAnchored_concat, endsInEscape_cons (by decide)]
  · rw [endsAnchored_concat_of_ne hc, endsAnchored_concat_of_ne hc]

/-- The alternatives that have ended are all but the last. -/
theorem innerAnchored_all (k : Cut) :
    InnerAnchored k.all ↔
      (∀ a ∈ k.all.tail, startsAnchored a = true) ∧ ∀ a ∈ k.ended, endsAnchored a = true := by
  have hinit : k.all.dropLast = k.ended := List.dropLast_concat
  exact ⟨fun h => ⟨h.begins, hinit ▸ h.ends⟩, fun h => ⟨h.1, hinit.symm ▸ h.2⟩⟩

theorem innerAnchored_caret (cs : List Char) :
    InnerAnchored (alternatives ('^' :: cs)) ↔ InnerAnchored (alternatives cs) := by
  rw [alternatives, alternatives, cut_caret, innerAnchored_all, innerAnchored_all]
  generalize cut cs = k
  obtain ⟨scan, ended, current⟩ := k
  cases ended with
  | nil => exact Iff.rfl
  | cons first rest =>
    have hends : (∀ a ∈ ('^' :: first) :: rest, endsAnchored a = true) ↔
        ∀ a ∈ first :: rest, endsAnchored a = true := by
      rw [List.forall_mem_cons, List.forall_mem_cons, endsAnchored_caret]
    -- the first alternative is not looked at for its beginning
    exact and_congr_right fun _ => hends

theorem innerAnchored_dollar (cs : List Char) :
    InnerAnchored (alternatives (cs ++ ['$'])) ↔ InnerAnchored (alternatives cs) := by
  obtain ⟨hended, hcurrent⟩ := cut_dollar cs
  have hstart : startsAnchored ((cut cs).current ++ ['$']) = startsAnchored (cut cs).current := by
    cases (cut cs).current <;> rfl
  rw [alternatives, alternatives, innerAnchored_all, innerAnchored_all, Cut.all, Cut.all, hended,
    hcurrent]
  cases (cut cs).ended with
  | nil => exact Iff.rfl
  | cons first rest =>
    simp only [List.cons_append, List.tail_cons, List.forall_mem_append, List.forall_mem_singleton,
      hstart]

/-- **The fix leaves the inner ends as they are.** -/
theorem innerAnchored_anchor (cs : List Char) :
    InnerAnchored (alternatives (anchor cs)) ↔ InnerAnchored (alternatives cs) := by
  have hfront : ∀ body : List Char,
      InnerAnchored (alternatives ((if startsAnchored cs then [] else ['^']) ++ body)) ↔
        InnerAnchored (alternatives body) := by
    intro body
    split
    · exact Iff.rfl
    · exact innerAnchored_caret body
  rw [anchor, List.append_assoc, hfront]
  split
  · rw [List.append_nil]
  · exact innerAnchored_dollar cs

/-! ## The check -/

/-- **The check and its fix look after the outer ends only.** A pattern passes as anchored
exactly if, trimmed, its first alternative begins with an anchor and its last one ends with one.
All its alternatives are anchored at both ends exactly if they are so at the bars, too. A fix is
anchored at its outer ends unless the trimmed pattern ends within an escape, and at the bars it
is as the trimmed pattern is. -/
theorem anchors_at_outer_ends (location pattern : String) (checks : Checks) :
    (isAnchored (Text.trim pattern).toList = true →
      (∀ f ∈ check location pattern checks, f.rule ≠ .missingAnchors) ∧
      OuterAnchored (alternatives (Text.trim pattern).toList) ∧
      ((∀ a ∈ alternatives (Text.trim pattern).toList, isAnchored a = true) ↔
        InnerAnchored (alternatives (Text.trim pattern).toList))) ∧
    ∀ f ∈ check location pattern checks, f.rule = .missingAnchors →
      ∃ fix, f.suggestedFix = some fix ∧
        (endsInEscape (Text.trim pattern).toList = false →
          OuterAnchored (alternatives fix.toList) ∧
          ((∀ a ∈ alternatives fix.toList, isAnchored a = true) ↔
            InnerAnchored (alternatives (Text.trim pattern).toList))) := by
  refine ⟨?_, ?_⟩
  · intro hanchored
    have houter := (isAnchored_iff_outer _).1 hanchored
    refine ⟨?_, houter, ?_⟩
    · intro f hf hrule
      have hlacks := (of_mem_check_of_missingAnchors hf hrule).1
      rw [lacksAnchors, hanchored] at hlacks
      simp at hlacks
    · rw [forall_isAnchored_iff, and_iff_right houter]
  · intro f hf hrule
    refine ⟨_, (of_mem_check_of_missingAnchors hf hrule).2, ?_⟩
    intro hescape
    have hanchored : isAnchored (anchor (Text.trim pattern).toList) = true := by
      rw [isAnchored_anchor, hescape]
      rfl
    have houter := (isAnchored_iff_outer _).1 hanchored
    rw [String.toList_ofList]
    exact ⟨houter, by rw [forall_isAnchored_iff, and_iff_right houter, innerAnchored_anchor]⟩

/-- Bars in a class and in a group end no alternative, and a bar between anchors ends one that is
anchored like the next. -/
theorem innerAnchors_kept :
    isAnchored "^[|](a|b)$|^c$".toList = true ∧
      (∀ a ∈ alternatives "^[|](a|b)$|^c$".toList, isAnchored a = true) ∧
    unanchored "#/x" "a$|^b" "^a$|^b$" ∈ check "#/x" "a$|^b" anchorsOnly ∧
      ∀ a ∈ alternatives "^a$|^b$".toList, isAnchored a = true := by
  have hanchored : isAnchored "^[|](a|b)$|^c$".toList = true := by decide
  have hcut : alternatives "^[|](a|b)$|^c$".toList = ["^[|](a|b)$".toList, "^c$".toList] := by
    decide
  have hinner : InnerAnchored (alternatives "^[|](a|b)$|^c$".toList) := by
    rw [hcut]
    exact ⟨by decide, by decide⟩
  have hf : unanchored "#/x" "a$|^b" "^a$|^b$" ∈ check "#/x" "a$|^b" anchorsOnly := by
    decide +kernel
  have hinner' : InnerAnchored (alternatives "a$|^b".toList) := by
    rw [show alternatives "a$|^b".toList = ["a$".toList, "^b".toList] by decide]
    exact ⟨by decide, by decide⟩
  obtain ⟨fix, hfix, hworks⟩ :=
    (anchors_at_outer_ends "#/x" "a$|^b" anchorsOnly).2 _ hf rfl
  obtain rfl : "^a$|^b$" = fix := Option.some.inj hfix
  refine ⟨hanchored, ?_, hf, ?_⟩
  · exact ((anchors_at_outer_ends "#/x" "^[|](a|b)$|^c$" anchorsOnly).1 hanchored).2.2.2 hinner
  · exact (hworks (by decide)).2.2 hinner'

/-- **A pattern that passes, and a fix, with alternatives that are anchored at one end only.** -/
theorem halfAnchored_passes :
    isAnchored "^a|b$".toList = true ∧ check "#/x" "^a|b$" anchorsOnly = [] ∧
      check "#/x" "a|b" anchorsOnly = [unanchored "#/x" "a|b" "^a|b$"] ∧
      alternatives "^a|b$".toList = [['^', 'a'], ['b', '$']] ∧
      endsAnchored ['^', 'a'] = false ∧ startsAnchored ['b', '$'] = false := by
  decide +kernel

end PatternAudit.Pattern
