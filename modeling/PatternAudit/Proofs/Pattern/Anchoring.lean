/-
The fix for a pattern without anchors.

The fix puts `^` in front and `$` behind, each where it is missing. It is anchored unless the
pattern, trimmed, ends within an escape: an odd run of backslashes at the end escapes the `$`
that is put behind it (`isAnchored_anchor`). Trimming can make such a pattern out of a sound
one, since it takes an escaped blank from the end and leaves its backslash. Where the fix is
not anchored, the check finds it as faulty as the pattern.
-/
import PatternAudit.Pattern.Quality
import PatternAudit.Proofs.Text.Collapse

set_option autoImplicit false

namespace PatternAudit.Pattern

/-! ## How a pattern ends -/

/-- Whether a pattern ends within an escape, so that what is put behind it is escaped. -/
def endsInEscape (cs : List Char) : Bool := (cs.reverse.takeWhile (· = '\\')).length % 2 = 1

variable {cs : List Char}

theorem endsAnchored_concat (cs : List Char) : endsAnchored (cs ++ ['$']) = !endsInEscape cs := by
  have hrev : endsAnchored (cs ++ ['$'])
      = decide ((cs.reverse.takeWhile (· = '\\')).length % 2 = 0) := by
    rw [endsAnchored, List.reverse_concat]
    rfl
  rw [hrev, endsInEscape, ← decide_not]
  exact decide_eq_decide.2 (by omega)

/-- What ends with an anchor is the anchor behind a pattern that ends in no escape. -/
theorem exists_of_endsAnchored (h : endsAnchored cs = true) :
    ∃ body, cs = body ++ ['$'] ∧ endsInEscape body = false := by
  have hlast : cs.getLast? = some '$' := by
    rw [List.getLast?_eq_head?_reverse]
    unfold endsAnchored endsAnchoredRev at h
    split at h
    · rename_i hrev
      rw [hrev]
      rfl
    · cases h
  obtain ⟨body, rfl⟩ := List.getLast?_eq_some_iff.1 hlast
  rw [endsAnchored_concat] at h
  exact ⟨body, rfl, by rwa [Bool.not_eq_true'] at h⟩

/-- A pattern that ends with an anchor ends in no escape. -/
theorem endsInEscape_of_endsAnchored (h : endsAnchored cs = true) : endsInEscape cs = false := by
  obtain ⟨body, rfl, -⟩ := exists_of_endsAnchored h
  rw [endsInEscape, List.reverse_concat]
  rfl

/-- What stands in front of a pattern does not change how it ends, if it is no backslash. -/
theorem endsInEscape_cons {c : Char} (hc : c ≠ '\\') (cs : List Char) :
    endsInEscape (c :: cs) = endsInEscape cs := by
  have hrun : ∀ ds : List Char,
      (ds ++ [c]).takeWhile (· = '\\') = ds.takeWhile (· = '\\') := by
    intro ds
    induction ds with
    | nil => exact List.takeWhile_cons_of_neg (by simp [hc])
    | cons d rest ih => rw [List.cons_append, List.takeWhile_cons, List.takeWhile_cons, ih]
  rw [endsInEscape, List.reverse_cons, hrun]
  rfl

/-! ## The fix -/

/-- The fix is the pattern with at most one character more at each end. -/
theorem exists_anchor_eq (cs : List Char) :
    ∃ front back, (front = [] ∨ front = ['^']) ∧ (back = [] ∨ back = ['$']) ∧
      anchor cs = front ++ cs ++ back := by
  refine ⟨_, _, ?_, ?_, rfl⟩
  · split
    · exact Or.inl rfl
    · exact Or.inr rfl
  · split
    · exact Or.inl rfl
    · exact Or.inr rfl

theorem head?_anchor (cs : List Char) : (anchor cs).head? = some '^' := by
  unfold anchor
  split
  · rename_i hstart
    obtain ⟨rest, rfl⟩ := List.head?_eq_some_iff.1 (beq_iff_eq.1 hstart)
    rfl
  · rfl

theorem getLast?_anchor (cs : List Char) : (anchor cs).getLast? = some '$' := by
  unfold anchor
  split
  all_goals
    split
    · rename_i hend
      obtain ⟨body, rfl, -⟩ := exists_of_endsAnchored hend
      rw [List.append_nil, ← List.append_assoc, List.getLast?_concat]
    · rw [List.getLast?_concat]

/-- **The fix is anchored** exactly if the pattern does not end within an escape. -/
theorem isAnchored_anchor (cs : List Char) : isAnchored (anchor cs) = !endsInEscape cs := by
  have hfront : ∀ body : List Char,
      endsInEscape ((if startsAnchored cs then [] else ['^']) ++ body) = endsInEscape body := by
    intro body
    split
    · rfl
    · exact endsInEscape_cons (by decide) body
  have hstart : startsAnchored (anchor cs) = true := beq_iff_eq.2 (head?_anchor cs)
  rw [isAnchored, hstart, Bool.true_and, anchor]
  by_cases hend : endsAnchored cs = true
  · obtain ⟨body, hcs, hbody⟩ := exists_of_endsAnchored hend
    rw [if_pos hend, List.append_nil, endsInEscape_of_endsAnchored hend]
    rw [hcs] at hfront ⊢
    rw [← List.append_assoc, endsAnchored_concat, hfront, hbody]
  · rw [if_neg hend, endsAnchored_concat, hfront]

/-- Anchoring leaves what is anchored as it is, and nothing else. -/
theorem anchor_eq_self_iff : anchor cs = cs ↔ isAnchored cs = true := by
  rw [isAnchored, Bool.and_eq_true]
  constructor
  · intro h
    have hlength := congrArg List.length h
    simp only [anchor, List.length_append] at hlength
    constructor
    · by_cases hstart : startsAnchored cs = true
      · exact hstart
      · rw [if_neg hstart, List.length_singleton] at hlength
        omega
    · by_cases hend : endsAnchored cs = true
      · exact hend
      · rw [if_neg hend, List.length_singleton] at hlength
        omega
  · rintro ⟨hstart, hend⟩
    rw [anchor, if_pos hstart, if_pos hend, List.nil_append, List.append_nil]

/-- The fix has no blanks at its ends. -/
theorem trim_anchor (cs : List Char) :
    Text.trim (String.ofList (anchor cs)) = String.ofList (anchor cs) := by
  rw [Text.trim, String.toList_ofList, Text.trimChars_eq_self_iff.2 ⟨?_, ?_⟩]
  · intro c hc
    rw [head?_anchor] at hc
    cases hc
    decide
  · intro c hc
    rw [getLast?_anchor] at hc
    cases hc
    decide

/-! ## The check -/

variable {location pattern : String} {checks : Checks}

/-- Whether a trimmed pattern lacks an anchor and is not reported for something else. -/
def lacksAnchors (trimmed : String) : Bool :=
  (permissiveAdvice? trimmed).isNone && !isAnchored trimmed.toList

theorem of_mem_check_of_missingAnchors {f : Finding} (hf : f ∈ check location pattern checks)
    (hrule : f.rule = .missingAnchors) :
    lacksAnchors (Text.trim pattern) = true ∧
      f.suggestedFix = some (String.ofList (anchor (Text.trim pattern).toList)) := by
  simp only [check, List.mem_append] at hf
  rcases hf with (hpermissive | hanchors) | hbacktracking
  · split at hpermissive
    · split at hpermissive
      · rw [List.mem_singleton.1 hpermissive] at hrule
        cases hrule
      · exact absurd hpermissive List.not_mem_nil
    · exact absurd hpermissive List.not_mem_nil
  · split at hanchors
    · rename_i hlacks
      rw [Bool.and_assoc] at hlacks
      rw [List.mem_singleton.1 hanchors]
      exact ⟨(Bool.and_eq_true_iff.1 hlacks).2, rfl⟩
    · exact absurd hanchors List.not_mem_nil
  · split at hbacktracking
    · rw [List.mem_singleton.1 hbacktracking] at hrule
      cases hrule
    · exact absurd hbacktracking List.not_mem_nil

/-- The check reports a pattern that lacks an anchor. -/
theorem exists_mem_check_of_lacksAnchors (location : String) (hon : checks.anchors = true)
    (hlacks : lacksAnchors (Text.trim pattern) = true) :
    ∃ f ∈ check location pattern checks, f.rule = .missingAnchors := by
  have hcondition : (checks.anchors && (permissiveAdvice? (Text.trim pattern)).isNone
      && !isAnchored (Text.trim pattern).toList) = true := by
    rw [Bool.and_assoc, hon]
    exact hlacks
  refine ⟨.warning location pattern .missingAnchors "missing anchors" anchorAdvice
    (some (String.ofList (anchor (Text.trim pattern).toList))), ?_, rfl⟩
  simp only [check, hcondition, if_true]
  exact List.mem_append_left _ (List.mem_append_right _ (List.mem_singleton.2 rfl))

/-- The fix lacks anchors exactly if the pattern ends within an escape. -/
theorem lacksAnchors_anchor (cs : List Char) :
    lacksAnchors (String.ofList (anchor cs)) = endsInEscape cs := by
  have hweak : permissiveAdvice? (String.ofList (anchor cs)) = none := by
    have hne : ∀ s : String, s.toList.head? ≠ some '^' → String.ofList (anchor cs) ≠ s := by
      rintro s hs rfl
      exact hs (by rw [String.toList_ofList, head?_anchor])
    unfold permissiveAdvice?
    split
    · rename_i heq
      exact absurd heq (hne _ (by decide))
    · rename_i heq
      exact absurd heq (hne _ (by decide))
    · rfl
  rw [lacksAnchors, hweak, String.toList_ofList, isAnchored_anchor]
  simp

/-- **The fix for missing anchors works unless the pattern ends within an escape.** A report of
missing anchors comes with a fix, which is the trimmed pattern with at most one character more
at each end. The fix is anchored, is not changed by anchoring it again, and is not reported
again, each exactly if the trimmed pattern does not end in an odd run of backslashes. -/
theorem anchor_fix_works_iff {f : Finding} (hf : f ∈ check location pattern checks)
    (hrule : f.rule = .missingAnchors) :
    let trimmed := (Text.trim pattern).toList
    ∃ fix, f.suggestedFix = some fix ∧
      (∃ front back, (front = [] ∨ front = ['^']) ∧ (back = [] ∨ back = ['$']) ∧
        fix.toList = front ++ trimmed ++ back) ∧
      (isAnchored fix.toList = true ↔ endsInEscape trimmed = false) ∧
      (anchor fix.toList = fix.toList ↔ endsInEscape trimmed = false) ∧
      ((∀ (location' : String) (checks' : Checks), ∀ g ∈ check location' fix checks',
        g.rule ≠ .missingAnchors) ↔ endsInEscape trimmed = false) := by
  intro trimmed
  have hfix : f.suggestedFix = some (String.ofList (anchor trimmed)) :=
    (of_mem_check_of_missingAnchors hf hrule).2
  refine ⟨String.ofList (anchor trimmed), hfix, ?_, ?_, ?_, ?_⟩
  · rw [String.toList_ofList]
    exact exists_anchor_eq trimmed
  · rw [String.toList_ofList, isAnchored_anchor, Bool.not_eq_true']
  · rw [String.toList_ofList, anchor_eq_self_iff, isAnchored_anchor, Bool.not_eq_true']
  · constructor
    · intro hsilent
      rw [Bool.eq_false_iff]
      intro hescape
      rw [← lacksAnchors_anchor, ← trim_anchor] at hescape
      have hon : Checks.all.anchors = true := rfl
      obtain ⟨g, hg, hgrule⟩ := exists_mem_check_of_lacksAnchors location hon hescape
      exact hsilent location .all g hg hgrule
    · intro hescape location' checks' g hg hgrule
      have hlacks := (of_mem_check_of_missingAnchors hg hgrule).1
      rw [trim_anchor, lacksAnchors_anchor, hescape] at hlacks
      cases hlacks

/-- The check for anchors alone. -/
def anchorsOnly : Checks := { Checks.none with anchors := true }

/-- A report of missing anchors with a fix, as the check makes it. -/
def unanchored (location pattern fix : String) : Finding :=
  .warning location pattern .missingAnchors "missing anchors" anchorAdvice (some fix)

/-- The fix for a pattern that ends in an escaped `$` has one more `$`, and works. -/
theorem escapedDollar_fix_works :
    unanchored "#/x" " a\\$ " "^a\\$$" ∈ check "#/x" " a\\$ " anchorsOnly ∧
      ∃ fix, (unanchored "#/x" " a\\$ " "^a\\$$").suggestedFix = some fix ∧
        isAnchored fix.toList = true ∧ anchor fix.toList = fix.toList := by
  have hf : unanchored "#/x" " a\\$ " "^a\\$$" ∈ check "#/x" " a\\$ " anchorsOnly := by
    decide +kernel
  obtain ⟨fix, hfix, -, hanchored, hsame, -⟩ := anchor_fix_works_iff hf rfl
  exact ⟨hf, fix, hfix, hanchored.2 (by decide), hsame.2 (by decide)⟩

/-- **The fix for a pattern that ends in an escaped blank does not work.** Trimming leaves the
backslash, which escapes the `$` of the fix; the fix is reported again. -/
theorem escapedBlank_fix_unanchored :
    check "#/x" "a\\ " anchorsOnly = [unanchored "#/x" "a\\ " "^a\\$"] ∧
      isAnchored "^a\\$".toList = false ∧
      check "#/x" "^a\\$" anchorsOnly = [unanchored "#/x" "^a\\$" "^a\\$$"] := by
  decide +kernel

end PatternAudit.Pattern
