/-
What a missing delimiter mends.

A pattern is mended by one character put behind it, and for the scan this character is one more
step. What the step does is decided by the state in which the scan of the pattern ends, and two
parts of this state are not among the figures of its balance: whether the character is escaped,
and whether it comes first in a class, where a bracket stands for itself. Both are known from how
the pattern ends (`escaped_run_start`, `isOpening_run_start_iff`).

In all other cases the delimiter does what it is put there for (`repaired_balance`): it closes
the class that is open, and else one group.
-/
import PatternAudit.Proofs.Dialect.Fixes
import PatternAudit.Proofs.Pattern.Anchoring
import PatternAudit.Proofs.Pattern.Groups

set_option autoImplicit false

namespace PatternAudit.Pattern

/-! ## Single steps -/

namespace Scan

variable {s : Scan} {c : Char}

/-- Whether the next character is the first one of a class, where a bracket closes nothing. -/
def isOpening (s : Scan) : Bool := s.place = .classStart ∨ s.place = .negatedStart

theorem run_concat (s : Scan) (cs : List Char) (c : Char) :
    s.run (cs ++ [c]) = (s.run cs).step c :=
  run_append s cs [c]

/-- After a backslash, a character counts for nothing. -/
theorem step_of_escaped (h : s.escaped = true) (c : Char) :
    s.step c = { s with escaped := false } := by
  rw [step, if_pos h]

/-- A backslash escapes, and at the start of a class it is the first character. -/
theorem step_backslash (h : s.escaped = false) :
    s.step '\\' =
      { s with escaped := true, place := if s.place = .outside then .outside else .inClass } := by
  simp [step, h]

/-- No other character escapes. -/
theorem escaped_step_of_ne (h : s.escaped = false) (hc : c ≠ '\\') :
    (s.step c).escaped = false := by
  obtain ⟨place, escaped, unclosed, stray⟩ := s
  rw [step, if_neg (by rw [h]; exact Bool.false_ne_true), if_neg hc]
  cases place with
  | outside =>
    by_cases hclass : c = '['
    · simpa [hclass] using h
    by_cases hopen : c = '('
    · simpa [hclass, hopen] using h
    by_cases hclose : c = ')'
    · by_cases hnone : unclosed = 0
      · simpa [hclass, hopen, hclose, hnone] using h
      · simpa [hclass, hopen, hclose, hnone] using h
    · simpa [hclass, hopen, hclose] using h
  | classStart => exact h
  | negatedStart => exact h
  | inClass =>
    by_cases hclose : c = ']'
    · simpa [hclose] using h
    · simpa [hclose] using h

/-- Escapes do not nest: what a backslash escapes is not itself an escape. -/
theorem escaped_step (s : Scan) (c : Char) :
    (s.step c).escaped = (decide (c = '\\') && !s.escaped) := by
  by_cases hescaped : s.escaped = true
  · rw [step_of_escaped hescaped, hescaped, Bool.not_true, Bool.and_false]
  · rw [Bool.not_eq_true] at hescaped
    by_cases hc : c = '\\'
    · rw [hc, step_backslash hescaped, hescaped]
      rfl
    · rw [escaped_step_of_ne hescaped hc, decide_eq_false hc, Bool.false_and]

/-- A class begins with its bracket, and a caret right behind that belongs to the beginning. -/
theorem place_step_iff (h : s.escaped = false) :
    ((s.step c).place = .classStart ↔ s.place = .outside ∧ c = '[') ∧
      ((s.step c).place = .negatedStart ↔ s.place = .classStart ∧ c = '^') := by
  by_cases hslash : c = '\\'
  · rw [hslash, step_backslash h]
    by_cases hplace : s.place = .outside
    · simp [hplace]
    · simp [hplace]
  obtain ⟨place, escaped, unclosed, stray⟩ := s
  rw [step, if_neg (by rw [h]; exact Bool.false_ne_true), if_neg hslash]
  cases place with
  | outside =>
    by_cases hclass : c = '['
    · simp [hclass]
    by_cases hopen : c = '('
    · simp [hopen]
    by_cases hclose : c = ')'
    · by_cases hnone : unclosed = 0
      · simp [hclose, hnone]
      · simp [hclose, hnone]
    · simp [hclass, hopen, hclose]
  | classStart =>
    by_cases hcaret : c = '^'
    · simp [hcaret]
    · simp [hcaret]
  | negatedStart => simp
  | inClass =>
    by_cases hclose : c = ']'
    · simp [hclose]
    · simp [hclose]

end Scan

/-! ## How a scan ends -/

variable {cs : List Char} {c : Char}

theorem endsInEscape_concat (cs : List Char) (c : Char) :
    endsInEscape (cs ++ [c]) = (decide (c = '\\') && !endsInEscape cs) := by
  rw [endsInEscape, endsInEscape, List.reverse_concat]
  by_cases hc : c = '\\'
  · rw [List.takeWhile_cons_of_pos (by simp [hc]), List.length_cons, decide_eq_true hc,
      Bool.true_and, ← decide_not]
    exact decide_eq_decide.2 (by omega)
  · rw [List.takeWhile_cons_of_neg (by simp [hc]), decide_eq_false hc, Bool.false_and]
    rfl

/-- The scan ends within an escape where the backslashes at the end are odd in number. -/
theorem escaped_run_start (cs : List Char) : (Scan.start.run cs).escaped = endsInEscape cs := by
  induction cs using List.reverseRecOn with
  | nil => rfl
  | append_singleton cs c ih => rw [Scan.run_concat, Scan.escaped_step, ih, endsInEscape_concat]

/-- Whether a pattern ends with the `[` or the `[^` that opens a class: in front of it, the
bracket is neither escaped nor inside another class. -/
def EndsInOpening (cs : List Char) : Prop :=
  ∃ before, (cs = before ++ ['['] ∨ cs = before ++ ['[', '^']) ∧
    (Scan.start.run before).isPlain = true

/-- Nothing is escaped where a class begins. -/
theorem escaped_of_isOpening (h : (Scan.start.run cs).isOpening = true) :
    (Scan.start.run cs).escaped = false := by
  rcases List.eq_nil_or_concat cs with rfl | ⟨before, c, rfl⟩
  · rfl
  rw [List.concat_eq_append, Scan.run_concat] at h ⊢
  by_contra hnot
  rw [Bool.not_eq_false, Scan.escaped_step, Bool.and_eq_true, decide_eq_true_eq,
    Bool.not_eq_true'] at hnot
  obtain ⟨hslash, hescaped⟩ := hnot
  rw [hslash, Scan.step_backslash hescaped] at h
  by_cases hplace : (Scan.start.run before).place = .outside
  · simp [Scan.isOpening, hplace] at h
  · simp [Scan.isOpening, hplace] at h

/-- Nor is the last character of a beginning escaped. -/
theorem escaped_before_of_isOpening (h : (Scan.start.run (cs ++ [c])).isOpening = true) :
    (Scan.start.run cs).escaped = false := by
  by_contra hnot
  rw [Bool.not_eq_false] at hnot
  -- an escaped character leaves the place, so that the class would have begun before the escape
  rw [Scan.run_concat, Scan.step_of_escaped hnot] at h
  have hfalse := escaped_of_isOpening h
  rw [hnot] at hfalse
  cases hfalse

theorem classStart_run_start_iff :
    (Scan.start.run cs).place = .classStart ↔
      ∃ before, cs = before ++ ['['] ∧ (Scan.start.run before).isPlain = true := by
  constructor
  · intro h
    have hopening : (Scan.start.run cs).isOpening = true := by simp [Scan.isOpening, h]
    rcases List.eq_nil_or_concat cs with rfl | ⟨before, c, rfl⟩
    · cases h
    rw [List.concat_eq_append] at h hopening ⊢
    have hescaped := escaped_before_of_isOpening hopening
    rw [Scan.run_concat, (Scan.place_step_iff hescaped).1] at h
    obtain ⟨hplace, rfl⟩ := h
    exact ⟨before, rfl, Scan.isPlain_iff.2 ⟨hescaped, hplace⟩⟩
  · rintro ⟨before, rfl, hplain⟩
    obtain ⟨hescaped, hplace⟩ := Scan.isPlain_iff.1 hplain
    rw [Scan.run_concat]
    exact (Scan.place_step_iff hescaped).1.2 ⟨hplace, rfl⟩

/-- The scan ends at the beginning of a class where the pattern ends with that beginning. -/
theorem isOpening_run_start_iff : (Scan.start.run cs).isOpening = true ↔ EndsInOpening cs := by
  have hcases : (Scan.start.run cs).isOpening = true ↔
      (Scan.start.run cs).place = .classStart ∨ (Scan.start.run cs).place = .negatedStart := by
    simp [Scan.isOpening]
  constructor
  · intro h
    rcases hcases.1 h with hclass | hnegated
    · obtain ⟨before, rfl, hplain⟩ := classStart_run_start_iff.1 hclass
      exact ⟨before, Or.inl rfl, hplain⟩
    · rcases List.eq_nil_or_concat cs with rfl | ⟨front, c, rfl⟩
      · cases hnegated
      rw [List.concat_eq_append] at h hnegated ⊢
      rw [Scan.run_concat, (Scan.place_step_iff (escaped_before_of_isOpening h)).2] at hnegated
      obtain ⟨hclass, rfl⟩ := hnegated
      obtain ⟨before, rfl, hplain⟩ := classStart_run_start_iff.1 hclass
      exact ⟨before, Or.inr (List.append_assoc ..), hplain⟩
  · rintro ⟨before, rfl | rfl, hplain⟩
    · exact hcases.2 (Or.inl (classStart_run_start_iff.2 ⟨before, rfl, hplain⟩))
    · have hclass := classStart_run_start_iff.2 ⟨before, rfl, hplain⟩
      have hfirst : (Scan.start.run (before ++ ['['])).isOpening = true := by
        simp [Scan.isOpening, hclass]
      have hescaped := escaped_of_isOpening hfirst
      refine hcases.2 (Or.inr ?_)
      rw [List.append_cons, Scan.run_concat]
      exact (Scan.place_step_iff hescaped).2.2 ⟨hclass, rfl⟩

/-! ## One delimiter more -/

namespace Scan

variable {s : Scan} {d : Char}

theorem openClass_of_isOpening (h : s.isOpening = true) : s.openClass = true := by
  rw [isOpening, decide_eq_true_eq] at h
  rcases h with hplace | hplace
  · rw [openClass, hplace]
    rfl
  · rw [openClass, hplace]
    rfl

/-- The first character of a class closes nothing. -/
theorem step_close_of_isOpening (hescaped : s.escaped = false) (h : s.isOpening = true) :
    s.step ']' = { s with place := .inClass } := by
  rw [isOpening, decide_eq_true_eq] at h
  rcases h with hplace | hplace
  · simp [step, hescaped, hplace]
  · simp [step, hescaped, hplace]

theorem step_close_of_inside (hescaped : s.escaped = false) (h : s.isOpening = false)
    (hclass : s.openClass = true) : s.step ']' = { s with place := .outside } := by
  refine step_inClass_close hescaped ?_
  cases hplace : s.place with
  | outside => simp [openClass, hplace] at hclass
  | classStart => simp [isOpening, hplace] at h
  | negatedStart => simp [isOpening, hplace] at h
  | inClass => rfl

theorem step_close_of_outside (hescaped : s.escaped = false) (hclass : s.openClass = false)
    (hgroup : 0 < s.unclosed) : s.step ')' = { s with unclosed := s.unclosed - 1 } := by
  have hplace : s.place = .outside := by simpa [openClass] using hclass
  simp [step, hescaped, hplace, Nat.ne_of_gt hgroup]

/-- The missing delimiter closes what it is missing from, if the scan sees it as a delimiter. -/
theorem step_missing (h : s.missing? = some d) (hescaped : s.escaped = false)
    (hopening : s.isOpening = false) :
    (s.step d).strayClose = false ∧ (s.step d).openClass = false ∧
      (s.openClass = true → (s.step d).unclosed = s.unclosed) ∧
      (s.openClass = false → (s.step d).unclosed + 1 = s.unclosed) := by
  obtain ⟨hstray, ⟨hclass, rfl⟩ | ⟨hclass, hgroup, rfl⟩⟩ := missing?_eq_some_iff.1 h
  · rw [step_close_of_inside hescaped hopening hclass]
    refine ⟨hstray, rfl, fun _ => rfl, fun hnot => ?_⟩
    rw [hclass] at hnot
    cases hnot
  · rw [step_close_of_outside hescaped hclass hgroup]
    refine ⟨hstray, hclass, fun hnot => ?_, fun _ => ?_⟩
    · rw [hclass] at hnot
      cases hnot
    · show s.unclosed - 1 + 1 = s.unclosed
      omega

/-- It closes nothing where the scan takes it for an escaped character, or for the first one of
a class. -/
theorem step_missing_of_lost (h : s.missing? = some d)
    (hlost : s.escaped = true ∨ s.isOpening = true) :
    (s.step d).strayClose = false ∧ (s.step d).openClass = s.openClass ∧
      (s.step d).unclosed = s.unclosed := by
  obtain ⟨hstray, hmissing⟩ := missing?_eq_some_iff.1 h
  by_cases hescaped : s.escaped = true
  · rw [step_of_escaped hescaped]
    exact ⟨hstray, rfl, rfl⟩
  · have hopening : s.isOpening = true := hlost.resolve_left hescaped
    have hclass := openClass_of_isOpening hopening
    rcases hmissing with ⟨-, rfl⟩ | ⟨hnot, -⟩
    · rw [step_close_of_isOpening (Bool.eq_false_iff.2 hescaped) hopening, hclass]
      exact ⟨hstray, rfl, rfl⟩
    · rw [hclass] at hnot
      cases hnot

end Scan

/-- A pattern is left as it is if nothing is missing, or if what is wrong cannot be mended. -/
theorem repair?_eq_none_iff {pattern : String} :
    repair? pattern = none ↔ (scan pattern).strayClose = true ∨
      (scan pattern).openClass = false ∧ (scan pattern).unclosed = 0 := by
  rw [repair?, Option.map_eq_none_iff, Scan.missing?]
  cases (scan pattern).strayClose with
  | true => simp
  | false =>
    cases (scan pattern).openClass with
    | true => simp
    | false => simp

/-- **A missing delimiter mends what it is missing from.** A pattern is mended unless its scan
comes upon a parenthesis that closes nothing, or ends balanced. What it is mended to has no such
parenthesis either. Where a class is open, the class is closed and the groups stay as they are;
where none is, there is one open group less. This is so unless the delimiter comes behind an odd
run of backslashes or right behind the beginning of a class; then it mends nothing. -/
theorem repaired_balance (pattern : String) :
    (repair? pattern = none ↔ (scan pattern).strayClose = true ∨
      (scan pattern).openClass = false ∧ (scan pattern).unclosed = 0) ∧
    ∀ mended, repair? pattern = some mended → (scan mended).strayClose = false ∧
      (endsInEscape pattern.toList = false → ¬ EndsInOpening pattern.toList →
        (scan mended).openClass = false ∧
          ((scan pattern).openClass = true → (scan mended).unclosed = (scan pattern).unclosed) ∧
          ((scan pattern).openClass = false →
            (scan mended).unclosed + 1 = (scan pattern).unclosed)) ∧
      (endsInEscape pattern.toList = true ∨ EndsInOpening pattern.toList →
        (scan mended).openClass = (scan pattern).openClass ∧
          (scan mended).unclosed = (scan pattern).unclosed) := by
  refine ⟨repair?_eq_none_iff, fun mended hmended => ?_⟩
  obtain ⟨d, hmissing, rfl⟩ := Option.map_eq_some_iff.1 hmended
  have hscan : scan (String.ofList (pattern.toList ++ [d])) = (scan pattern).step d := by
    rw [scan, String.toList_ofList, Scan.run_concat]
    rfl
  have hescape : (scan pattern).escaped = endsInEscape pattern.toList := escaped_run_start _
  have hopening : (scan pattern).isOpening = true ↔ EndsInOpening pattern.toList :=
    isOpening_run_start_iff
  rw [hscan, ← hescape, ← hopening, Bool.not_eq_true]
  by_cases hlost : (scan pattern).escaped = true ∨ (scan pattern).isOpening = true
  · obtain ⟨hstray, hsame⟩ := Scan.step_missing_of_lost hmissing hlost
    refine ⟨hstray, fun hescaped hfirst => ?_, fun _ => hsame⟩
    rw [hescaped, hfirst] at hlost
    simp at hlost
  · rw [not_or, Bool.not_eq_true, Bool.not_eq_true] at hlost
    obtain ⟨hstray, hmends⟩ := Scan.step_missing hmissing hlost.1 hlost.2
    refine ⟨hstray, fun _ _ => hmends, fun hnot => ?_⟩
    rw [hlost.1, hlost.2] at hnot
    simp at hnot

/-- A class within a group lacks its bracket before the group lacks its parenthesis. Where the
class has only begun, the bracket becomes its first character. -/
theorem openClass_repaired :
    (repair? "(a[b\\]" = some "(a[b\\]]" ∧ endsInEscape "(a[b\\]".toList = false ∧
      ¬ EndsInOpening "(a[b\\]".toList ∧
      (scan "(a[b\\]]").openClass = false ∧ (scan "(a[b\\]]").unclosed = 1) ∧
    (repair? "([^" = some "([^]" ∧ EndsInOpening "([^".toList ∧
      (scan "([^]").openClass = true ∧ (scan "([^]").unclosed = 1) := by
  have hmended : repair? "(a[b\\]" = some "(a[b\\]]" := by decide
  have hescape : endsInEscape "(a[b\\]".toList = false := by decide
  have hinside : ¬ EndsInOpening "(a[b\\]".toList := by
    rw [← isOpening_run_start_iff]
    decide
  obtain ⟨hclass, hgroups, -⟩ :=
    ((repaired_balance "(a[b\\]").2 _ hmended).2.1 hescape hinside
  have hlost : repair? "([^" = some "([^]" := by decide
  have hopening : EndsInOpening "([^".toList := ⟨['('], Or.inr rfl, rfl⟩
  obtain ⟨hsameClass, hsameGroups⟩ :=
    ((repaired_balance "([^").2 _ hlost).2.2 (Or.inr hopening)
  exact ⟨⟨hmended, hescape, hinside, hclass, hgroups (by decide)⟩, hlost, hopening, hsameClass,
    hsameGroups⟩

end PatternAudit.Pattern
