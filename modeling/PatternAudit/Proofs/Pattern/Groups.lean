/-
Groups in the text of a pattern.

The scan for delimiters says of every position whether the character there is plain, that is,
neither escaped nor inside a class. From this the groups come about as on a stack: a plain `(`
opens a group, a plain `)` closes the innermost open one and is passed over if there is none.
What jumps over escapes and classes lands where the scan is plain again (`Skips`).
-/
import PatternAudit.Pattern.Backtracking
import PatternAudit.Pattern.Delimiters

set_option autoImplicit false

namespace PatternAudit.Pattern

/-! ## Plain characters -/

/-- Whether the character that comes next is neither escaped nor inside a class. -/
def Scan.isPlain (s : Scan) : Bool := !s.escaped && !s.openClass

theorem Scan.isPlain_iff {s : Scan} : s.isPlain = true ↔ s.escaped = false ∧ s.place = .outside := by
  simp [isPlain, openClass]

/-- The scan of what stands before a position. -/
def scanAt (cs : List Char) (i : Nat) : Scan := Scan.start.run (cs.take i)

/-- The character at a position, if it is neither escaped nor inside a class. -/
def plain? (cs : List Char) (i : Nat) : Option Char :=
  if (scanAt cs i).isPlain then cs[i]? else none

variable {cs : List Char} {i : Nat} {c : Char}

theorem getElem?_of_drop {rest : List Char} (h : cs.drop i = c :: rest) : cs[i]? = some c := by
  rw [← List.head?_drop, h]
  rfl

theorem drop_succ_of_drop {rest : List Char} (h : cs.drop i = c :: rest) :
    cs.drop (i + 1) = rest := by
  rw [← List.tail_drop, h]
  rfl

theorem drop_of_getElem? (h : cs[i]? = some c) : cs.drop i = c :: cs.drop (i + 1) := by
  obtain ⟨hi, rfl⟩ := List.getElem?_eq_some_iff.1 h
  exact List.drop_eq_getElem_cons hi

theorem scanAt_succ (h : cs[i]? = some c) : scanAt cs (i + 1) = (scanAt cs i).step c := by
  rw [scanAt, List.take_add_one, h, Scan.run_append]
  rfl

theorem plain?_eq_some_iff :
    plain? cs i = some c ↔ (scanAt cs i).isPlain = true ∧ cs[i]? = some c := by
  unfold plain?
  split
  · rename_i hplain
    exact ⟨fun h => ⟨hplain, h⟩, fun h => h.2⟩
  · rename_i hplain
    exact ⟨fun h => (nomatch h), fun h => absurd h.1 hplain⟩

/-! ## Groups -/

/-- The groups that are open in front of a position, innermost first, each by the position of
its parenthesis. -/
def openGroups (cs : List Char) : Nat → List Nat
  | 0 => []
  | i + 1 =>
    if plain? cs i = some '(' then i :: openGroups cs i
    else if plain? cs i = some ')' then (openGroups cs i).tail
    else openGroups cs i

/-- A group, by the positions of its two parentheses. -/
def IsGroup (cs : List Char) (o c : Nat) : Prop :=
  plain? cs c = some ')' ∧ (openGroups cs c).head? = some o

/-- Open groups stand before the position, inner ones behind outer ones. -/
theorem openGroups_pairwise (cs : List Char) (i : Nat) :
    (openGroups cs i).Pairwise (· > ·) ∧ ∀ o ∈ openGroups cs i, o < i ∧ plain? cs o = some '(' := by
  induction i with
  | zero => exact ⟨.nil, fun o ho => absurd ho List.not_mem_nil⟩
  | succ i ih =>
    obtain ⟨hpairwise, hbefore⟩ := ih
    unfold openGroups
    split
    · rename_i hopen
      refine ⟨.cons (fun o ho => (hbefore o ho).1) hpairwise, ?_⟩
      intro o ho
      rcases List.mem_cons.1 ho with rfl | ho
      · exact ⟨Nat.lt_succ_self o, hopen⟩
      · exact ⟨Nat.lt_succ_of_lt (hbefore o ho).1, (hbefore o ho).2⟩
    · split
      · refine ⟨hpairwise.tail, ?_⟩
        intro o ho
        have hmem := List.mem_of_mem_tail ho
        exact ⟨Nat.lt_succ_of_lt (hbefore o hmem).1, (hbefore o hmem).2⟩
      · refine ⟨hpairwise, ?_⟩
        intro o ho
        exact ⟨Nat.lt_succ_of_lt (hbefore o ho).1, (hbefore o ho).2⟩

/-! ## Jumps -/

/-- What is left of a text when the scan is plain again, or nothing if it ends before. -/
inductive Skips : Scan → List Char → List Char → Prop where
  | ended (s : Scan) : Skips s [] []
  | plain {s : Scan} {cs : List Char} (h : s.isPlain = true) : Skips s cs cs
  | step {s : Scan} {c : Char} {cs rest : List Char} (h : s.isPlain = false)
      (hrest : Skips (s.step c) cs rest) : Skips s (c :: cs) rest

theorem Skips.tail {s : Scan} {rest : List Char} (h : Skips s (c :: cs) rest)
    (hs : s.isPlain = false) : Skips (s.step c) cs rest := by
  cases h with
  | plain hplain =>
    rw [hs] at hplain
    cases hplain
  | step _ hrest => exact hrest

/-- A jump goes to a position, past positions without plain characters. -/
theorem Skips.exists_position {s : Scan} {ds rest : List Char} (h : Skips s ds rest)
    (hs : scanAt cs i = s) (hds : cs.drop i = ds) :
    ∃ j, i ≤ j ∧ cs.drop j = rest ∧ (∀ k, i ≤ k → k < j → plain? cs k = none) ∧
      (rest = [] ∨ (scanAt cs j).isPlain = true) := by
  induction h generalizing i with
  | ended s => exact ⟨i, Nat.le_refl i, hds, fun k hle hlt => by omega, Or.inl rfl⟩
  | plain hplain =>
    exact ⟨i, Nat.le_refl i, hds, fun k hle hlt => by omega, Or.inr (hs ▸ hplain)⟩
  | step hplain hrest ih =>
    obtain ⟨j, hij, hj, hbetween, hend⟩ :=
      ih (hs ▸ scanAt_succ (getElem?_of_drop hds)) (drop_succ_of_drop hds)
    refine ⟨j, Nat.le_of_succ_le hij, hj, ?_, hend⟩
    intro k hle hlt
    by_cases hk : k = i
    · rw [hk, plain?, hs, hplain]
      rfl
    · exact hbetween k (by omega) hlt

/-- After a backslash, one character is jumped over. -/
theorem skips_escape {s : Scan} (hescaped : s.escaped = true) (hplace : s.place = .outside)
    (cs : List Char) : Skips s cs (cs.drop 1) := by
  have hs : s.isPlain = false := by rw [Scan.isPlain, hescaped]; rfl
  cases cs with
  | nil => exact .ended s
  | cons c rest =>
    refine .step hs (.plain ?_)
    rw [Scan.isPlain_iff, Scan.step, if_pos hescaped]
    exact ⟨rfl, hplace⟩

theorem not_isPlain_of_openClass {s : Scan} (h : s.place ≠ .outside) : s.isPlain = false := by
  rw [Bool.eq_false_iff]
  exact fun hplain => h (Scan.isPlain_iff.1 hplain).2

section Classes

variable {s : Scan} (hescaped : s.escaped = false) (hplace : s.place = .inClass)
include hescaped hplace

theorem step_inClass (hslash : c ≠ '\\') (hclose : c ≠ ']') : s.step c = s := by
  simp [Scan.step, hescaped, hplace, hslash, hclose]

theorem step_inClass_escape : s.step '\\' = { s with escaped := true } := by
  simp [Scan.step, hescaped, hplace]

theorem step_inClass_close : s.step ']' = { s with place := .outside } := by
  simp [Scan.step, hescaped, hplace]

/-- The rest of a class is jumped over. -/
theorem skips_skipClassBody (cs : List Char) : Skips s cs (skipClassBody cs) := by
  have hs : s.isPlain = false := not_isPlain_of_openClass (by rw [hplace]; decide)
  fun_induction skipClassBody cs with
  | case1 => exact .ended s
  | case2 => exact .step hs (.ended _)
  | case3 x rest ih =>
    have hback : (s.step '\\').step x = s := by
      rw [step_inClass_escape hescaped hplace, Scan.step, if_pos rfl, ← hescaped]
    have hescape : (s.step '\\').isPlain = false := by
      rw [step_inClass_escape hescaped hplace]
      rfl
    exact .step hs (.step hescape (hback.symm ▸ ih))
  | case4 rest =>
    refine .step hs (.plain ?_)
    rw [step_inClass_close hescaped hplace, Scan.isPlain_iff]
    exact ⟨hescaped, rfl⟩
  | case5 c rest hslash hclose ih =>
    refine .step hs ?_
    rwa [step_inClass hescaped hplace hslash hclose]

end Classes

/-- A class is skipped from its first character on, once a `^` in front is. A `]` in this place
stands for itself. -/
theorem skips_classStart {s : Scan} (hescaped : s.escaped = false)
    (hplace : s.place = .classStart ∨ s.place = .negatedStart)
    (hhead : s.place = .classStart → cs.head? ≠ some '^') :
    Skips s cs (skipClassBody (dropOne ']' cs)) := by
  have hs : s.isPlain = false := not_isPlain_of_openClass (by rcases hplace with h | h <;> simp [h])
  -- within the class, the first character is taken like every other one
  have hinside : ∀ ds, Skips { s with place := .inClass } ds (skipClassBody ds) :=
    skips_skipClassBody hescaped rfl
  cases cs with
  | nil => exact .ended s
  | cons c rest =>
    have hcaret : s.place = .classStart → c ≠ '^' := fun h hc => hhead h (congrArg some hc)
    refine .step hs ?_
    by_cases hclose : c = ']'
    · have hstep : s.step c = { s with place := .inClass } := by
        rcases hplace with h | h <;> simp [Scan.step, hescaped, h, hclose]
      rw [hstep, dropOne, if_pos hclose]
      exact hinside rest
    · have hstep : s.step c = Scan.step { s with place := .inClass } c := by
        rcases hplace with h | h
        · simp [Scan.step, hescaped, h, hclose, hcaret h]
        · simp [Scan.step, hescaped, h, hclose]
      rw [hstep, dropOne, if_neg hclose]
      exact (hinside (c :: rest)).tail (not_isPlain_of_openClass (by simp))

/-- **What is skipped of a class is what the scan takes for it.** -/
theorem skips_skipClass {s : Scan} (hescaped : s.escaped = false) (hplace : s.place = .classStart)
    (cs : List Char) : Skips s cs (skipClass cs) := by
  unfold skipClass
  cases cs with
  | nil => exact .ended s
  | cons c rest =>
    by_cases hcaret : c = '^'
    · have hs : s.isPlain = false := not_isPlain_of_openClass (by rw [hplace]; decide)
      rw [dropOne, if_pos hcaret]
      refine .step hs (skips_classStart ?_ (Or.inr ?_) ?_)
      · simp [Scan.step, hescaped, hplace, hcaret]
      · simp [Scan.step, hescaped, hplace, hcaret]
      · simp [Scan.step, hescaped, hplace, hcaret]
    · rw [dropOne, if_neg hcaret]
      exact skips_classStart hescaped (Or.inl hplace) fun _ h => hcaret (Option.some.inj h)

end PatternAudit.Pattern
