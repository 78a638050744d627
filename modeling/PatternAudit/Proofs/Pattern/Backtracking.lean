/-
Repeated groups that repeat, against the text of the pattern.

`Risky` says what is looked for by positions in the text: a group, a `*` or `+` behind it, and
a repetition somewhere inside. The search keeps a flag for each open group, and passes it on
when the group closes. Between two plain positions the flags say of each open group whether a
repetition stands between its parenthesis and that of the group opened next in it, or the
position at hand (`framesAt`). So when a group closes, its flag and those passed on to it say
whether there is a repetition anywhere inside.
-/
import PatternAudit.Proofs.Lists
import PatternAudit.Proofs.Pattern.Groups

set_option autoImplicit false

namespace PatternAudit.Pattern

/-! ## What is looked for -/

/-- What a text that goes on with a repetition begins with: `*`, `+`, `{n,}` or `{n,m}`, where
`m` is above one. -/
inductive Repeats : List Char → Prop where
  | star (rest : List Char) : Repeats ('*' :: rest)
  | plus (rest : List Char) : Repeats ('+' :: rest)
  | counted {least most : List Char} (rest : List Char) (hsome : least ≠ [])
      (hleast : ∀ c ∈ least, c.isDigit) (hmost : ∀ c ∈ most, c.isDigit)
      (hmany : most = [] ∨ 1 < Nat.ofDigitChars 10 most 0) :
      Repeats ('{' :: (least ++ ',' :: most ++ '}' :: rest))

/-- What the text of a look-around or atomic group begins with. -/
def assertionMarks : List (List Char) :=
  [['?', '='], ['?', '!'], ['?', '>'], ['?', '<', '='], ['?', '<', '!']]

/-- A group that is repeated and repeats something inside: it is no look-around or atomic group,
`*` or `+` follows, and a repetition stands inside, at any depth. -/
structure RiskyGroup (cs : List Char) (o c : Nat) : Prop where
  group : IsGroup cs o c
  plain : ∀ mark ∈ assertionMarks, ¬ mark <+: cs.drop (o + 1)
  repeated : cs[c + 1]? = some '*' ∨ cs[c + 1]? = some '+'
  inside : ∃ q, o < q ∧ q < c ∧ (∃ x, plain? cs q = some x) ∧ Repeats (cs.drop q)

/-! ## How it is looked for -/

variable {cs : List Char}

theorem isAssertion_iff : isAssertion cs = true ↔ ∃ mark ∈ assertionMarks, mark <+: cs := by
  constructor
  · intro h
    unfold isAssertion at h
    split at h
    · exact ⟨['?', '='], by decide, List.prefix_append _ _⟩
    · exact ⟨['?', '!'], by decide, List.prefix_append _ _⟩
    · exact ⟨['?', '>'], by decide, List.prefix_append _ _⟩
    · exact ⟨['?', '<', '='], by decide, List.prefix_append _ _⟩
    · exact ⟨['?', '<', '!'], by decide, List.prefix_append _ _⟩
    · cases h
  · rintro ⟨mark, hmark, rest, rfl⟩
    simp only [assertionMarks, List.mem_cons, List.not_mem_nil, or_false] at hmark
    rcases hmark with rfl | rfl | rfl | rfl | rfl <;> rfl

theorem startsStarOrPlus_iff :
    startsStarOrPlus cs = true ↔ cs.head? = some '*' ∨ cs.head? = some '+' := by
  constructor
  · intro h
    unfold startsStarOrPlus at h
    split at h
    · exact Or.inl rfl
    · exact Or.inr rfl
    · cases h
  · rintro (h | h)
    · obtain ⟨rest, rfl⟩ := List.head?_eq_some_iff.1 h
      rfl
    · obtain ⟨rest, rfl⟩ := List.head?_eq_some_iff.1 h
      rfl

theorem allDigits_iff : allDigits cs = true ↔ ∀ c ∈ cs, c.isDigit = true := List.all_eq_true

theorem allowsMany_iff :
    allowsMany cs = true ↔ cs = [] ∨ 1 < Nat.ofDigitChars 10 cs 0 := by
  have hfold : cs.foldl (fun n c => n * 10 + (c.toNat - '0'.toNat)) 0 = Nat.ofDigitChars 10 cs 0 := by
    simp only [Nat.ofDigitChars, Nat.mul_comm]
  rw [allowsMany, hfold, Bool.or_eq_true, List.isEmpty_iff, decide_eq_true_iff]

theorem exists_of_dropWhile_ne {x c : Char} {rest : List Char} (h : cs.dropWhile (· ≠ x) = c :: rest) :
    c = x ∧ cs = cs.takeWhile (· ≠ x) ++ x :: rest := by
  have hc : c = x := by
    have hhead := List.head?_dropWhile_not (fun c => decide (c ≠ x)) cs
    rw [h] at hhead
    simpa using hhead
  refine ⟨hc, ?_⟩
  calc cs = cs.takeWhile (· ≠ x) ++ cs.dropWhile (· ≠ x) := List.takeWhile_append_dropWhile.symm
    _ = cs.takeWhile (· ≠ x) ++ x :: rest := by rw [h, hc]

theorem not_mem_of_digits {x : Char} (hx : x.isDigit = false) (h : ∀ c ∈ cs, c.isDigit = true) :
    x ∉ cs := by
  intro hmem
  rw [h x hmem] at hx
  cases hx

/-- A counted repetition is read off from its text. -/
theorem countsMany_of_repeats {least most : List Char} (rest : List Char) (hsome : least ≠ [])
    (hleast : ∀ c ∈ least, c.isDigit = true) (hmost : ∀ c ∈ most, c.isDigit = true)
    (hmany : most = [] ∨ 1 < Nat.ofDigitChars 10 most 0) :
    countsMany (least ++ ',' :: most ++ '}' :: rest) = true := by
  have hinside : '}' ∉ least ++ ',' :: most := by
    rw [List.mem_append, List.mem_cons, not_or, not_or]
    exact ⟨not_mem_of_digits rfl hleast, by decide, not_mem_of_digits rfl hmost⟩
  have hcomma : ',' ∉ least := not_mem_of_digits rfl hleast
  rw [countsMany, (takeWhile_ne_append hinside).1]
  simp only [(takeWhile_ne_append hcomma).1, (takeWhile_ne_append hcomma).2]
  simp [allDigits_iff.2 hleast, allDigits_iff.2 hmost, allowsMany_iff.2 hmany, hsome]

/-- What counts as a repetition has the text of one, or runs to the end of the pattern without a
parenthesis. -/
theorem exists_of_countsMany (h : countsMany cs = true) (hclose : ')' ∈ cs) :
    ∃ least most rest, cs = least ++ ',' :: most ++ '}' :: rest ∧ least ≠ [] ∧
      (∀ c ∈ least, c.isDigit = true) ∧ (∀ c ∈ most, c.isDigit = true) ∧
      (most = [] ∨ 1 < Nat.ofDigitChars 10 most 0) := by
  unfold countsMany at h
  dsimp only at h
  split at h
  · cases h
  · rename_i comma most hmost
    simp only [Bool.and_eq_true, Bool.not_eq_true', List.isEmpty_eq_false_iff, allDigits_iff,
      allowsMany_iff] at h
    obtain ⟨⟨⟨hsome, hleast⟩, hdigits⟩, hmany⟩ := h
    have hinside := (exists_of_dropWhile_ne hmost).2
    generalize (cs.takeWhile (· ≠ '}')).takeWhile (· ≠ ',') = least at hsome hleast hinside
    cases hend : cs.dropWhile (· ≠ '}') with
    | nil =>
      have hall : cs = least ++ ',' :: most := by
        rw [← hinside, ← List.append_nil (cs.takeWhile (· ≠ '}')), ← hend,
          List.takeWhile_append_dropWhile]
      rw [hall, List.mem_append, List.mem_cons] at hclose
      rcases hclose with hmem | hcomma | hmem
      · exact absurd hmem (not_mem_of_digits rfl hleast)
      · cases hcomma
      · exact absurd hmem (not_mem_of_digits rfl hdigits)
    | cons brace rest =>
      refine ⟨least, most, rest, ?_, hsome, hleast, hdigits, hmany⟩
      rw [← hinside]
      exact (exists_of_dropWhile_ne hend).2

/-- In front of a parenthesis, what is taken for a repetition is one. -/
theorem startsRepetition_iff (hclose : ')' ∈ cs) : startsRepetition cs = true ↔ Repeats cs := by
  constructor
  · intro h
    unfold startsRepetition at h
    split at h
    · exact .star _
    · exact .plus _
    · rename_i rest
      have hmem : ')' ∈ rest := by simpa using hclose
      obtain ⟨least, most, behind, rfl, hsome, hleast, hmost, hmany⟩ := exists_of_countsMany h hmem
      exact .counted behind hsome hleast hmost hmany
    · cases h
  · intro h
    cases h with
    | star | plus => rfl
    | counted rest hsome hleast hmost hmany =>
      exact countsMany_of_repeats rest hsome hleast hmost hmany

/-! ## Repetitions by position -/

/-- Whether a repetition stands at a position. -/
def repeatsAt (cs : List Char) (q : Nat) : Bool :=
  (plain? cs q).isSome && startsRepetition (cs.drop q)

/-- Whether a repetition stands behind a position and in front of another one. -/
def repeatsBetween (cs : List Char) (o : Nat) : Nat → Bool
  | 0 => false
  | i + 1 => repeatsBetween cs o i || (decide (o < i) && repeatsAt cs i)

theorem repeatsBetween_iff {o i : Nat} :
    repeatsBetween cs o i = true ↔ ∃ q, o < q ∧ q < i ∧ repeatsAt cs q = true := by
  induction i with
  | zero => simp [repeatsBetween]
  | succ i ih =>
    rw [repeatsBetween, Bool.or_eq_true, ih, Bool.and_eq_true, decide_eq_true_iff]
    constructor
    · rintro (⟨q, ho, hi, hq⟩ | ⟨ho, hq⟩)
      · exact ⟨q, ho, Nat.lt_succ_of_lt hi, hq⟩
      · exact ⟨i, ho, Nat.lt_succ_self i, hq⟩
    · rintro ⟨q, ho, hi, hq⟩
      rcases Nat.lt_succ_iff_lt_or_eq.1 hi with hlt | rfl
      · exact Or.inl ⟨q, ho, hlt, hq⟩
      · exact Or.inr ⟨ho, hq⟩

theorem repeatsBetween_succ_of_not {o i : Nat} (h : repeatsAt cs i = false) :
    repeatsBetween cs o (i + 1) = repeatsBetween cs o i := by
  rw [repeatsBetween, h, Bool.and_false, Bool.or_false]

/-- Where no repetition stands, none is added. -/
theorem repeatsBetween_eq {o i j : Nat} (hij : i ≤ j)
    (h : ∀ k, i ≤ k → k < j → repeatsAt cs k = false) :
    repeatsBetween cs o j = repeatsBetween cs o i := by
  induction hij with
  | refl => rfl
  | step hij ih =>
    rw [repeatsBetween_succ_of_not (h _ hij (Nat.lt_succ_self _))]
    exact ih fun k hk hlt => h k hk (Nat.lt_succ_of_lt hlt)

/-- What stands behind a position stands in front of one in between, at it, or behind it. -/
theorem repeatsBetween_split {o m i : Nat} (hom : o < m) (hmi : m < i)
    (hm : repeatsAt cs m = false) :
    repeatsBetween cs o i = (repeatsBetween cs o m || repeatsBetween cs m i) := by
  rw [Bool.eq_iff_iff, Bool.or_eq_true, repeatsBetween_iff, repeatsBetween_iff, repeatsBetween_iff]
  constructor
  · rintro ⟨q, ho, hi, hq⟩
    rcases Nat.lt_trichotomy q m with hlt | rfl | hgt
    · exact Or.inl ⟨q, ho, hlt, hq⟩
    · rw [hm] at hq
      cases hq
    · exact Or.inr ⟨q, hgt, hi, hq⟩
  · rintro (⟨q, ho, hlt, hq⟩ | ⟨q, hgt, hi, hq⟩)
    · exact ⟨q, ho, Nat.lt_trans hlt hmi, hq⟩
    · exact ⟨q, Nat.lt_trans hom hgt, hi, hq⟩

/-- A group is risky if it is closed, and its frame and what follows say so. -/
theorem riskyGroup_iff {o c : Nat} :
    RiskyGroup cs o c ↔ IsGroup cs o c ∧ isAssertion (cs.drop (o + 1)) = false ∧
      startsStarOrPlus (cs.drop (c + 1)) = true ∧ repeatsBetween cs o c = true := by
  have hassertion : isAssertion (cs.drop (o + 1)) = false ↔
      ∀ mark ∈ assertionMarks, ¬ mark <+: cs.drop (o + 1) := by
    rw [Bool.eq_false_iff, Ne, isAssertion_iff]
    simp
  have hrepeated : startsStarOrPlus (cs.drop (c + 1)) = true ↔
      cs[c + 1]? = some '*' ∨ cs[c + 1]? = some '+' := by
    rw [startsStarOrPlus_iff, List.head?_drop]
  have hinside : plain? cs c = some ')' → (repeatsBetween cs o c = true ↔
      ∃ q, o < q ∧ q < c ∧ (∃ x, plain? cs q = some x) ∧ Repeats (cs.drop q)) := by
    intro hclose
    rw [repeatsBetween_iff]
    refine exists_congr fun q => and_congr_right fun _ => and_congr_right fun hq => ?_
    have hmem : ')' ∈ cs.drop q := by
      refine List.mem_of_getElem? (i := c - q) ?_
      rw [List.getElem?_drop, Nat.add_sub_cancel' (Nat.le_of_lt hq)]
      exact (plain?_eq_some_iff.1 hclose).2
    rw [repeatsAt, Bool.and_eq_true, startsRepetition_iff hmem, Option.isSome_iff_exists]
  constructor
  · intro h
    exact ⟨h.group, hassertion.2 h.plain, hrepeated.2 h.repeated, (hinside h.group.1).2 h.inside⟩
  · rintro ⟨hgroup, hplain, hstar, hbetween⟩
    exact ⟨hgroup, hassertion.1 hplain, hrepeated.1 hstar, (hinside hgroup.1).1 hbetween⟩

/-! ## The search -/

section Equations

variable (stack : List Frame) (rest : List Char)

theorem riskFrom_escape : riskFrom stack ('\\' :: rest) = riskFrom stack (rest.drop 1) := by
  rw [riskFrom.eq_def]
  rfl

theorem riskFrom_class : riskFrom stack ('[' :: rest) = riskFrom stack (skipClass rest) := by
  rw [riskFrom.eq_def]
  rfl

theorem riskFrom_open :
    riskFrom stack ('(' :: rest) = riskFrom (⟨isAssertion rest, false⟩ :: stack) rest := by
  rw [riskFrom.eq_def]
  rfl

theorem riskFrom_close_nil : riskFrom [] (')' :: rest) = riskFrom [] rest := by
  rw [riskFrom.eq_def]
  rfl

theorem riskFrom_close_cons (g : Frame) :
    riskFrom (g :: stack) (')' :: rest) =
      if startsStarOrPlus rest && g.repeats && !g.assertion then true
      else riskFrom (if g.repeats || startsRepetition rest then noteRepetition stack else stack)
        rest := by
  rw [riskFrom.eq_def]
  rfl

theorem riskFrom_other {c : Char} (hescape : c ≠ '\\') (hclass : c ≠ '[') (hopen : c ≠ '(')
    (hclose : c ≠ ')') :
    riskFrom stack (c :: rest)
      = riskFrom (if startsRepetition (c :: rest) then noteRepetition stack else stack) rest := by
  rw [riskFrom.eq_def]
  simp only [if_neg hescape, if_neg hclass, if_neg hopen, if_neg hclose]

end Equations

theorem noteRepetition_noteRepetition (stack : List Frame) :
    noteRepetition (noteRepetition stack) = noteRepetition stack := by
  cases stack <;> rfl

/-- A repetition that is about to be read may as well have been noted. -/
theorem riskFrom_noteRepetition {rest : List Char} (h : startsRepetition rest = true)
    (stack : List Frame) : riskFrom (noteRepetition stack) rest = riskFrom stack rest := by
  have hother : ∀ c ∈ rest.head?, c ≠ '\\' ∧ c ≠ '[' ∧ c ≠ '(' ∧ c ≠ ')' := by
    unfold startsRepetition at h
    split at h
    · rintro c ⟨⟩
      decide
    · rintro c ⟨⟩
      decide
    · rintro c ⟨⟩
      decide
    · cases h
  cases rest with
  | nil => cases h
  | cons c rest =>
    obtain ⟨hescape, hclass, hopen, hclose⟩ := hother c rfl
    rw [riskFrom_other _ _ hescape hclass hopen hclose, riskFrom_other _ _ hescape hclass hopen hclose,
      if_pos h, noteRepetition_noteRepetition]
    rw [if_pos h]

/-- What stands behind a group that closes is noted again when it is read. -/
theorem riskFrom_note_or (inside : Bool) (stack : List Frame) (rest : List Char) :
    riskFrom (if inside || startsRepetition rest then noteRepetition stack else stack) rest
      = riskFrom (if inside then noteRepetition stack else stack) rest := by
  cases inside with
  | true => rfl
  | false =>
    by_cases h : startsRepetition rest = true
    · rw [h]
      exact riskFrom_noteRepetition h stack
    · rw [Bool.false_or, if_neg h]
      rfl

/-! ## The frames of open groups -/

/-- The frames of open groups in front of a position. -/
def framesAt (cs : List Char) (i : Nat) : List Nat → List Frame
  | [] => []
  | o :: outer => ⟨isAssertion (cs.drop (o + 1)), repeatsBetween cs o i⟩ :: framesAt cs o outer

/-- The search from a position on. -/
def searchAt (cs : List Char) (i : Nat) : Bool :=
  riskFrom (framesAt cs i (openGroups cs i)) (cs.drop i)

variable {i j : Nat}

theorem framesAt_of_no_repetition (hij : i ≤ j) (h : ∀ k, i ≤ k → k < j → repeatsAt cs k = false)
    (groups : List Nat) : framesAt cs j groups = framesAt cs i groups := by
  cases groups with
  | nil => rfl
  | cons o outer => rw [framesAt, framesAt, repeatsBetween_eq hij h]

theorem framesAt_of_repetition (h : repeatsAt cs i = true) {groups : List Nat}
    (hbefore : ∀ o ∈ groups, o < i) :
    framesAt cs (i + 1) groups = noteRepetition (framesAt cs i groups) := by
  cases groups with
  | nil => rfl
  | cons o outer =>
    have hoi : o < i := hbefore o List.mem_cons_self
    rw [framesAt, framesAt, noteRepetition, repeatsBetween, h, decide_eq_true hoi, Bool.or_comm]
    rfl

/-- When a group closes, the group around it holds what was in it. -/
theorem framesAt_close {o : Nat} {outer : List Nat} (hgroups : (o :: outer).Pairwise (· > ·))
    (hoi : o < i) (hopen : repeatsAt cs o = false) (hclose : repeatsAt cs i = false) :
    framesAt cs (i + 1) outer
      = if repeatsBetween cs o i then noteRepetition (framesAt cs o outer)
        else framesAt cs o outer := by
  cases outer with
  | nil => cases repeatsBetween cs o i <;> rfl
  | cons o' outer =>
    have ho : o' < o := List.rel_of_pairwise_cons hgroups List.mem_cons_self
    rw [framesAt, framesAt, repeatsBetween_succ_of_not hclose, repeatsBetween_split ho hoi hopen]
    cases repeatsBetween cs o i
    · rw [Bool.or_false]
      rfl
    · rw [Bool.or_true]
      rfl

/-! ## One step of the search -/

/-- A position that the search comes to: the scan is plain there, or it is behind the end. -/
def IsStop (cs : List Char) (i : Nat) : Prop := cs.drop i = [] ∨ (scanAt cs i).isPlain = true

/-- The search goes on to a position, past which it leaves no risky group. -/
structure GoesOn (cs : List Char) (i j : Nat) : Prop where
  lt : i < j
  stop : IsStop cs j
  search : searchAt cs i = searchAt cs j
  none : ∀ o c, i ≤ c → c < j → ¬ RiskyGroup cs o c

variable {rest : List Char} {c : Char}

theorem plain?_of_drop (hplain : (scanAt cs i).isPlain = true) (hdrop : cs.drop i = c :: rest) :
    plain? cs i = some c := plain?_eq_some_iff.2 ⟨hplain, getElem?_of_drop hdrop⟩

theorem repeatsAt_of_drop (hplain : (scanAt cs i).isPlain = true) (hdrop : cs.drop i = c :: rest) :
    repeatsAt cs i = startsRepetition (c :: rest) := by
  rw [repeatsAt, plain?_of_drop hplain hdrop, hdrop, Option.isSome_some, Bool.true_and]

theorem openGroups_eq (hij : i ≤ j)
    (h : ∀ k, i ≤ k → k < j → plain? cs k ≠ some '(' ∧ plain? cs k ≠ some ')') :
    openGroups cs j = openGroups cs i := by
  induction hij with
  | refl => rfl
  | step hij ih =>
    obtain ⟨hopen, hclose⟩ := h _ hij (Nat.lt_succ_self _)
    rw [openGroups, if_neg hopen, if_neg hclose]
    exact ih fun k hk hlt => h k hk (Nat.lt_succ_of_lt hlt)

/-- The search jumps over escapes and classes. -/
theorem goesOn_of_skips (hplain : (scanAt cs i).isPlain = true) (hdrop : cs.drop i = c :: rest)
    (hc : c = '\\' ∨ c = '[') {ds : List Char} (hskips : Skips ((scanAt cs i).step c) rest ds)
    (hsearch : ∀ stack, riskFrom stack (c :: rest) = riskFrom stack ds) : ∃ j, GoesOn cs i j := by
  obtain ⟨j, hij, hj, hbetween, hend⟩ :=
    hskips.exists_position (scanAt_succ (getElem?_of_drop hdrop)) (drop_succ_of_drop hdrop)
  have hhere : plain? cs i = some c := plain?_of_drop hplain hdrop
  have hquiet : ∀ k, i ≤ k → k < j →
      (plain? cs k ≠ some '(' ∧ plain? cs k ≠ some ')') ∧ repeatsAt cs k = false := by
    intro k hik hkj
    rcases Nat.eq_or_lt_of_le hik with rfl | hlt
    · rw [repeatsAt_of_drop hplain hdrop, hhere]
      rcases hc with rfl | rfl
      · exact ⟨by decide, rfl⟩
      · exact ⟨by decide, rfl⟩
    · rw [repeatsAt, hbetween k hlt hkj]
      exact ⟨⟨nofun, nofun⟩, rfl⟩
  have hle : i ≤ j := Nat.le_of_succ_le hij
  refine ⟨j, hij, hend.imp_left fun h => hj.trans h, ?_, ?_⟩
  · rw [searchAt, searchAt, hdrop, hj, openGroups_eq hle fun k hk hlt => (hquiet k hk hlt).1,
      framesAt_of_no_repetition hle fun k hk hlt => (hquiet k hk hlt).2]
    exact hsearch _
  · intro o c hic hcj hrisky
    exact (hquiet c hic hcj).1.2 hrisky.group.1

theorem isPlain_step {s : Scan} (h : s.isPlain = true) (hescape : c ≠ '\\') (hclass : c ≠ '[') :
    (s.step c).isPlain = true := by
  obtain ⟨hescaped, hplace⟩ := Scan.isPlain_iff.1 h
  rw [Scan.isPlain_iff]
  simp only [Scan.step, hescaped, hplace, hescape, hclass, if_false, Bool.false_eq_true]
  split
  · exact ⟨rfl, rfl⟩
  · split
    · split
      · exact ⟨rfl, rfl⟩
      · exact ⟨rfl, rfl⟩
    · exact ⟨hescaped, hplace⟩

section Steps

variable (hplain : (scanAt cs i).isPlain = true) (hdrop : cs.drop i = c :: rest)
include hplain hdrop

theorem isStop_succ (hescape : c ≠ '\\') (hclass : c ≠ '[') : IsStop cs (i + 1) := by
  right
  rw [scanAt_succ (getElem?_of_drop hdrop)]
  exact isPlain_step hplain hescape hclass

/-- No risky group ends where no parenthesis closes. -/
theorem not_riskyGroup (hclose : c ≠ ')') (o k : Nat) (hik : i ≤ k) (hki : k < i + 1) :
    ¬ RiskyGroup cs o k := by
  intro hrisky
  obtain rfl : k = i := by omega
  have hhere := hrisky.group.1
  rw [plain?_of_drop hplain hdrop] at hhere
  exact hclose (Option.some.inj hhere)

theorem goesOn_open (hc : c = '(') : GoesOn cs i (i + 1) := by
  subst hc
  refine ⟨Nat.lt_succ_self i, isStop_succ hplain hdrop (by decide) (by decide), ?_,
    not_riskyGroup hplain hdrop (by decide)⟩
  have hquiet : repeatsAt cs i = false := repeatsAt_of_drop hplain hdrop
  have hnew : repeatsBetween cs i (i + 1) = false := by
    rw [Bool.eq_false_iff, Ne, repeatsBetween_iff]
    rintro ⟨q, hlow, hhigh, -⟩
    omega
  have hgroups : openGroups cs (i + 1) = i :: openGroups cs i := by
    rw [openGroups, if_pos (plain?_of_drop hplain hdrop)]
  rw [searchAt, searchAt, hdrop, riskFrom_open, hgroups, framesAt, hnew, drop_succ_of_drop hdrop]

theorem goesOn_other (hescape : c ≠ '\\') (hclass : c ≠ '[') (hopen : c ≠ '(') (hclose : c ≠ ')') :
    GoesOn cs i (i + 1) := by
  refine ⟨Nat.lt_succ_self i, isStop_succ hplain hdrop hescape hclass, ?_,
    not_riskyGroup hplain hdrop hclose⟩
  have hhere := plain?_of_drop hplain hdrop
  have hgroups : openGroups cs (i + 1) = openGroups cs i := by
    rw [openGroups, hhere, if_neg fun h => hopen (Option.some.inj h),
      if_neg fun h => hclose (Option.some.inj h)]
  rw [searchAt, searchAt, hdrop, riskFrom_other _ _ hescape hclass hopen hclose, hgroups,
    drop_succ_of_drop hdrop, ← repeatsAt_of_drop hplain hdrop]
  by_cases hrepeats : repeatsAt cs i = true
  · rw [if_pos hrepeats, framesAt_of_repetition hrepeats]
    exact fun o ho => ((openGroups_pairwise cs i).2 o ho).1
  · have hquiet : ∀ k, i ≤ k → k < i + 1 → repeatsAt cs k = false := by
      intro k hik hki
      obtain rfl : k = i := by omega
      exact Bool.eq_false_iff.2 hrepeats
    rw [if_neg hrepeats, framesAt_of_no_repetition (Nat.le_succ i) hquiet]

theorem openGroups_close (hc : c = ')') : openGroups cs (i + 1) = (openGroups cs i).tail := by
  subst hc
  rw [openGroups, plain?_of_drop hplain hdrop, if_neg (by decide), if_pos rfl]

/-- A parenthesis that closes no group is passed over. -/
theorem goesOn_close (hc : c = ')') (hopen : openGroups cs i = []) : GoesOn cs i (i + 1) := by
  have hgroups := openGroups_close hplain hdrop hc
  subst hc
  refine ⟨Nat.lt_succ_self i, isStop_succ hplain hdrop (by decide) (by decide), ?_, ?_⟩
  · rw [searchAt, searchAt, hdrop, hgroups, hopen, drop_succ_of_drop hdrop]
    exact riskFrom_close_nil rest
  · intro o k hik hki hrisky
    obtain rfl : k = i := by omega
    have hhead := hrisky.group.2
    rw [hopen] at hhead
    cases hhead

/-- Where a parenthesis closes, a risky group ends, or the search goes on. -/
theorem step_close (hc : c = ')') :
    (searchAt cs i = true ∧ ∃ o, RiskyGroup cs o i) ∨ GoesOn cs i (i + 1) := by
  cases hopen : openGroups cs i with
  | nil => exact Or.inr (goesOn_close hplain hdrop hc hopen)
  | cons o outer =>
    have hgroups := openGroups_close hplain hdrop hc
    subst hc
    have hhere := plain?_of_drop hplain hdrop
    have hrest := drop_succ_of_drop hdrop
    obtain ⟨hpairwise, hbefore⟩ := openGroups_pairwise cs i
    rw [hopen] at hpairwise hbefore
    obtain ⟨hoi, ho⟩ := hbefore o List.mem_cons_self
    have hsearch : searchAt cs i = riskFrom
        (⟨isAssertion (cs.drop (o + 1)), repeatsBetween cs o i⟩ :: framesAt cs o outer)
        (')' :: rest) := by
      rw [searchAt, hopen, hdrop, framesAt]
    have hgroup : IsGroup cs o i := ⟨hhere, by rw [hopen]; rfl⟩
    have hquiet : repeatsAt cs o = false := by
      obtain ⟨hplain', hchar⟩ := plain?_eq_some_iff.1 ho
      exact repeatsAt_of_drop hplain' (drop_of_getElem? hchar)
    rw [riskFrom_close_cons] at hsearch
    by_cases hrisk : (startsStarOrPlus rest && repeatsBetween cs o i
        && !isAssertion (cs.drop (o + 1))) = true
    · left
      rw [if_pos hrisk] at hsearch
      simp only [Bool.and_eq_true, Bool.not_eq_true'] at hrisk
      refine ⟨hsearch, o, riskyGroup_iff.2 ⟨hgroup, hrisk.2, ?_, hrisk.1.2⟩⟩
      rw [hrest]
      exact hrisk.1.1
    · right
      refine ⟨Nat.lt_succ_self i, isStop_succ hplain hdrop (by decide) (by decide), ?_, ?_⟩
      · rw [if_neg hrisk, riskFrom_note_or] at hsearch
        rw [hsearch, searchAt, hgroups, hopen, List.tail_cons, hrest,
          framesAt_close hpairwise hoi hquiet (repeatsAt_of_drop hplain hdrop)]
      · intro o' k hik hki hrisky
        obtain rfl : k = i := by omega
        obtain ⟨hsame, hplain', hstar, hinside⟩ := riskyGroup_iff.1 hrisky
        have hoo : o' = o := by
          have hhead := hsame.2
          rw [hopen] at hhead
          exact (Option.some.inj hhead).symm
        subst hoo
        rw [hrest] at hstar
        exact hrisk (by rw [hstar, hinside, hplain']; rfl)

end Steps

/-- **One step of the search.** At a plain position a risky group ends and the search succeeds,
or the search goes on. -/
theorem searchAt_step (hplain : (scanAt cs i).isPlain = true) (hdrop : cs.drop i = c :: rest) :
    (searchAt cs i = true ∧ ∃ o, RiskyGroup cs o i) ∨ ∃ j, GoesOn cs i j := by
  obtain ⟨hescaped, hplace⟩ := Scan.isPlain_iff.1 hplain
  by_cases hescape : c = '\\'
  · right
    subst hescape
    refine goesOn_of_skips hplain hdrop (Or.inl rfl) (skips_escape ?_ ?_ rest) fun stack =>
      riskFrom_escape stack rest
    · simp [Scan.step, hescaped]
    · simp [Scan.step, hescaped, hplace]
  by_cases hclass : c = '['
  · right
    subst hclass
    refine goesOn_of_skips hplain hdrop (Or.inr rfl) (skips_skipClass ?_ ?_ rest) fun stack =>
      riskFrom_class stack rest
    · simp [Scan.step, hescaped, hplace]
    · simp [Scan.step, hescaped, hplace]
  by_cases hopen : c = '('
  · exact Or.inr ⟨i + 1, goesOn_open hplain hdrop hopen⟩
  by_cases hclose : c = ')'
  · exact (step_close hplain hdrop hclose).imp_right fun h => ⟨i + 1, h⟩
  · exact Or.inr ⟨i + 1, goesOn_other hplain hdrop hescape hclass hopen hclose⟩

/-- **The search from a position on** succeeds exactly if a risky group ends there or behind. -/
theorem searchAt_iff (cs : List Char) (i : Nat) (hstop : IsStop cs i) :
    searchAt cs i = true ↔ ∃ o c, i ≤ c ∧ RiskyGroup cs o c := by
  cases hdrop : cs.drop i with
  | nil =>
    have hend : cs.length ≤ i := List.drop_eq_nil_iff.1 hdrop
    have hfails : searchAt cs i = false := by
      rw [searchAt, hdrop, riskFrom.eq_def]
    rw [hfails]
    refine ⟨nofun, ?_⟩
    rintro ⟨o, c, hic, hrisky⟩
    have hclose := (plain?_eq_some_iff.1 hrisky.group.1).2
    rw [List.getElem?_eq_none (Nat.le_trans hend hic)] at hclose
    cases hclose
  | cons c rest =>
    have hplain : (scanAt cs i).isPlain = true := by
      refine hstop.resolve_left fun hend => ?_
      rw [hend] at hdrop
      cases hdrop
    rcases searchAt_step hplain hdrop with ⟨hfound, o, hrisky⟩ | ⟨j, hgoes⟩
    · exact ⟨fun _ => ⟨o, i, Nat.le_refl i, hrisky⟩, fun _ => hfound⟩
    · rw [hgoes.search, searchAt_iff cs j hgoes.stop]
      constructor
      · rintro ⟨o, k, hjk, hrisky⟩
        exact ⟨o, k, Nat.le_trans (Nat.le_of_lt hgoes.lt) hjk, hrisky⟩
      · rintro ⟨o, k, hik, hrisky⟩
        refine ⟨o, k, Nat.le_of_not_lt fun hkj => ?_, hrisky⟩
        exact hgoes.none o k hik hkj hrisky
termination_by cs.length - i
decreasing_by
  have hlt : i < cs.length := by
    rw [← Nat.not_le, ← List.drop_eq_nil_iff, hdrop]
    exact List.cons_ne_nil c rest
  have := hgoes.lt
  omega

/-- **What is looked for is found, and nothing else.** A pattern is reported exactly if it has a
group, which is neither look-around nor atomic, that `*` or `+` follows and that holds a
repetition: a plain `*`, `+`, `{n,}` or `{n,m}` with `m` above one, at any depth. -/
theorem hasBacktrackingRisk_iff (pattern : String) :
    hasBacktrackingRisk pattern = true ↔ ∃ o c, RiskyGroup pattern.toList o c := by
  have hstart : hasBacktrackingRisk pattern = searchAt pattern.toList 0 := rfl
  have hall := searchAt_iff pattern.toList 0 (Or.inr rfl)
  simpa only [hstart, Nat.zero_le, true_and] using hall

end PatternAudit.Pattern
