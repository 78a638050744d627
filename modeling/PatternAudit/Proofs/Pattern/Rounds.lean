/-
The search for repeated groups, against the scan for delimiters.

The scan takes one character after the other and carries flags for escapes and classes. The
search goes in rounds (`round`): a round takes a character, an escape of two or a whole class,
and the search stands in front of what is left (`Comes`). It never stands in front of a character
that the scan takes for an escaped one, or for one inside a class, and it passes over no other
character. So the two see the same parentheses, and hold the same groups open.

A class is left by the scan where its state changes, and skipped by the search in one go. Both
end behind the same bracket (`skipClass_of_leaves`), or with the pattern.
-/
import Mathlib.Logic.Relation
import PatternAudit.Proofs.Pattern.Backtracking

set_option autoImplicit false

namespace PatternAudit.Pattern

/-! ## Rounds -/

/-- What a round of the search comes to. -/
inductive Round where
  /-- nothing was left -/
  | ended
  /-- a group that is repeated and repeats -/
  | found
  /-- the groups that are open now, and what is left -/
  | goesOn (stack : List Frame) (rest : List Char)

/-- A round of the search, with the open groups at hand. -/
def round (stack : List Frame) : List Char → Round
  | [] => .ended
  | c :: rest =>
    if c = '\\' then .goesOn stack (rest.drop 1)
    else if c = '[' then .goesOn stack (skipClass rest)
    else if c = '(' then .goesOn (⟨isAssertion rest, false⟩ :: stack) rest
    else if c = ')' then
      match stack with
      | [] => .goesOn [] rest
      | g :: outer =>
        if startsStarOrPlus rest && g.repeats && !g.assertion then .found
        else
          .goesOn (if g.repeats || startsRepetition rest then noteRepetition outer else outer) rest
    else .goesOn (if startsRepetition (c :: rest) then noteRepetition stack else stack) rest

/-- **The search is made of its rounds.** -/
theorem riskFrom_eq_round (stack : List Frame) (cs : List Char) :
    riskFrom stack cs =
      match round stack cs with
      | .ended => false
      | .found => true
      | .goesOn stack' rest => riskFrom stack' rest := by
  cases cs with
  | nil => rw [riskFrom.eq_def, round.eq_def]
  | cons c rest =>
    rw [riskFrom.eq_def, round.eq_def]
    dsimp only
    by_cases hescape : c = '\\'
    · rw [if_pos hescape, if_pos hescape]
    by_cases hclass : c = '['
    · rw [if_neg hescape, if_neg hescape, if_pos hclass, if_pos hclass]
    by_cases hopen : c = '('
    · rw [if_neg hescape, if_neg hescape, if_neg hclass, if_neg hclass, if_pos hopen, if_pos hopen]
    by_cases hclose : c = ')'
    · rw [if_neg hescape, if_neg hescape, if_neg hclass, if_neg hclass, if_neg hopen, if_neg hopen,
        if_pos hclose, if_pos hclose]
      cases stack with
      | nil => rfl
      | cons g outer =>
        dsimp only
        split
        · rfl
        · rfl
    · rw [if_neg hescape, if_neg hescape, if_neg hclass, if_neg hclass, if_neg hopen, if_neg hopen,
        if_neg hclose, if_neg hclose]

/-- A state of the search leads to the next one. -/
def LeadsTo (s t : List Frame × List Char) : Prop := round s.1 s.2 = .goesOn t.1 t.2

/-- Whether the search in a text comes to a state: some open groups, and what is left of the
text. -/
def Comes (cs : List Char) (stack : List Frame) (rest : List Char) : Prop :=
  Relation.ReflTransGen LeadsTo ([], cs) (stack, rest)

/-- Whether the search in a text ends at a position, because a group is found there. -/
def FindsAt (cs : List Char) (i : Nat) : Prop :=
  ∃ stack, Comes cs stack (cs.drop i) ∧ round stack (cs.drop i) = .found

/-- What is left of a text, behind its first character, when that has been dealt with. -/
def behind (c : Char) (rest : List Char) : List Char :=
  if c = '\\' then rest.drop 1 else if c = '[' then skipClass rest else rest

/-- How many groups are open behind a character. -/
def depth (c : Char) (n : Nat) : Nat := if c = '(' then n + 1 else if c = ')' then n - 1 else n

theorem length_noteRepetition (stack : List Frame) :
    (noteRepetition stack).length = stack.length := by
  cases stack <;> rfl

/-- **All that a round can do.** -/
theorem round_cons (stack : List Frame) (c : Char) (rest : List Char) :
    (c = ')' ∧ round stack (c :: rest) = .found) ∨
      ∃ stack', round stack (c :: rest) = .goesOn stack' (behind c rest) ∧
        stack'.length = depth c stack.length := by
  have hnoted : ∀ (b : Bool) (groups : List Frame),
      (if b then noteRepetition groups else groups).length = groups.length := by
    intro b groups
    cases b with
    | false => rfl
    | true => exact length_noteRepetition groups
  by_cases hescape : c = '\\'
  · subst hescape
    exact Or.inr ⟨stack, rfl, rfl⟩
  by_cases hclass : c = '['
  · subst hclass
    exact Or.inr ⟨stack, rfl, rfl⟩
  have hbehind : behind c rest = rest := by rw [behind, if_neg hescape, if_neg hclass]
  rw [hbehind, round.eq_def]
  dsimp only
  rw [if_neg hescape, if_neg hclass]
  by_cases hopen : c = '('
  · subst hopen
    exact Or.inr ⟨_, rfl, rfl⟩
  rw [if_neg hopen]
  by_cases hclose : c = ')'
  · subst hclose
    cases stack with
    | nil => exact Or.inr ⟨[], rfl, rfl⟩
    | cons g outer =>
      rw [if_pos rfl]
      dsimp only
      split
      · exact Or.inl ⟨rfl, rfl⟩
      · exact Or.inr ⟨_, rfl, hnoted _ _⟩
  · rw [if_neg hclose]
    refine Or.inr ⟨_, rfl, ?_⟩
    rw [hnoted, depth, if_neg hopen, if_neg hclose]

/-! ## What the scan counts -/

/-- The scan counts parentheses that are plain, and nothing else. -/
theorem unclosed_step (s : Scan) (c : Char) :
    (s.step c).unclosed = if s.isPlain then depth c s.unclosed else s.unclosed := by
  obtain ⟨place, escaped, unclosed, stray⟩ := s
  cases escaped with
  | true => rfl
  | false =>
    by_cases hslash : c = '\\'
    · subst hslash
      cases place <;> rfl
    cases place with
    | outside =>
      by_cases hclass : c = '['
      · subst hclass
        rfl
      by_cases hopen : c = '('
      · subst hopen
        rfl
      by_cases hclose : c = ')'
      · subst hclose
        cases unclosed <;> rfl
      · simp [Scan.step, Scan.isPlain, Scan.openClass, depth, hslash, hclass, hopen, hclose]
    | classStart => simp [Scan.step, Scan.isPlain, Scan.openClass, hslash]
    | negatedStart => simp [Scan.step, Scan.isPlain, Scan.openClass, hslash]
    | inClass =>
      by_cases hclose : c = ']'
      · simp [Scan.step, Scan.isPlain, Scan.openClass, hclose]
      · simp [Scan.step, Scan.isPlain, Scan.openClass, hslash, hclose]

variable {cs : List Char} {i : Nat}

/-- Behind the end the scan stays as it is. -/
theorem scanAt_succ_of_none (h : cs[i]? = none) : scanAt cs (i + 1) = scanAt cs i := by
  have hend : cs.length ≤ i := List.getElem?_eq_none_iff.1 h
  rw [scanAt, scanAt, List.take_of_length_le hend, List.take_of_length_le (by omega)]

theorem length_openGroups_succ {c : Char} (h : plain? cs i = some c) :
    (openGroups cs (i + 1)).length = depth c (openGroups cs i).length := by
  rw [openGroups, h, depth]
  by_cases hopen : c = '('
  · rw [if_pos (congrArg some hopen), if_pos hopen, List.length_cons]
  rw [if_neg fun heq => hopen (Option.some.inj heq), if_neg hopen]
  by_cases hclose : c = ')'
  · rw [if_pos (congrArg some hclose), if_pos hclose, List.length_tail]
  · rw [if_neg fun heq => hclose (Option.some.inj heq), if_neg hclose]

/-- **The scan counts the groups that are open.** -/
theorem length_openGroups (cs : List Char) (i : Nat) :
    (openGroups cs i).length = (scanAt cs i).unclosed := by
  induction i with
  | zero => rfl
  | succ i ih =>
    cases hplain : plain? cs i with
    | some c =>
      obtain ⟨hscan, hchar⟩ := plain?_eq_some_iff.1 hplain
      rw [length_openGroups_succ hplain, scanAt_succ hchar, unclosed_step, if_pos hscan, ih]
    | none =>
      have hsame : openGroups cs (i + 1) = openGroups cs i := by
        rw [openGroups, hplain, if_neg (by simp), if_neg (by simp)]
      rw [hsame, ih]
      cases hchar : cs[i]? with
      | none => rw [scanAt_succ_of_none hchar]
      | some c =>
        have hscan : ¬ (scanAt cs i).isPlain = true := by
          intro hscan
          rw [plain?_eq_some_iff.2 ⟨hscan, hchar⟩] at hplain
          cases hplain
        rw [scanAt_succ hchar, unclosed_step, if_neg hscan]

/-! ## Where the search stands -/

/-- From a plain position a round leads to the next one, or to the end. -/
theorem exists_stop_behind {c : Char} {rest : List Char} (hplain : (scanAt cs i).isPlain = true)
    (hdrop : cs.drop i = c :: rest) :
    ∃ j, i < j ∧ j ≤ cs.length ∧ cs.drop j = behind c rest ∧ IsStop cs j ∧
      ∀ k, i < k → k < j → plain? cs k = none := by
  obtain ⟨hescaped, hplace⟩ := Scan.isPlain_iff.1 hplain
  have hlt : i < cs.length := (List.getElem?_eq_some_iff.1 (getElem?_of_drop hdrop)).1
  -- a jump may end at any position behind the end; the end itself is as good
  have hjump : Skips ((scanAt cs i).step c) rest (behind c rest) →
      ∃ j, i < j ∧ j ≤ cs.length ∧ cs.drop j = behind c rest ∧ IsStop cs j ∧
        ∀ k, i < k → k < j → plain? cs k = none := by
    intro hskips
    obtain ⟨j, hij, hj, hbetween, hend⟩ :=
      hskips.exists_position (scanAt_succ (getElem?_of_drop hdrop)) (drop_succ_of_drop hdrop)
    by_cases hle : j ≤ cs.length
    · exact ⟨j, hij, hle, hj, hend.imp_left fun h => hj.trans h, fun k hik hkj =>
        hbetween k hik hkj⟩
    · have hnone : cs.drop j = cs.drop cs.length := by
        rw [List.drop_length, List.drop_eq_nil_of_le (by omega)]
      refine ⟨cs.length, hlt, Nat.le_refl _, hnone ▸ hj, Or.inl List.drop_length, ?_⟩
      intro k hik hkj
      exact hbetween k hik (by omega)
  by_cases hescape : c = '\\'
  · subst hescape
    apply hjump
    apply skips_escape
    · simp [Scan.step, hescaped]
    · simp [Scan.step, hescaped, hplace]
  by_cases hclass : c = '['
  · subst hclass
    apply hjump
    apply skips_skipClass
    · simp [Scan.step, hescaped, hplace]
    · simp [Scan.step, hescaped, hplace]
  · have hbehind : behind c rest = rest := by rw [behind, if_neg hescape, if_neg hclass]
    refine ⟨i + 1, Nat.lt_succ_self i, hlt, ?_, isStop_succ hplain hdrop hescape hclass, ?_⟩
    · rw [hbehind, drop_succ_of_drop hdrop]
    · intro k hik hki
      omega

/-- Where the search may stand: at a position that is plain, or at the end, with as many frames
as groups are open. -/
structure Stands (cs : List Char) (stack : List Frame) (i : Nat) : Prop where
  le : i ≤ cs.length
  stop : IsStop cs i
  length : stack.length = (openGroups cs i).length

/-- Where the search stands in front of a character, the character is plain. -/
theorem Stands.isPlain {stack : List Frame} (h : Stands cs stack i) (hi : i < cs.length) :
    ∃ c rest, cs.drop i = c :: rest ∧ (scanAt cs i).isPlain = true := by
  have hdrop := List.drop_eq_getElem_cons hi
  refine ⟨_, _, hdrop, h.stop.resolve_left fun hnil => ?_⟩
  rw [hnil] at hdrop
  cases hdrop

/-- **A step of the search.** In front of a character the search succeeds, if this is a closing
parenthesis, or goes on to the next position that is plain, or to the end. -/
theorem Stands.step {stack : List Frame} (h : Stands cs stack i) (hi : i < cs.length) :
    (cs[i]? = some ')' ∧ round stack (cs.drop i) = .found) ∨
      ∃ stack' j, round stack (cs.drop i) = .goesOn stack' (cs.drop j) ∧ i < j ∧
        Stands cs stack' j ∧ ∀ k, i < k → k < j → plain? cs k = none := by
  obtain ⟨c, rest, hdrop, hplain⟩ := h.isPlain hi
  have hhere : plain? cs i = some c := plain?_of_drop hplain hdrop
  rw [hdrop]
  rcases round_cons stack c rest with ⟨hc, hfound⟩ | ⟨stack', hround, hlength⟩
  · exact Or.inl ⟨hc ▸ getElem?_of_drop hdrop, hfound⟩
  · obtain ⟨j, hij, hj, hbehind, hstop, hbetween⟩ := exists_stop_behind hplain hdrop
    have hgroups : openGroups cs j = openGroups cs (i + 1) := by
      refine openGroups_eq hij fun k hik hkj => ?_
      rw [hbetween k hik hkj]
      exact ⟨nofun, nofun⟩
    refine Or.inr ⟨stack', j, ?_, hij, ⟨hj, hstop, ?_⟩, hbetween⟩
    · rw [hround, hbehind]
    · rw [hlength, hgroups, length_openGroups_succ hhere, h.length]

/-- What is left of a text tells the position. -/
theorem eq_of_drop_eq {i j : Nat} (hi : i ≤ cs.length) (hj : j ≤ cs.length)
    (h : cs.drop i = cs.drop j) : i = j := by
  have hlength := congrArg List.length h
  rw [List.length_drop, List.length_drop] at hlength
  omega

/-- **From where the search may stand, it leads on to where it may stand.** -/
theorem Stands.leads {stack : List Frame} (h : Stands cs stack i) {t : List Frame × List Char}
    (ht : Relation.ReflTransGen LeadsTo (stack, cs.drop i) t) :
    ∃ j, i ≤ j ∧ cs.drop j = t.2 ∧ Stands cs t.1 j := by
  induction ht with
  | refl => exact ⟨i, Nat.le_refl i, rfl, h⟩
  | @tail s t _ hround ih =>
    obtain ⟨k, hik, hk, hstands⟩ := ih
    rw [LeadsTo, ← hk] at hround
    rcases Nat.lt_or_ge k cs.length with hlt | hge
    · rcases hstands.step hlt with ⟨-, hfound⟩ | ⟨stack', j, hgoes, hkj, hnext, -⟩
      · rw [hfound] at hround
        cases hround
      · rw [hgoes] at hround
        obtain ⟨hstack, hrest⟩ := Round.goesOn.inj hround
        exact ⟨j, by omega, hrest, hstack ▸ hnext⟩
    · -- nothing is left there, and no round goes on
      rw [List.drop_eq_nil_of_le hge] at hround
      cases hround

theorem stands_start (cs : List Char) : Stands cs [] 0 := ⟨Nat.zero_le _, Or.inr rfl, rfl⟩

theorem Comes.stands {stack : List Frame} {rest : List Char} (h : Comes cs stack rest) :
    ∃ i, cs.drop i = rest ∧ Stands cs stack i := by
  obtain ⟨i, -, hi, hstands⟩ := (stands_start cs).leads h
  exact ⟨i, hi, hstands⟩

/-- What the search comes to is as risky as the whole. -/
theorem Comes.riskFrom_eq {stack : List Frame} {rest : List Char} (h : Comes cs stack rest) :
    riskFrom [] cs = riskFrom stack rest := by
  have hall : ∀ t, Relation.ReflTransGen LeadsTo ([], cs) t →
      riskFrom [] cs = riskFrom t.1 t.2 := by
    intro t ht
    induction ht with
    | refl => rfl
    | @tail s t _ hround ih => rw [ih, riskFrom_eq_round, show round s.1 s.2 = _ from hround]
  exact hall (stack, rest) h

/-- A plain position is come to from every position before it, unless the search ends before. -/
theorem exists_comes_of_plain {k : Nat} {c : Char} (hk : plain? cs k = some c)
    (hsilent : ∀ r < k, ¬ FindsAt cs r) {stack : List Frame} {i : Nat} (hik : i ≤ k)
    (hcomes : Comes cs stack (cs.drop i)) (hstands : Stands cs stack i) :
    ∃ stack', Comes cs stack' (cs.drop k) := by
  rcases Nat.eq_or_lt_of_le hik with rfl | hlt
  · exact ⟨stack, hcomes⟩
  have hlength : k < cs.length := (List.getElem?_eq_some_iff.1 (plain?_eq_some_iff.1 hk).2).1
  rcases hstands.step (Nat.lt_trans hlt hlength) with
    ⟨-, hfound⟩ | ⟨stack', j, hgoes, hij, hnext, hbetween⟩
  · exact absurd ⟨stack, hcomes, hfound⟩ (hsilent i hlt)
  · -- the position is not among those that the round jumps over
    have hjk : j ≤ k := by
      apply Nat.le_of_not_lt
      intro hkj
      rw [hbetween k hlt hkj] at hk
      cases hk
    exact exists_comes_of_plain hk hsilent hjk (hcomes.tail hgoes) hnext
termination_by k - i

/-- **The search ends with what it finds, or comes to the end.** -/
theorem exists_end {stack : List Frame} {i : Nat} (hcomes : Comes cs stack (cs.drop i))
    (hstands : Stands cs stack i) : (∃ r, FindsAt cs r) ∨ ∃ stack', Comes cs stack' [] := by
  rcases Nat.lt_or_ge i cs.length with hlt | hge
  · rcases hstands.step hlt with ⟨-, hfound⟩ | ⟨stack', j, hgoes, hij, hnext, -⟩
    · exact Or.inl ⟨i, stack, hcomes, hfound⟩
    · exact exists_end (hcomes.tail hgoes) hnext
  · rw [List.drop_eq_nil_of_le hge] at hcomes
    exact Or.inr ⟨stack, hcomes⟩
termination_by cs.length - i

/-- Behind the position where it ends, the search comes to none. -/
theorem not_findsAt_of_comes {stack : List Frame} {k r : Nat} (hk : k < cs.length)
    (hcomes : Comes cs stack (cs.drop k)) (hr : r < k) : ¬ FindsAt cs r := by
  rintro ⟨stack', hcomes', hfound⟩
  have hunique : Relator.RightUnique LeadsTo := by
    intro s t u ht hu
    rw [LeadsTo] at ht hu
    rw [ht] at hu
    obtain ⟨hstack, hrest⟩ := Round.goesOn.inj hu
    exact Prod.ext hstack hrest
  obtain ⟨i, hi, hstands⟩ := hcomes.stands
  have hik : i = k := eq_of_drop_eq hstands.le (Nat.le_of_lt hk) hi
  -- of two states that the search comes to, one leads to the other
  rcases Relation.ReflTransGen.total_of_right_unique hunique hcomes' hcomes with hforth | hback
  · rcases Relation.ReflTransGen.cases_head hforth with heq | ⟨next, hround, -⟩
    · have hsame := eq_of_drop_eq (by omega) (by omega) (Prod.mk.inj heq).2
      omega
    · rw [LeadsTo, hfound] at hround
      cases hround
  · rw [← hik] at hback
    obtain ⟨j, hij, hj, hstands'⟩ := hstands.leads hback
    have hsame := eq_of_drop_eq hstands'.le (by omega) hj
    omega

/-! ## Classes -/

/-- A class that begins at one position is left at another one: behind every character from the
one up to the other, that one excepted, the scan is inside a class. -/
structure LeavesClass (cs : List Char) (i l : Nat) : Prop where
  lt : i < l
  inside : ∀ k, i < k → k ≤ l → (scanAt cs k).openClass = true
  leaves : (scanAt cs (l + 1)).openClass = false

/-- A class is left by an unescaped bracket. -/
theorem of_step_leaves {s : Scan} {c : Char} (hs : s.openClass = true)
    (h : (s.step c).openClass = false) : c = ']' ∧ (s.step c).isPlain = true := by
  obtain ⟨place, escaped, unclosed, stray⟩ := s
  cases escaped with
  | true =>
    -- an escaped character leaves the place
    rw [show (Scan.step ⟨place, true, unclosed, stray⟩ c).openClass = true from hs] at h
    cases h
  | false =>
    by_cases hslash : c = '\\'
    · subst hslash
      cases place <;> cases hs <;> cases h
    cases place with
    | outside => cases hs
    | classStart =>
      by_cases hcaret : c = '^'
      · simp [Scan.step, Scan.openClass, hcaret] at h
      · simp [Scan.step, Scan.openClass, hslash, hcaret] at h
    | negatedStart => simp [Scan.step, Scan.openClass, hslash] at h
    | inClass =>
      by_cases hclose : c = ']'
      · subst hclose
        exact ⟨rfl, rfl⟩
      · simp [Scan.step, Scan.openClass, hslash, hclose] at h

theorem LeavesClass.bracket {l : Nat} (h : LeavesClass cs i l) :
    cs[l]? = some ']' ∧ (scanAt cs (l + 1)).isPlain = true := by
  have hinside := h.inside l h.lt (Nat.le_refl l)
  have hleaves := h.leaves
  cases hchar : cs[l]? with
  | none =>
    rw [scanAt_succ_of_none hchar, hinside] at hleaves
    cases hleaves
  | some c =>
    rw [scanAt_succ hchar] at hleaves ⊢
    obtain ⟨rfl, hplain⟩ := of_step_leaves hinside hleaves
    exact ⟨rfl, hplain⟩

section Skipped

variable (hopen : plain? cs i = some '[')
include hopen

/-- A plain bracket opens a class. -/
theorem openClass_scanAt_succ : (scanAt cs (i + 1)).openClass = true := by
  obtain ⟨hplain, hchar⟩ := plain?_eq_some_iff.1 hopen
  obtain ⟨hescaped, hplace⟩ := Scan.isPlain_iff.1 hplain
  rw [scanAt_succ hchar]
  simp [Scan.step, Scan.openClass, hescaped, hplace]

theorem exists_stop_behind_class :
    ∃ j, i < j ∧ j ≤ cs.length ∧ cs.drop j = skipClass (cs.drop (i + 1)) ∧ IsStop cs j ∧
      ∀ k, i < k → k < j → plain? cs k = none := by
  obtain ⟨hplain, hchar⟩ := plain?_eq_some_iff.1 hopen
  exact exists_stop_behind hplain (drop_of_getElem? hchar)

/-- **A class is skipped up to where the scan leaves it.** -/
theorem skipClass_of_leaves {l : Nat} (h : LeavesClass cs i l) :
    skipClass (cs.drop (i + 1)) = cs.drop (l + 1) := by
  obtain ⟨hbracket, hplain⟩ := h.bracket
  have hl : l < cs.length := (List.getElem?_eq_some_iff.1 hbracket).1
  obtain ⟨j, hij, hj, hskipped, hstop, hbetween⟩ := exists_stop_behind_class hopen
  -- inside the class is no stop
  have hlj : l < j := by
    apply Nat.lt_of_not_le
    intro hjl
    rcases hstop with hnil | hplain'
    · have hend : cs.length ≤ j := List.drop_eq_nil_iff.1 hnil
      omega
    · rw [Scan.isPlain, h.inside j hij hjl, Bool.not_true, Bool.and_false] at hplain'
      cases hplain'
  rcases Nat.eq_or_lt_of_le hlj with heq | hlt
  · rw [← hskipped, ← heq]
  · -- and the position behind its bracket is plain, so it is not passed over
    have hnone := hbetween (l + 1) (by have := h.lt; omega) hlt
    rw [plain?, hplain, if_pos rfl, List.getElem?_eq_none_iff] at hnone
    omega

/-- **A class that the scan never leaves is skipped with all that follows.** -/
theorem skipClass_of_never_left (h : ∀ l, ¬ LeavesClass cs i l) :
    skipClass (cs.drop (i + 1)) = [] := by
  have hinside : ∀ n k, i < k → k ≤ n → (scanAt cs k).openClass = true := by
    intro n
    induction n with
    | zero =>
      intro k hik hk
      omega
    | succ n ih =>
      intro k hik hk
      rcases Nat.lt_or_ge n k with hnk | hkn
      · obtain rfl : k = n + 1 := by omega
        by_cases hfirst : i = n
        · rw [← hfirst]
          exact openClass_scanAt_succ hopen
        · rw [← Bool.not_eq_false]
          intro hleaves
          exact h n ⟨by omega, ih, hleaves⟩
      · exact ih k hik hkn
  obtain ⟨j, hij, -, hskipped, hstop, -⟩ := exists_stop_behind_class hopen
  rw [← hskipped]
  refine hstop.resolve_right fun hplain => ?_
  rw [Scan.isPlain, hinside j j hij (Nat.le_refl j), Bool.not_true, Bool.and_false] at hplain
  cases hplain

end Skipped

/-! ## Agreement -/

/-- The search stands in front of the parentheses that the scan counts, up to the position where
it ends. -/
theorem comes_to_parenthesis_iff {k : Nat} {c : Char} :
    ((∃ stack, Comes cs stack (cs.drop k)) ∧ cs[k]? = some c ∧ (c = '(' ∨ c = ')')) ↔
      (plain? cs k = some c ∧ (c = '(' ∨ c = ')')) ∧ ∀ r < k, ¬ FindsAt cs r := by
  constructor
  · rintro ⟨⟨stack, hcomes⟩, hchar, hc⟩
    have hk : k < cs.length := (List.getElem?_eq_some_iff.1 hchar).1
    obtain ⟨i, hi, hstands⟩ := hcomes.stands
    obtain rfl : i = k := eq_of_drop_eq hstands.le (Nat.le_of_lt hk) hi
    obtain ⟨-, -, -, hplain⟩ := hstands.isPlain hk
    refine ⟨⟨plain?_eq_some_iff.2 ⟨hplain, hchar⟩, hc⟩, ?_⟩
    intro r hr
    exact not_findsAt_of_comes hk hcomes hr
  · rintro ⟨⟨hplain, hc⟩, hsilent⟩
    have hstart : Comes cs [] (cs.drop 0) := Relation.ReflTransGen.refl
    refine ⟨?_, (plain?_eq_some_iff.1 hplain).2, hc⟩
    exact exists_comes_of_plain hplain hsilent (Nat.zero_le k) hstart (stands_start cs)

/-- The search ends with a find, or it comes to the end of the text. -/
theorem riskFrom_iff_ends (cs : List Char) :
    (riskFrom [] cs = true ↔ ∃ r, FindsAt cs r) ∧
      (riskFrom [] cs = false ↔ ∃ stack, Comes cs stack []) := by
  have hfinds : ∀ r, FindsAt cs r → riskFrom [] cs = true := by
    rintro r ⟨stack, hcomes, hfound⟩
    rw [hcomes.riskFrom_eq, riskFrom_eq_round, hfound]
  have hruns : ∀ stack, Comes cs stack [] → riskFrom [] cs = false := by
    intro stack hcomes
    rw [hcomes.riskFrom_eq, riskFrom.eq_def]
  have hstart : Comes cs [] (cs.drop 0) := Relation.ReflTransGen.refl
  have hends := exists_end hstart (stands_start cs)
  constructor
  · refine ⟨fun h => hends.resolve_right ?_, fun ⟨r, hr⟩ => hfinds r hr⟩
    rintro ⟨stack, hcomes⟩
    rw [hruns stack hcomes] at h
    cases h
  · refine ⟨fun h => hends.resolve_left ?_, fun ⟨stack, hstack⟩ => hruns stack hstack⟩
    rintro ⟨r, hr⟩
    rw [hfinds r hr] at h
    cases h

/-- At the end of a text as many groups are open as the scan has counted. -/
theorem length_of_comes_nil {stack : List Frame} (h : Comes cs stack []) :
    stack.length = (Scan.start.run cs).unclosed := by
  obtain ⟨i, hi, hstands⟩ := h.stands
  have hend : cs.length ≤ i := List.drop_eq_nil_iff.1 hi
  rw [hstands.length, length_openGroups, scanAt, List.take_of_length_le hend]

/-- **The search and the scan read a pattern alike.** The search stands in front of exactly the
parentheses that the scan counts, up to the one where it ends if it finds something. What it
skips of a class ends behind the bracket at which the scan leaves the class, and with the pattern
if the scan never leaves it. If the search comes to the end of the pattern, the groups that are
open there are as many as the scan has counted. -/
theorem search_agrees_with_scan (pattern : String) :
    (hasBacktrackingRisk pattern = true ↔ ∃ r, FindsAt pattern.toList r) ∧
    (hasBacktrackingRisk pattern = false ↔ ∃ stack, Comes pattern.toList stack []) ∧
    (∀ k c, ((∃ stack, Comes pattern.toList stack (pattern.toList.drop k)) ∧
        pattern.toList[k]? = some c ∧ (c = '(' ∨ c = ')')) ↔
      (plain? pattern.toList k = some c ∧ (c = '(' ∨ c = ')')) ∧
        ∀ r < k, ¬ FindsAt pattern.toList r) ∧
    (∀ i, plain? pattern.toList i = some '[' →
      (∀ l, LeavesClass pattern.toList i l → pattern.toList[l]? = some ']' ∧
        skipClass (pattern.toList.drop (i + 1)) = pattern.toList.drop (l + 1)) ∧
      ((∀ l, ¬ LeavesClass pattern.toList i l) →
        skipClass (pattern.toList.drop (i + 1)) = [])) ∧
    ∀ stack, Comes pattern.toList stack [] → stack.length = (scan pattern).unclosed := by
  obtain ⟨hfinds, hruns⟩ := riskFrom_iff_ends pattern.toList
  refine ⟨hfinds, hruns, fun k c => comes_to_parenthesis_iff, ?_, ?_⟩
  · intro i hopen
    refine ⟨?_, skipClass_of_never_left hopen⟩
    intro l hleaves
    exact ⟨hleaves.bracket.1, skipClass_of_leaves hopen hleaves⟩
  · intro stack hcomes
    exact length_of_comes_nil hcomes

/-- A class that begins with a bracket and holds a parenthesis, between two groups that stay
open, in front of a backslash that escapes nothing; and a class that is never left. -/
theorem oddClasses_agree :
    (plain? "([^])](\\".toList 1 = some '[' ∧ LeavesClass "([^])](\\".toList 1 5 ∧
      skipClass "^])](\\".toList = "(\\".toList) ∧
    (∃ stack, Comes "([^])](\\".toList stack [] ∧ stack.length = 2) ∧
    (plain? "[(".toList 0 = some '[' ∧ (∀ l, ¬ LeavesClass "[(".toList 0 l) ∧
      skipClass "(".toList = []) := by
  obtain ⟨-, hruns, -, hclasses, hgroups⟩ := search_agrees_with_scan "([^])](\\"
  have hopen : plain? "([^])](\\".toList 1 = some '[' := by decide
  have hleaves : LeavesClass "([^])](\\".toList 1 5 := by
    refine ⟨by decide, ?_, by decide⟩
    intro k hlow hhigh
    obtain rfl | rfl | rfl | rfl : k = 2 ∨ k = 3 ∨ k = 4 ∨ k = 5 := by omega
    all_goals decide
  obtain ⟨stack, hcomes⟩ := hruns.1 (by decide +kernel)
  have hopen' : plain? "[(".toList 0 = some '[' := by decide
  have hnever : ∀ l, ¬ LeavesClass "[(".toList 0 l := by
    intro l hl
    exact absurd (List.mem_of_getElem? hl.bracket.1) (by decide)
  refine ⟨⟨hopen, hleaves, ?_⟩, ⟨stack, hcomes, ?_⟩, hopen', hnever, ?_⟩
  · exact ((hclasses 1 hopen).1 5 hleaves).2
  · exact hgroups stack hcomes
  · exact ((search_agrees_with_scan "[(").2.2.2.1 0 hopen').2 hnever

end PatternAudit.Pattern
