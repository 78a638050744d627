/-
What higher limits find besides.

Under lower limits a walk cuts descents short. What it finds is then part of what the walk
finds under higher ones, in the same order: the higher walk only goes through more in between.
Two walks are compared that differ in their limits, along the visit of the higher one.

At first the two are in step: they have the same tasks before them and have followed as many
references. The lower one may then fall behind (`Behind`), and from there on the higher one has
other tasks in between and counts on its own. That does not matter again in two cases. Once the
lower walk has spent its budget it follows no reference any more, so no count matters to it.
And where the higher walk is known never to be short of budget, it is enough that the lower
one has not followed more references.

The second case is the only one for walks of different depths. Without it a deeper walk could
spend its budget early, on references that the other one never comes to.
-/
import PatternAudit.Proofs.Walk.Raised

set_option autoImplicit false

namespace PatternAudit.Walk

/-! ## Patterns and spent budgets -/

/-- The patterns among items, each with its location. -/
def found (items : List Item) : List (String × String) := items.filterMap Item.pattern?

theorem found_append (a b : List Item) : found (a ++ b) = found a ++ found b :=
  List.filterMap_append

/-- Whether a place was not entered because the budget was spent. -/
def Skip.isSpent : Skip → Bool
  | .budgetSpent _ _ => true
  | _ => false

/-- Whether an item says that the budget was spent. -/
def Item.isSpent : Item → Bool
  | .skipped _ why => why.isSpent
  | _ => false

/-- Whether no item says that the budget was spent. -/
def Unspent (items : List Item) : Prop := ∀ i ∈ items, i.isSpent = false

theorem Unspent.append {a b : List Item} (h : Unspent (a ++ b)) : Unspent a ∧ Unspent b :=
  List.forall_mem_append.1 h

/-- Whether a walk spends its budget shows when it has ended. -/
theorem unspent_of_test {w : Walker} (n : Nat)
    (h : (endsWith w n fun items => items.all fun i => !i.isSpent) = true) :
    Unspent (run w) := by
  have htest := forall_run_of_test n h
  intro i hi
  simpa using htest i hi

/-- A diagnostic alone is unspent if it is of something else. -/
theorem Unspent.skip {location : String} {why : Skip}
    (h : Unspent (Yield.skip location why).items) : why.isSpent = false :=
  h _ (List.mem_singleton_self _)

/-- Whether a landing does not fall short for want of budget. -/
def Landing.Unspent (a : Landing) : Prop := ∀ why, a.1 = .error why → why.isSpent = false

theorem Landing.unspent_of_headerYield {a : Landing} {location : String}
    (h : Walk.Unspent (headerYield location a.1).items) : a.Unspent := by
  intro why hwhy
  rw [hwhy] at h
  exact h.skip

theorem Landing.unspent_of_arrive {a : Landing} {w : Walker} {role : Role} {location : String}
    (h : Walk.Unspent (a.arrive w role location).items) : a.Unspent := by
  obtain ⟨result, n⟩ := a
  rintro why rfl
  exact h.skip

/-! ## Counts -/

section Limits

variable (w : Walker) (l : Limits) (ample : Prop)

/-- How the counts of two walks compare where the lower one may have fallen behind. That the
higher one is never short of budget is known if `ample` holds. -/
def Behind (n n' : Nat) : Prop := w.limits.budget ≤ n ∨ (ample ∧ n ≤ n')

/-- How the counts of two walks compare: they are in step, or the lower one is behind. Only
walks of the same depth are in step. -/
def Apace (n n' : Nat) : Prop :=
  (w.limits.maxDepth = l.maxDepth ∧ n = n') ∨ Behind w ample n n'

/-- How two walks compare that have tasks before them: the same tasks if they are in step, and
else the higher walk may have others in between. -/
def Keeps (n : Nat) (ts : List Task) (n' : Nat) (ts' : List Task) : Prop :=
  (ts = ts' ∧ Apace w l ample n n') ∨ (ts.Sublist ts' ∧ Behind w ample n n')

end Limits

section Counts

variable {w : Walker} {l : Limits} {ample : Prop} {n n' m m' : Nat}

/-- The higher walk may go on. -/
theorem Behind.mono (h : Behind w ample n n') (hle : n' ≤ m') : Behind w ample n m' :=
  h.imp_right fun h => ⟨h.1, Nat.le_trans h.2 hle⟩

/-- A walk that is behind stays behind. -/
theorem Behind.after (h : Behind w ample n n') (hle : n ≤ m) (hpace : Apace w l ample m m') :
    Behind w ample m m' := by
  rcases hpace with ⟨-, rfl⟩ | hbehind
  · rcases h with hspent | ⟨hample, -⟩
    · exact Or.inl (Nat.le_trans hspent hle)
    · exact Or.inr ⟨hample, Nat.le_refl m⟩
  · exact hbehind

/-- Walks of different depths are never in step. -/
theorem Apace.behind (h : Apace w l ample n n') (hdepth : w.limits.maxDepth ≠ l.maxDepth) :
    Behind w ample n n' :=
  h.resolve_left fun hstep => hdepth hstep.1

/-- When both walks follow a reference, they keep pace. -/
theorem Apace.succ (h : Apace w l ample n n') (hleft : n < w.limits.budget) :
    Apace w l ample (n + 1) (n' + 1) := by
  rcases h with ⟨hdepth, rfl⟩ | hspent | ⟨hample, hle⟩
  · exact Or.inl ⟨hdepth, rfl⟩
  · omega
  · exact Or.inr (Or.inr ⟨hample, Nat.succ_le_succ hle⟩)

variable {ts ts' us us' : List Task}

theorem Keeps.apace (h : Keeps w l ample n ts n' ts') : Apace w l ample n n' := by
  rcases h with ⟨-, hpace⟩ | ⟨-, hbehind⟩
  · exact hpace
  · exact Or.inr hbehind

theorem Keeps.sublist (h : Keeps w l ample n ts n' ts') : ts.Sublist ts' := by
  rcases h with ⟨rfl, -⟩ | ⟨hsub, -⟩
  · exact List.Sublist.refl ts
  · exact hsub

/-- What comes after tasks that both walks have done. -/
theorem Keeps.after (h : Keeps w l ample n ts n' ts') (hle : n ≤ m)
    (hpace : Apace w l ample m m') : Keeps w l ample m ts m' ts' := by
  rcases h with ⟨hsame, -⟩ | ⟨hsub, hbehind⟩
  · exact Or.inl ⟨hsame, hpace⟩
  · exact Or.inr ⟨hsub, hbehind.after hle hpace⟩

/-- The same tasks may come before. -/
theorem Keeps.append_left (h : Keeps w l ample n ts n' ts') (us : List Task) :
    Keeps w l ample n (us ++ ts) n' (us ++ ts') := by
  rcases h with ⟨rfl, hpace⟩ | ⟨hsub, hbehind⟩
  · exact Or.inl ⟨rfl, hpace⟩
  · exact Or.inr ⟨hsub.append_left us, hbehind⟩

/-- The next task of the higher walk is the next one of both, or one that the lower walk does
not have. -/
theorem Keeps.of_cons {t : Task} (h : Keeps w l ample n ts n' (t :: ts')) :
    (∃ rest, ts = t :: rest ∧ Keeps w l ample n rest n' ts') ∨
      (ts.Sublist ts' ∧ Behind w ample n n') := by
  rcases h with ⟨rfl, hpace⟩ | ⟨hsub, hbehind⟩
  · exact Or.inl ⟨ts', rfl, Or.inl ⟨rfl, hpace⟩⟩
  · cases hsub with
    | cons _ hsub => exact Or.inr ⟨hsub, hbehind⟩
    | cons_cons _ hsub => exact Or.inl ⟨_, rfl, Or.inr ⟨hsub, hbehind⟩⟩

end Counts

/-! ## References -/

section Raised

variable {w : Walker} {l : Limits} {ample : Prop} {n n' : Nat}

/-- A reference meets the same end, or the lower walk is stopped and falls behind. -/
theorem hop_apace (hdepth : w.limits.maxDepth ≤ l.maxDepth) (hbudget : w.limits.budget ≤ l.budget)
    (h : Apace w l ample n n') {refs : List String} {target : String}
    (hample : ample → ∀ why, hop (w.under l) n' refs target = .error why → why.isSpent = false) :
    hop w n refs target = hop (w.under l) n' refs target ∨
      (∃ why, hop w n refs target = .error why) ∧ Behind w ample n n' := by
  by_cases hcycle : target ∈ refs
  · exact Or.inl (by rw [hop, hop, if_pos hcycle, if_pos hcycle])
  by_cases hlong : w.limits.maxDepth ≤ refs.length
  · have hstop : hop w n refs target = .error (.chainTooLong w.limits.maxDepth) := by
      rw [hop, if_neg hcycle, if_pos hlong]
    rcases h with ⟨hsame, -⟩ | hbehind
    · have hlong' : (w.under l).limits.maxDepth ≤ refs.length := hsame ▸ hlong
      refine Or.inl ?_
      rw [hstop, hop, if_neg hcycle, if_pos hlong', hsame]
      rfl
    · exact Or.inr ⟨⟨_, hstop⟩, hbehind⟩
  by_cases hspent : w.limits.budget ≤ n
  · refine Or.inr ⟨⟨.budgetSpent w.limits.budget target, ?_⟩, Or.inl hspent⟩
    rw [hop, if_neg hcycle, if_neg hlong, if_pos hspent]
  · -- nothing stops the lower walk, and so nothing stops the higher one
    have hlong' : ¬ (w.under l).limits.maxDepth ≤ refs.length :=
      fun hle => hlong (Nat.le_trans hdepth hle)
    have hspent' : ¬ (w.under l).limits.budget ≤ n' := by
      intro hspent'
      have hle : l.budget ≤ n' := hspent'
      rcases h with ⟨-, rfl⟩ | hbehind | ⟨hknown, -⟩
      · omega
      · omega
      · have hstop : hop (w.under l) n' refs target = .error (.budgetSpent l.budget target) := by
          rw [hop, if_neg hcycle, if_neg hlong', if_pos hspent']
          rfl
        have hnot := hample hknown _ hstop
        cases hnot
    refine Or.inl ?_
    rw [hop, hop, if_neg hcycle, if_neg hcycle, if_neg hlong, if_neg hlong', if_neg hspent,
      if_neg hspent']
    rfl

/-- What two walks may make of the same landing: they land at the same place, or the lower one
is stopped on the way and falls behind. -/
def LandsApace (w : Walker) (l : Limits) (ample : Prop) (a b : Landing) : Prop :=
  (a.1 = b.1 ∧ Apace w l ample a.2 b.2) ∨ (∃ why, a.1 = .error why) ∧ Behind w ample a.2 b.2

theorem LandsApace.apace {a b : Landing} (h : LandsApace w l ample a b) :
    Apace w l ample a.2 b.2 := by
  rcases h with ⟨-, hpace⟩ | ⟨-, hbehind⟩
  · exact hpace
  · exact Or.inr hbehind

theorem follow_apace (hdepth : w.limits.maxDepth ≤ l.maxDepth)
    (hbudget : w.limits.budget ≤ l.budget) (h : Apace w l ample n n') {node : Json}
    {refs : List String} (hample : ample → (follow (w.under l) n' node refs).Unspent) :
    LandsApace w l ample (follow w n node refs) (follow (w.under l) n' node refs) := by
  fun_induction follow (w.under l) n' node refs generalizing n with
  | case1 n' node refs htarget =>
    rw [follow_of_none htarget]
    exact Or.inl ⟨rfl, h⟩
  | case2 n' node refs target htarget why hstop =>
    have hhop : ample → ∀ why', hop (w.under l) n' refs target = .error why' →
        why'.isSpent = false := by
      intro hknown why' hwhy
      rw [hstop] at hwhy
      cases hwhy
      exact hample hknown why rfl
    rcases hop_apace hdepth hbudget h hhop with hsame | ⟨⟨why', hwhy⟩, hbehind⟩
    · rw [follow_of_error htarget (hsame.trans hstop)]
      exact Or.inl ⟨rfl, h⟩
    · rw [follow_of_error htarget hwhy]
      exact Or.inr ⟨⟨why', rfl⟩, hbehind⟩
  | case3 n' node refs target htarget next hnext ih =>
    have hhop : ample → ∀ why', hop (w.under l) n' refs target = .error why' →
        why'.isSpent = false := by
      intro _ why' hwhy
      rw [hnext] at hwhy
      cases hwhy
    rcases hop_apace hdepth hbudget h hhop with hsame | ⟨⟨why', hwhy⟩, hbehind⟩
    · have hgoes := hsame.trans hnext
      rw [follow_of_ok htarget hgoes]
      exact ih (h.succ (hop_eq_ok_iff.1 hgoes).2.2.1) hample
    · -- the higher walk goes on alone
      rw [follow_of_error htarget hwhy]
      have hmore := (follow_spends (w.under l) (n' + 1) next (target :: refs)).1
      exact Or.inr ⟨⟨why', rfl⟩, hbehind.mono (Nat.le_trans (Nat.le_succ n') hmore)⟩

/-! ## Steps -/

/-- What a step of the lower walk answers, within what the same step of the higher one does. -/
structure Expansion.Within (w : Walker) (l : Limits) (ample : Prop) (e e' : Expansion) : Prop where
  found : (found e.items).Sublist (found e'.items)
  keeps : Keeps w l ample e.resolved e.tasks e'.resolved e'.tasks

/-- The same yield may come before. -/
theorem Expansion.Within.before {e e' : Expansion} (h : e.Within w l ample e') (y : Yield) :
    (y.before e).Within w l ample (y.before e') where
  found := by
    rw [Yield.before, Yield.before, found_append, found_append]
    exact h.found.append_left _
  keeps := h.keeps.append_left y.tasks

theorem Yield.within_keeping (y : Yield) (h : Apace w l ample n n') :
    (y.keeping n).Within w l ample (y.keeping n') where
  found := List.Sublist.refl _
  keeps := Or.inl ⟨rfl, h⟩

/-- A walk that is stopped finds nothing. -/
theorem Expansion.Within.of_stopped {e' : Expansion} (location : String) (why : Skip)
    (h : Behind w ample n e'.resolved) :
    ((Yield.skip location why).keeping n).Within w l ample e' where
  found := List.nil_sublist _
  keeps := Or.inr ⟨List.nil_sublist _, h⟩

/-- A walk that was stopped at one place goes on at the next one. -/
theorem Expansion.Within.after_stop {e e' : Expansion} (h : e.Within w l ample e')
    (hbehind : Behind w ample e.resolved e'.resolved) (location : String) (why : Skip)
    (y : Yield) : ((Yield.skip location why).before e).Within w l ample (y.before e') where
  found := by
    rw [Yield.before, Yield.before, found_append, found_append]
    exact List.sublist_append_of_sublist_right h.found
  keeps := Or.inr ⟨List.sublist_append_of_sublist_right h.keeps.sublist, hbehind⟩

theorem headers_within (hdepth : w.limits.maxDepth ≤ l.maxDepth)
    (hbudget : w.limits.budget ≤ l.budget) (h : Apace w l ample n n') {location : String}
    {refs : List String} {hs : List (String × Json)}
    (hample : ample → Unspent (headers (w.under l) location refs n' hs).items) :
    (headers w location refs n hs).Within w l ample
      (headers (w.under l) location refs n' hs) := by
  induction hs generalizing n n' with
  | nil => exact Yield.nothing.within_keeping h
  | cons header hs ih =>
    obtain ⟨name, header⟩ := header
    have hlands : LandsApace w l ample (follow w n header refs)
        (follow (w.under l) n' header refs) :=
      follow_apace hdepth hbudget h fun hknown =>
        Landing.unspent_of_headerYield (hample hknown).append.1
    have hothers := ih hlands.apace fun hknown => (hample hknown).append.2
    rw [headers, headers]
    rcases hlands with ⟨hsame, -⟩ | ⟨⟨why, hwhy⟩, hbehind⟩
    · rw [hsame]
      exact hothers.before _
    · rw [hwhy]
      have hmore := (headers_spends w location refs (follow w n header refs).2 hs).1
      exact hothers.after_stop (hbehind.after hmore hothers.keeps.apace) _ _ _

theorem readObject_within (hdepth : w.limits.maxDepth ≤ l.maxDepth)
    (hbudget : w.limits.budget ≤ l.budget) (h : Apace w l ample n n') {role : Role}
    {location : String} {members : List (String × Json)} {refs : List String}
    (hample : ample → Unspent (readObject (w.under l) role location members refs n').items) :
    (readObject w role location members refs n).Within w l ample
      (readObject (w.under l) role location members refs n') := by
  refine Expansion.Within.before ?_ _
  have hheaders := fun hknown => (hample hknown).append.2
  unfold Role.headers at hheaders ⊢
  split
  · rename_i hs hlookup
    rw [hlookup] at hheaders
    exact headers_within hdepth hbudget h hheaders
  · exact Yield.nothing.within_keeping h

/-- What is not gone into is the same, unless only the lower walk does not go as deep. -/
theorem barred?_apace (hdepth : w.limits.maxDepth ≤ l.maxDepth) (t : Task) :
    barred? (w.under l) t = barred? w t ∨
      w.limits.maxDepth ≠ l.maxDepth ∧ ∃ why, barred? w t = some (.skip t.location why) := by
  unfold barred?
  split
  · rename_i depth refs hrole
    by_cases hdeep : w.limits.maxDepth < depth
    · by_cases hsame : w.limits.maxDepth = l.maxDepth
      · have hdeep' : (w.under l).limits.maxDepth < depth := hsame ▸ hdeep
        refine Or.inl ?_
        rw [if_pos hdeep, if_pos hdeep', hsame]
        rfl
      · exact Or.inr ⟨hsame, _, if_pos hdeep⟩
    · have hdeep' : ¬ (w.under l).limits.maxDepth < depth :=
        fun hlt => hdeep (Nat.lt_of_le_of_lt hdepth hlt)
      rw [if_neg hdeep, if_neg hdeep']
      exact Or.inl rfl
  · exact Or.inl rfl

theorem landing_apace (hdepth : w.limits.maxDepth ≤ l.maxDepth)
    (hbudget : w.limits.budget ≤ l.budget) (h : Apace w l ample n n') {t : Task}
    (hample : ample → (landing (w.under l) n' t).Unspent) :
    LandsApace w l ample (landing w n t) (landing (w.under l) n' t) := by
  unfold landing at hample ⊢
  split
  · rename_i hrefers
    simp only [if_pos hrefers] at hample
    exact follow_apace hdepth hbudget h hample
  · exact Or.inl ⟨rfl, h⟩

theorem arrive_within (hdepth : w.limits.maxDepth ≤ l.maxDepth)
    (hbudget : w.limits.budget ≤ l.budget) {role : Role} {location : String} {a b : Landing}
    (h : LandsApace w l ample a b)
    (hample : ample → Unspent (b.arrive (w.under l) role location).items) :
    (a.arrive w role location).Within w l ample (b.arrive (w.under l) role location) := by
  obtain ⟨result, m⟩ := a
  obtain ⟨result', m'⟩ := b
  rcases h with ⟨rfl, hpace⟩ | ⟨⟨why, rfl⟩, hbehind⟩
  · match result with
    | .error why => exact Yield.within_keeping _ hpace
    | .ok (.obj members, refs) => exact readObject_within hdepth hbudget hpace hample
    | .ok (.null, _) | .ok (.bool _, _) | .ok (.num _, _) | .ok (.str _, _) | .ok (.arr _, _) =>
      exact Yield.within_keeping _ hpace
  · exact .of_stopped location why (hbehind.mono (arrive_spends (w.under l) role location _).1)

/-- **A step under lower limits finds no more.** What it leaves to do is part of what the
same step under higher limits does. -/
theorem expand_within (hdepth : w.limits.maxDepth ≤ l.maxDepth)
    (hbudget : w.limits.budget ≤ l.budget) (h : Apace w l ample n n') {t : Task}
    (hample : ample → Unspent (expand (w.under l) n' t).items) :
    (expand w n t).Within w l ample (expand (w.under l) n' t) := by
  rcases barred?_apace hdepth t with hsame | ⟨hdeeper, why, hbarred⟩
  · rw [expand, hsame] at hample
    rw [expand, expand, hsame]
    split
    · exact Yield.within_keeping _ h
    · rename_i hnone
      simp only [hnone] at hample
      have hlands := landing_apace hdepth hbudget h fun hknown =>
        Landing.unspent_of_arrive (hample hknown)
      exact arrive_within hdepth hbudget hlands hample
  · have hmore := (expand_spends (w.under l) n' t).1
    rw [expand, hbarred]
    exact .of_stopped t.location why ((h.behind hdeeper).mono hmore)

/-! ## Walks -/

/-- What a walk under lower limits finds, the other one finds in the same order, and the
lower one does not overtake. -/
theorem visitNodes_within (hdepth : w.limits.maxDepth ≤ l.maxDepth)
    (hbudget : w.limits.budget ≤ l.budget) {ts ts' : List Task} (h : Keeps w l ample n ts n' ts')
    (hample : ample → Unspent (visitNodes (w.under l) n' ts').1.items) :
    (found (visitNodes w n ts).1.items).Sublist (found (visitNodes (w.under l) n' ts').1.items) ∧
      Apace w l ample (visitNodes w n ts).1.resolved
        (visitNodes (w.under l) n' ts').1.resolved := by
  -- the recursion is that of the higher walk, which reads whatever the lower one reads
  induction n', ts' using visitNodes_induction (w := w.under l) generalizing n ts with
  | nil n' =>
    have hnone : ts = [] := List.sublist_nil.1 h.sublist
    rw [hnone, visitNodes_nil, visitNodes_nil]
    exact ⟨List.Sublist.refl _, h.apace⟩
  | cons n' t rest' ihbelow ihothers =>
    simp only [visitNodes_cons (w.under l) n'] at hample ⊢
    have hothers := fun hknown => (hample hknown).append.2
    rcases h.of_cons with ⟨rest, rfl, hrest⟩ | ⟨hsub, hbehind⟩
    · -- both read the node, and then what is below it
      have hown := fun hknown => (hample hknown).append.1.append.1
      have hunder := fun hknown => (hample hknown).append.1.append.2
      have hstep := expand_within hdepth hbudget hrest.apace hown
      obtain ⟨hfound, hpace⟩ := ihbelow hstep.keeps hunder
      have hmore := (expand_spends w n t).trans (visitNodes_spends w _ (expand w n t).tasks)
      obtain ⟨hfound', hpace'⟩ := ihothers (hrest.after hmore.1 hpace) hothers
      rw [visitNodes_cons]
      simp only [found_append]
      exact ⟨(hstep.found.append hfound).append hfound', hpace'⟩
    · -- only the higher walk reads the node
      have hmore := (expand_spends (w.under l) n' t).trans
        (visitNodes_spends (w.under l) _ (expand (w.under l) n' t).tasks)
      obtain ⟨hfound, hpace⟩ := ihothers (Or.inr ⟨hsub, hbehind.mono hmore.1⟩) hothers
      rw [found_append]
      exact ⟨List.sublist_append_of_sublist_right hfound, hpace⟩

/-- A walk under lower limits finds no more patterns, if the depth is the same or the higher
walk does not spend its budget. -/
theorem patterns_sublist (hdepth : w.limits.maxDepth ≤ l.maxDepth)
    (hbudget : w.limits.budget ≤ l.budget)
    (h : w.limits.maxDepth = l.maxDepth ∨ Unspent (run (w.under l))) :
    (patterns w).Sublist (patterns (w.under l)) := by
  have hstart : Apace w l (Unspent (run (w.under l))) 0 0 :=
    h.imp (fun hsame => ⟨hsame, rfl⟩) fun hunspent => Or.inr ⟨hunspent, Nat.le_refl 0⟩
  rw [run_eq_visit] at hstart
  rw [patterns, patterns, run_eq_visit, run_eq_visit]
  exact (visitNodes_within hdepth hbudget (Or.inl ⟨rfl, hstart⟩) id).1

end Raised

/-- **Higher limits lose no pattern.** With a higher budget a walk finds all the patterns that
it found before, in their order; with a greater depth, too, if it does not spend its budget
then. -/
theorem patterns_of_raised_limits (root : Json) (m m' b b' : Nat) :
    (b ≤ b' → (patterns ⟨root, ⟨m, b⟩⟩).Sublist (patterns ⟨root, ⟨m, b'⟩⟩)) ∧
      (m ≤ m' → Unspent (run ⟨root, ⟨m', b⟩⟩) →
        (patterns ⟨root, ⟨m, b⟩⟩).Sublist (patterns ⟨root, ⟨m', b⟩⟩)) :=
  ⟨fun hbudget => patterns_sublist (w := ⟨root, ⟨m, b⟩⟩) (l := ⟨m, b'⟩) (Nat.le_refl m) hbudget
      (Or.inl rfl),
    fun hdepth hunspent => patterns_sublist (w := ⟨root, ⟨m, b⟩⟩) (l := ⟨m', b⟩) hdepth
      (Nat.le_refl b) (Or.inr hunspent)⟩

/-- Two named schemas, the first of which refers to the second one. -/
def orderLine : Json :=
  .obj [("definitions", .obj [
    ("Line", .obj [("pattern", .str "^L"),
      ("properties", .obj [("sku", .obj [("$ref", .str "#/definitions/Sku")])])]),
    ("Sku", .obj [("pattern", .str "^S")])])]

/-- With no reference, or with no schema inside of another one, a walk finds the two patterns;
with more it finds the second one in between, too. -/
theorem orderLine_patterns_sublist :
    (patterns ⟨orderLine, ⟨1, 0⟩⟩
        = [("#/definitions/Line", "^L"), ("#/definitions/Sku", "^S")] ∧
      patterns ⟨orderLine, ⟨0, 1⟩⟩
        = [("#/definitions/Line", "^L"), ("#/definitions/Sku", "^S")] ∧
      patterns ⟨orderLine, ⟨1, 1⟩⟩
        = [("#/definitions/Line", "^L"), ("#/definitions/Line/properties/sku", "^S"),
          ("#/definitions/Sku", "^S")]) ∧
      0 ≤ 1 ∧ Unspent (run ⟨orderLine, ⟨1, 1⟩⟩) ∧
      (patterns ⟨orderLine, ⟨1, 0⟩⟩).Sublist (patterns ⟨orderLine, ⟨1, 1⟩⟩) ∧
      (patterns ⟨orderLine, ⟨0, 1⟩⟩).Sublist (patterns ⟨orderLine, ⟨1, 1⟩⟩) := by
  have hunspent : Unspent (run ⟨orderLine, ⟨1, 1⟩⟩) := unspent_of_test 9 (by decide +kernel)
  have hle : 0 ≤ 1 := Nat.zero_le 1
  exact ⟨⟨patterns_of_test 9 (by decide +kernel), patterns_of_test 9 (by decide +kernel),
      patterns_of_test 9 (by decide +kernel)⟩, hle, hunspent,
    (patterns_of_raised_limits orderLine 1 1 0 1).1 hle,
    (patterns_of_raised_limits orderLine 0 1 1 1).2 hle hunspent⟩

end PatternAudit.Walk
