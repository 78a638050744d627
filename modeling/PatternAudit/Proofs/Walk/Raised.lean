/-
The same walk under higher limits.

A limit is never met in silence: wherever one stops a walk, the walk says so. Put the
other way round, a walk that reports no limit (`Unlimited`) has not been stopped by any,
and higher limits change nothing about it, neither an item nor the order.

The two walks are kept in step along the visit of the smaller one. At each reading they
agree on the count of followed references, which the budget is compared with, because
every step before has followed the same ones. Only `hop` and `barred?` look at limits, so
only these two have to be compared; all else is the same function of what they answer.
-/
import PatternAudit.Proofs.Walk.Cycles

set_option autoImplicit false

namespace PatternAudit.Walk

/-- The same description under other limits. -/
def Walker.under (w : Walker) (l : Limits) : Walker := { w with limits := l }

/-- Whether no item is the diagnostic of a limit. -/
def Unstopped (items : List Item) : Prop := ∀ i ∈ items, i.isLimit = false

theorem Unstopped.append {a b : List Item} (h : Unstopped (a ++ b)) :
    Unstopped a ∧ Unstopped b :=
  List.forall_mem_append.1 h

/-- A diagnostic alone is unstopped if it is not that of a limit. -/
theorem Unstopped.skip {location : String} {why : Skip}
    (h : Unstopped (Yield.skip location why).items) : why.isLimit = false :=
  h _ (List.mem_singleton_self _)

section Raised

variable {w : Walker} {l : Limits}

/-! ## References -/

/-- A reference meets the same end, unless that was a limit. -/
theorem hop_raised (hdepth : w.limits.maxDepth ≤ l.maxDepth) (hbudget : w.limits.budget ≤ l.budget)
    {n : Nat} {refs : List String} {target : String}
    (h : ∀ why, hop w n refs target = .error why → why.isLimit = false) :
    hop (w.under l) n refs target = hop w n refs target := by
  by_cases hcycle : target ∈ refs
  · rw [hop, hop, if_pos hcycle, if_pos hcycle]
  · by_cases hlong : w.limits.maxDepth ≤ refs.length
    · have hlimit := h (.chainTooLong w.limits.maxDepth)
        (by rw [hop, if_neg hcycle, if_pos hlong])
      cases hlimit
    · by_cases hspent : w.limits.budget ≤ n
      · have hlimit := h (.budgetSpent w.limits.budget target)
          (by rw [hop, if_neg hcycle, if_neg hlong, if_pos hspent])
        cases hlimit
      · have hlong' : ¬ (w.under l).limits.maxDepth ≤ refs.length :=
          fun hle => hlong (Nat.le_trans hdepth hle)
        have hspent' : ¬ (w.under l).limits.budget ≤ n :=
          fun hle => hspent (Nat.le_trans hbudget hle)
        rw [hop, hop, if_neg hcycle, if_neg hcycle, if_neg hlong, if_neg hlong', if_neg hspent,
          if_neg hspent']
        rfl

/-- References lead to the same end, unless that was a limit. -/
theorem follow_raised (hdepth : w.limits.maxDepth ≤ l.maxDepth)
    (hbudget : w.limits.budget ≤ l.budget) {n : Nat} {node : Json} {refs : List String}
    (h : ∀ why, (follow w n node refs).1 = .error why → why.isLimit = false) :
    follow (w.under l) n node refs = follow w n node refs := by
  fun_induction follow w n node refs with
  | case1 n node refs htarget => exact follow_of_none htarget
  | case2 n node refs target htarget why hwhy =>
    have hsame : hop (w.under l) n refs target = hop w n refs target := by
      refine hop_raised hdepth hbudget fun why' hwhy' => ?_
      rw [hwhy] at hwhy'
      cases hwhy'
      exact h why rfl
    exact follow_of_error htarget (hsame.trans hwhy)
  | case3 n node refs target htarget next hnext ih =>
    have hsame : hop (w.under l) n refs target = hop w n refs target := by
      refine hop_raised hdepth hbudget fun why' hwhy' => ?_
      rw [hnext] at hwhy'
      cases hwhy'
    rw [follow_of_ok htarget (hsame.trans hnext)]
    exact ih h

/-! ## Steps -/

theorem headers_raised (hdepth : w.limits.maxDepth ≤ l.maxDepth)
    (hbudget : w.limits.budget ≤ l.budget) {location : String} {refs : List String} {n : Nat}
    {hs : List (String × Json)} (h : Unstopped (headers w location refs n hs).items) :
    headers (w.under l) location refs n hs = headers w location refs n hs := by
  induction hs generalizing n with
  | nil => rfl
  | cons header hs ih =>
    obtain ⟨name, header⟩ := header
    obtain ⟨hfirst, hothers⟩ := h.append
    have hsame : follow (w.under l) n header refs = follow w n header refs := by
      refine follow_raised hdepth hbudget fun why hwhy => ?_
      rw [hwhy] at hfirst
      exact hfirst.skip
    rw [headers, headers, hsame, ih hothers]

theorem readObject_raised (hdepth : w.limits.maxDepth ≤ l.maxDepth)
    (hbudget : w.limits.budget ≤ l.budget) {role : Role} {location : String}
    {members : List (String × Json)} {refs : List String} {n : Nat}
    (h : Unstopped (readObject w role location members refs n).items) :
    readObject (w.under l) role location members refs n
      = readObject w role location members refs n := by
  have hheaders := h.append.2
  have hsame : role.headers (w.under l) location members refs n
      = role.headers w location members refs n := by
    unfold Role.headers at hheaders ⊢
    split
    · rename_i hs hlookup
      rw [hlookup] at hheaders
      exact headers_raised hdepth hbudget hheaders
    · rfl
  rw [readObject, readObject, hsame]

/-- What is not gone into is the same, unless it is nested too deep. -/
theorem barred?_raised (hdepth : w.limits.maxDepth ≤ l.maxDepth) {t : Task}
    (h : ∀ y, barred? w t = some y → Unstopped y.items) :
    barred? (w.under l) t = barred? w t := by
  unfold barred? at h ⊢
  split
  · rename_i depth refs hrole
    by_cases hdeep : w.limits.maxDepth < depth
    · rw [hrole] at h
      have hlimit := (h _ (if_pos hdeep)).skip
      cases hlimit
    · have hdeep' : ¬ (w.under l).limits.maxDepth < depth :=
        fun hlt => hdeep (Nat.lt_of_le_of_lt hdepth hlt)
      rw [if_neg hdeep, if_neg hdeep']
  · rfl

/-- **A step that no limit stops is the same under higher limits.** -/
theorem expand_raised (hdepth : w.limits.maxDepth ≤ l.maxDepth)
    (hbudget : w.limits.budget ≤ l.budget) {n : Nat} {t : Task}
    (h : Unstopped (expand w n t).items) : expand (w.under l) n t = expand w n t := by
  have hbarred : barred? (w.under l) t = barred? w t := by
    refine barred?_raised hdepth fun y hy => ?_
    rw [expand, hy] at h
    exact h
  rw [expand, expand, hbarred]
  rw [expand] at h
  split at h
  · rfl
  · have hsame : landing (w.under l) n t = landing w n t := by
      unfold landing at h ⊢
      split
      · rename_i hrefers
        refine follow_raised hdepth hbudget fun why hwhy => ?_
        rw [if_pos hrefers, ← Prod.eta (follow w n t.node t.role.refs), hwhy] at h
        exact h.skip
      · rfl
    rw [hsame]
    -- a landing at an object is all that is read with the limits at hand
    rcases hlanding : landing w n t with ⟨result, m⟩
    rw [hlanding] at h
    rcases result with why | ⟨node, refs⟩
    · rfl
    · cases node with
      | obj members => exact readObject_raised hdepth hbudget h
      | _ => rfl

/-! ## Walks -/

theorem visitNodes_raised (hdepth : w.limits.maxDepth ≤ l.maxDepth)
    (hbudget : w.limits.budget ≤ l.budget) {n : Nat} {ts : List Task}
    (h : Unstopped (visitNodes w n ts).1.items) :
    (visitNodes (w.under l) n ts).1 = (visitNodes w n ts).1 := by
  induction n, ts using visitNodes_induction (w := w) with
  | nil n => rw [visitNodes_nil, visitNodes_nil]
  | cons n t rest ihbelow ihothers =>
    rw [visitNodes_cons] at h
    obtain ⟨hfirst, hothers⟩ := h.append
    obtain ⟨hown, hbelow⟩ := hfirst.append
    have hstep := expand_raised hdepth hbudget hown
    rw [visitNodes_cons, visitNodes_cons]
    dsimp only
    rw [hstep, ihbelow hbelow, ihothers hothers]

/-- **No limit is met in silence.** A walk that reports no limit is the same walk, item by
item, under all higher limits. -/
theorem run_raised (hdepth : w.limits.maxDepth ≤ l.maxDepth)
    (hbudget : w.limits.budget ≤ l.budget) (h : Unlimited w) : run (w.under l) = run w := by
  rw [Unlimited, run_eq_visit] at h
  rw [run_eq_visit, run_eq_visit]
  exact congrArg Visit.items (visitNodes_raised hdepth hbudget h)

end Raised

/-- A list that refers to itself needs no more than a depth of two and one reference. -/
theorem linkedList_raised :
    (2 ≤ Limits.default.maxDepth ∧ 1 ≤ Limits.default.budget ∧ Unlimited ⟨linkedList, ⟨2, 1⟩⟩) ∧
      run (Walker.under ⟨linkedList, ⟨2, 1⟩⟩ Limits.default) = run ⟨linkedList, ⟨2, 1⟩⟩ := by
  have hdepth : 2 ≤ Limits.default.maxDepth := by decide
  have hbudget : 1 ≤ Limits.default.budget := by decide
  have hunlimited : Unlimited ⟨linkedList, ⟨2, 1⟩⟩ := unlimited_of_test 10 (by decide +kernel)
  exact ⟨⟨hdepth, hbudget, hunlimited⟩, run_raised hdepth hbudget hunlimited⟩

end PatternAudit.Walk
