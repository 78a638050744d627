/-
What two documents have in common is read alike in both.

Take walks with the same limits over two documents whose common references name the same nodes.
A node that is part of both documents is read alike, as long as the walks have followed the
same number of references: the step answers the same items, the same tasks below and the same
count (`expand_common`). What is below is again part of both. So the two walks do not come
apart (`visitNodes_common`), not even where the budget is spent; `Isolation` compares walks
that have read different things before, and has to leave the budget out.
-/
import PatternAudit.Proofs.Walk.Isolation

set_option autoImplicit false

namespace PatternAudit.Walk

/-- Where following references ends is part of the document. -/
theorem has_of_follow {w : Walker} {n m : Nat} {v last : Json} {refs rs : List String}
    (hv : w.root.Has v) (h : follow w n v refs = (.ok (last, rs), m)) : w.root.Has last := by
  fun_induction follow w n v refs with
  | case1 n v refs htarget =>
    cases h
    exact hv
  | case2 n v refs target htarget why hstop => cases h
  | case3 n v refs target htarget next hnext ih =>
    exact ih (Pointer.has_of_resolveRef? (hop_eq_ok_iff.1 hnext).2.2.2) h

theorem has_of_landing {w : Walker} {n m : Nat} {t : Task} {node : Json} {refs : List String}
    (ht : w.root.Has t.node) (h : landing w n t = (.ok (node, refs), m)) : w.root.Has node := by
  unfold landing at h
  split at h
  · exact has_of_follow ht h
  · rw [Prod.mk.injEq, Except.ok.injEq, Prod.mk.injEq] at h
    exact h.1.1 ▸ ht

section InBoth

variable {w w' : Walker} (hpair : Comparable w w')

include hpair

theorem hop_common (n : Nat) (refs : List String) {target : String}
    (hmem : target ∈ references w.root) (hmem' : target ∈ references w'.root) :
    hop w' n refs target = hop w n refs target := by
  rw [hop, hop, hpair.limits, hpair.references target hmem hmem']

/-- A node of both documents leads to one node, with as many references followed. -/
theorem follow_common (n : Nat) {v : Json} (refs : List String) (hv : w.root.Has v)
    (hv' : w'.root.Has v) : follow w' n v refs = follow w n v refs := by
  fun_induction follow w n v refs with
  | case1 n v refs htarget => exact follow_of_none htarget
  | case2 n v refs target htarget why hstop =>
    have hstop' := hop_common hpair n refs (mem_references hv htarget) (mem_references hv' htarget)
    exact follow_of_error htarget (hstop'.trans hstop)
  | case3 n v refs target htarget next hnext ih =>
    have hnext' := hop_common hpair n refs (mem_references hv htarget) (mem_references hv' htarget)
    rw [hnext] at hnext'
    rw [follow_of_ok htarget hnext']
    -- the node that the reference names is part of both documents, too
    exact ih (Pointer.has_of_resolveRef? (hop_eq_ok_iff.1 hnext).2.2.2)
      (Pointer.has_of_resolveRef? (hop_eq_ok_iff.1 hnext').2.2.2)

theorem headers_common (location : String) (refs : List String) (n : Nat)
    {hs : List (String × Json)} (hhas : ∀ m ∈ hs, w.root.Has m.2)
    (hhas' : ∀ m ∈ hs, w'.root.Has m.2) :
    headers w' location refs n hs = headers w location refs n hs := by
  induction hs generalizing n with
  | nil => rfl
  | cons h hs ih =>
    obtain ⟨name, header⟩ := h
    obtain ⟨hheader, hothers⟩ := List.forall_mem_cons.1 hhas
    obtain ⟨hheader', hothers'⟩ := List.forall_mem_cons.1 hhas'
    rw [headers, headers, follow_common hpair n refs hheader hheader']
    dsimp only
    rw [ih _ hothers hothers']

theorem readObject_common (role : Role) (location : String) {ms : List (String × Json)}
    (refs : List String) (n : Nat) (hms : w.root.Has (.obj ms)) (hms' : w'.root.Has (.obj ms)) :
    readObject w' role location ms refs n = readObject w role location ms refs n := by
  have hheaders : role.headers w' location ms refs n = role.headers w location ms refs n := by
    unfold Role.headers
    split
    · rename_i hs hlookup
      exact headers_common hpair _ refs n (fun m hm => (hms.get? hlookup).member hm)
        fun m hm => (hms'.get? hlookup).member hm
    · rfl
  rw [readObject, readObject, hheaders]

theorem landing_common (n : Nat) {t : Task} (ht : w.root.Has t.node) (ht' : w'.root.Has t.node) :
    landing w' n t = landing w n t := by
  unfold landing
  rw [follow_common hpair n t.role.refs ht ht']

/-- **A step reads a common node alike.** -/
theorem expand_common (n : Nat) {t : Task} (ht : w.root.Has t.node) (ht' : w'.root.Has t.node) :
    expand w' n t = expand w n t := by
  have hbarred : barred? w' t = barred? w t := by rw [barred?, barred?, hpair.limits]
  have hland := landing_common hpair n ht ht'
  unfold expand
  rw [hbarred, hland]
  split
  · rfl
  · rcases hlanding : landing w n t with ⟨why | ⟨node, refs⟩, m⟩
    · rfl
    · cases node with
      | obj ms =>
        exact readObject_common hpair t.role t.location refs m (has_of_landing ht hlanding)
          (has_of_landing ht' (hland.trans hlanding))
      | _ => rfl

/-- **Walks from common nodes are the same.** -/
theorem visitNodes_common (n : Nat) {ts : List Task} (h : ∀ t ∈ ts, t.OnTrail w)
    (h' : ∀ t ∈ ts, t.OnTrail w') : (visitNodes w' n ts).1 = (visitNodes w n ts).1 := by
  induction n, ts using visitNodes_induction (w := w) with
  | nil n => rw [visitNodes_nil, visitNodes_nil]
  | cons n t rest ihbelow ihothers =>
    obtain ⟨ht, hrest⟩ := List.forall_mem_cons.1 h
    obtain ⟨ht', hrest'⟩ := List.forall_mem_cons.1 h'
    have hstep := expand_common hpair n ht.has ht'.has
    have hbelow' := (expand_keeps n ht').onTrail
    rw [hstep] at hbelow'
    rw [visitNodes_cons, visitNodes_cons, hstep]
    dsimp only
    rw [ihbelow (expand_keeps n ht).onTrail hbelow', ihothers hrest hrest']

end InBoth

end PatternAudit.Walk
