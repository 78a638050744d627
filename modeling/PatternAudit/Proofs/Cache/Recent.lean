/-
The most recently stored reports, in a plain list.

This is what a cache is meant to be, without maps, sequence numbers and files: a list of
stored reports, oldest first. Storing puts a report at the end and lets reports go from the
front, as long as there are more than the limit; a report is answered as long as its
lifetime lasts. Reports whose lifetime is over stay in the list until they go, and count.

What is answered depends on the reports that are still `alive`, and so does what is alive
after the next call (`alive_store`): reports come in the order of their times, so what is
over stands in front of what is not, and goes first.
-/
import PatternAudit.Proofs.Cache.Calls

set_option autoImplicit false

namespace PatternAudit.Cache

/-- A stored report, with its id and the second at which it was stored. -/
structure Recent where
  id : String
  report : Report
  second : Nat
  deriving DecidableEq

namespace Recent

/-! ## The list -/

/-- The list without an id. -/
def without (id : String) (rs : List Recent) : List Recent := rs.filter fun r => r.id ≠ id

/-- The list after storing: the report of the id is the last one, and no more are left than
the limit says. -/
def store (limit : Nat) (rs : List Recent) (second : Nat) (id : String) (report : Report) :
    List Recent :=
  let longer := without id rs ++ [⟨id, report, second⟩]
  longer.drop (longer.length - limit)

/-- Whether the lifetime of a report is not over. -/
def isAlive (lifetime second : Nat) (r : Recent) : Bool := second - r.second < lifetime

/-- The report of an id, if its lifetime is not over. -/
def get (lifetime : Nat) (rs : List Recent) (second : Nat) (id : String) : Option Report :=
  ((rs.find? fun r => r.id = id).filter (isAlive lifetime second)).map report

/-- The list after a call. -/
def perform (limit : Nat) (rs : List Recent) (now : Nat) : Call → List Recent
  | .store id report => store limit rs (seconds now) id report
  | .insert made report => store limit rs (seconds now) (mintId now made) report
  | .get _ => rs
  | .remove id => without id rs

/-- The list after calls, each at its time. -/
def run (limit : Nat) (rs : List Recent) : List (Nat × Call) → List Recent
  | [] => rs
  | (now, call) :: rest => run limit (perform limit rs now call) rest

/-- What is answered to those of the calls that ask for a report. -/
def answers (limit lifetime : Nat) (rs : List Recent) : List (Nat × Call) → List (Option Report)
  | [] => []
  | (now, call) :: rest =>
    (call.asked?.map fun id => get lifetime rs (seconds now) id).toList
      ++ answers limit lifetime (perform limit rs now call) rest

/-! ## Order -/

/-- A list in which each id stands once and reports come in the order of their times, none
of them from after a second. -/
structure Tidy (rs : List Recent) (second : Nat) : Prop where
  nodup : (rs.map id).Nodup
  ordered : rs.Pairwise fun a b => a.second ≤ b.second
  past : ∀ r ∈ rs, r.second ≤ second

section Tidy

variable {rs : List Recent} {second : Nat}

theorem Tidy.mono (h : Tidy rs second) {later : Nat} (hle : second ≤ later) : Tidy rs later :=
  ⟨h.nodup, h.ordered, fun r hr => Nat.le_trans (h.past r hr) hle⟩

theorem Tidy.sublist (h : Tidy rs second) {others : List Recent} (hsub : others.Sublist rs) :
    Tidy others second :=
  ⟨h.nodup.sublist (hsub.map _), h.ordered.sublist hsub, fun r hr => h.past r (hsub.subset hr)⟩

theorem Tidy.without (h : Tidy rs second) (id : String) : Tidy (without id rs) second :=
  h.sublist List.filter_sublist

/-- A report of now comes last. -/
theorem Tidy.append (h : Tidy rs second) (id : String) (report : Report) :
    Tidy (Recent.without id rs ++ [⟨id, report, second⟩]) second := by
  have hwithout := h.without id
  refine ⟨nodup_filter_ne_append Recent.id h.nodup ⟨id, report, second⟩, ?_, ?_⟩
  · rw [List.pairwise_append]
    refine ⟨hwithout.ordered, List.pairwise_singleton _ _, ?_⟩
    intro a ha b hb
    rw [List.mem_singleton.1 hb]
    exact hwithout.past a ha
  · intro r hr
    rcases List.mem_append.1 hr with hr | hr
    · exact hwithout.past r hr
    · have hnew : r = ⟨id, report, second⟩ := List.mem_singleton.1 hr
      exact Nat.le_of_eq (congrArg Recent.second hnew)

theorem Tidy.store (h : Tidy rs second) (limit : Nat) (id : String) (report : Report) :
    Tidy (store limit rs second id report) second :=
  (h.append id report).sublist (List.drop_sublist _ _)

end Tidy

/-! ## What is alive -/

/-- The reports whose lifetime is not over. -/
def alive (lifetime second : Nat) (rs : List Recent) : List Recent :=
  rs.filter (isAlive lifetime second)

section Alive

variable {lifetime second limit : Nat} {rs others : List Recent}

/-- What is alive later is alive before. -/
theorem alive_alive {later : Nat} (hle : second ≤ later) (rs : List Recent) :
    alive lifetime later (alive lifetime second rs) = alive lifetime later rs := by
  rw [alive, alive, List.filter_filter]
  refine List.filter_congr fun r _ => ?_
  simp only [isAlive, Bool.and_eq_left_iff_imp, decide_eq_true_eq]
  omega

theorem alive_without (id : String) (rs : List Recent) :
    alive lifetime second (without id rs) = without id (alive lifetime second rs) := by
  rw [alive, without, without, alive, List.filter_filter, List.filter_filter]
  refine List.filter_congr fun r _ => ?_
  rw [Bool.and_comm]

theorem alive_append (rs others : List Recent) :
    alive lifetime second (rs ++ others)
      = alive lifetime second rs ++ alive lifetime second others := List.filter_append ..

/-- What is over stands in front. -/
theorem exists_eq_append_alive (lifetime second : Nat)
    (h : rs.Pairwise fun a b => a.second ≤ b.second) :
    ∃ gone, rs = gone ++ alive lifetime second rs ∧ alive lifetime second gone = [] := by
  induction rs with
  | nil => exact ⟨[], rfl, rfl⟩
  | cons r rs ih =>
    obtain ⟨hfirst, hrest⟩ := List.pairwise_cons.1 h
    by_cases hr : isAlive lifetime second r = true
    · -- all that follow are younger
      have hall : alive lifetime second rs = rs := by
        refine List.filter_eq_self.2 fun a ha => ?_
        have hle := hfirst a ha
        simp only [isAlive, decide_eq_true_eq] at hr ⊢
        omega
      have hcons : alive lifetime second (r :: rs) = r :: rs := by
        rw [alive, List.filter_cons_of_pos hr]
        exact congrArg (r :: ·) hall
      exact ⟨[], by rw [hcons, List.nil_append], rfl⟩
    · obtain ⟨gone, hsplit, hgone⟩ := ih hrest
      have hcons : alive lifetime second (r :: rs) = alive lifetime second rs :=
        List.filter_cons_of_neg hr
      refine ⟨r :: gone, ?_, ?_⟩
      · rw [hcons, List.cons_append, ← hsplit]
      · rw [alive, List.filter_cons_of_neg hr]
        exact hgone

/-- Past the limit what is over goes first, so it makes no difference to what is alive
whether it counts. -/
theorem alive_drop (h : rs.Pairwise fun a b => a.second ≤ b.second) (limit : Nat) :
    alive lifetime second (rs.drop (rs.length - limit))
      = (alive lifetime second rs).drop ((alive lifetime second rs).length - limit) := by
  obtain ⟨gone, hsplit, hgone⟩ := exists_eq_append_alive lifetime second h
  generalize halive : alive lifetime second rs = young at hsplit ⊢
  have hyoung : alive lifetime second young = young := by
    rw [← halive, alive_alive (Nat.le_refl _)]
  subst hsplit
  rw [List.length_append]
  by_cases hk : gone.length + young.length - limit ≤ gone.length
  · -- only what is over goes
    have hroom : young.length - limit = 0 := by omega
    have hdropped : alive lifetime second (gone.drop (gone.length + young.length - limit)) = [] := by
      refine List.filter_eq_nil_iff.2 fun r hr => ?_
      exact List.filter_eq_nil_iff.1 hgone r (List.mem_of_mem_drop hr)
    rw [List.drop_append_of_le_length hk, alive_append, hdropped, hyoung, hroom, List.nil_append,
      List.drop_zero]
  · -- all that is over goes, and as many of the others as without it
    have hmore : gone.length + young.length - limit = gone.length + (young.length - limit) := by
      omega
    rw [hmore, List.drop_append, List.drop_eq_nil_of_le (by omega), List.nil_append,
      Nat.add_sub_cancel_left]
    refine List.filter_eq_self.2 fun r hr => ?_
    exact List.filter_eq_self.1 hyoung r (List.mem_of_mem_drop hr)

/-- **What is alive after storing** depends on what was alive before. -/
theorem alive_store {later : Nat} (h : Tidy rs later) (h' : Tidy others later)
    (hsame : alive lifetime later rs = alive lifetime later others) (limit : Nat) (id : String)
    (report : Report) :
    alive lifetime later (store limit rs later id report)
      = alive lifetime later (store limit others later id report) := by
  have hlonger : alive lifetime later (without id rs ++ [⟨id, report, later⟩])
      = alive lifetime later (without id others ++ [⟨id, report, later⟩]) := by
    rw [alive_append, alive_append, alive_without, alive_without, hsame]
  rw [store, store, alive_drop (h.append id report).ordered,
    alive_drop (h'.append id report).ordered, hlonger]

/-- What is answered is what is alive. -/
theorem get_eq (h : (rs.map id).Nodup) (i : String) :
    get lifetime rs second i
      = ((alive lifetime second rs).find? fun r => r.id = i).map report := by
  rw [get]
  congr 1
  induction rs with
  | nil => rfl
  | cons r rs ih =>
    obtain ⟨hfirst, hrest⟩ := List.nodup_cons.1 h
    by_cases hi : r.id = i
    · rw [List.find?_cons_of_pos (by simpa using hi)]
      by_cases hr : isAlive lifetime second r = true
      · rw [alive, List.filter_cons_of_pos hr, List.find?_cons_of_pos (by simpa using hi)]
        simp [Option.filter, hr]
      · -- no other report has the id
        have hnone : (alive lifetime second rs).find? (fun r => r.id = i) = none := by
          refine List.find?_eq_none.2 fun a ha hai => hfirst ?_
          rw [hi, ← of_decide_eq_true hai]
          exact List.mem_map_of_mem (List.mem_filter.1 ha).1
        rw [alive, List.filter_cons_of_neg hr, ← alive, hnone]
        simp [Option.filter, hr]
    · rw [List.find?_cons_of_neg (by simpa using hi), ih hrest]
      by_cases hr : isAlive lifetime second r = true
      · rw [alive, alive, List.filter_cons_of_pos hr, List.find?_cons_of_neg (by simpa using hi)]
      · rw [alive, alive, List.filter_cons_of_neg hr]

end Alive

end Recent

end PatternAudit.Cache
