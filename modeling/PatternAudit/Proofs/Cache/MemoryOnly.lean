/-
A cache without files.

Without a directory a cache is a list of the most recently stored reports: whatever is
called, it answers what the list answers (`memory_holds_most_recent`). Nothing is found in
files, so a call that asks for a report changes nothing, and the order in which entries go
is the order in which they were stored.
-/
import PatternAudit.Proofs.Cache.Recency

set_option autoImplicit false

namespace PatternAudit.Cache

open Files (Disk)

section NoDirectory

variable {c : Cache} (hnone : c.directory = none)

include hnone

/-- Asking for a report changes nothing. -/
theorem get_of_no_directory (d : Disk) (now : Nat) (id : String) :
    left (c.get d now id) = (c, d) := by
  have hfile := entryIn?_of_no_directory hnone d id
  have h := c.got d now id
  generalize c.get d now id = outcome at h ⊢
  cases h with
  | noId => rfl
  | held => rfl
  | missing => rfl
  | promoted e _ _ hfound => rw [hfile] at hfound; cases hfound
  | expired e _ _ hfound => rw [hfile] at hfound; cases hfound

/-- What is answered is what is held. -/
theorem get_fst_of_no_directory {id : String} (hid : isId id = true) (d : Disk) (now : Nat) :
    (c.get d now id).1 = (c.heldFresh? now id).map Entry.report := by
  rw [get_fst, if_pos hid, entryIn?_of_no_directory hnone, Option.filter_none, Option.or_none]

end NoDirectory

/-- A cache without files keeps up with the list. -/
theorem keepsUp_of_no_directory :
    KeepsUp fun c _ calls => c.directory = none ∧ ∀ x ∈ calls, isId (x.2.id x.1) = true where
  id h := h.2 _ List.mem_cons_self
  rest h _ _ := ⟨(sameSettings_perform ..).directory.trans h.1,
    fun x hx => h.2 x (List.mem_cons_of_mem _ hx)⟩
  get {c d now id rest} h rs hrecalls := by
    have hid : isId id = true := h.2 _ List.mem_cons_self
    have hleft : c.perform d now (.get id) = (c, d) := get_of_no_directory h.1 d now id
    rw [get_fst_of_no_directory h.1 hid, hleft]
    exact ⟨hrecalls.get id, hrecalls⟩

/-- **A cache without files holds what was stored most recently.** Whatever is called under
ids, with a clock that does not go back: each time a report is asked for, the answer is that
of the list. At any time, what is stored then is held afterwards, whatever goes for it;
asking for a report changes nothing; and a report is answered only before its lifetime is
over. -/
theorem memory_holds_most_recent (lifetime limit next : Nat) (d : Disk)
    (calls : List (Nat × Call)) (hids : ∀ x ∈ calls, isId (x.2.id x.1) = true)
    (hclock : (calls.map Prod.fst).Pairwise (· ≤ ·)) :
    (empty none lifetime limit next).answers d calls
        = Recent.answers (max limit 1) lifetime [] calls ∧
      ∀ c' d', (empty none lifetime limit next).run d calls = (c', d') → ∀ now id,
        (∀ report, isId id = true → (∀ x ∈ calls, x.1 ≤ now) →
          Json.lookup id (left (c'.store d' now id report)).1.kept
            = some (c'.entryAt now report)) ∧
        left (c'.get d' now id) = (c', d') ∧
        ∀ report, (c'.get d' now id).1 = some report →
          ∃ e, Json.lookup id c'.kept = some e ∧ e.report = report ∧
            seconds now - e.storedAt < lifetime := by
  have hfits : (empty none lifetime limit next).directory = none ∧
      ∀ x ∈ calls, isId (x.2.id x.1) = true := ⟨rfl, hids⟩
  obtain ⟨hanswers, hend⟩ := keepsUp_of_no_directory.run calls (d := d) hfits hclock
    (recalls_empty none lifetime limit next) fun _ _ => Nat.zero_le _
  refine ⟨hanswers, ?_⟩
  intro c' d' hrun now id
  have hsettings := (empty none lifetime limit next).sameSettings_run d calls
  rw [hrun] at hend hsettings
  refine ⟨?_, get_of_no_directory hsettings.directory d' now id, ?_⟩
  · intro report hid hbefore
    have hrecalls := hend (seconds now) (Nat.zero_le _) fun x hx =>
      Nat.div_le_div_right (hbefore x hx)
    obtain ⟨es, hes, -⟩ := hrecalls.inOrder
    rw [store_cache hid, lookup_keep, if_neg (hes.not_mem_evicted id report), if_pos rfl]
  · intro report hanswer
    cases hid : isId id with
    | false =>
      rw [get_fst, hid] at hanswer
      cases hanswer
    | true =>
      rw [get_fst_of_no_directory hsettings.directory hid] at hanswer
      obtain ⟨e, hheld, he⟩ := Option.map_eq_some_iff.1 hanswer
      obtain ⟨hlookup, hfresh⟩ := Option.filter_eq_some_iff.1 hheld
      have hlifetime : c'.lifetime = lifetime := hsettings.lifetime
      rw [hlifetime] at hfresh
      exact ⟨e, hlookup, he, of_decide_eq_true hfresh⟩

/-- Of three reports that are stored in one second in a cache for two, the first one goes,
whatever the ids are. -/
theorem memory_holds_last_two :
    let report (document : String) : Report := { (default : Report) with document }
    let calls : List (Nat × Call) := [(0, .store "z" (report "1")), (0, .store "y" (report "2")),
      (0, .store "a" (report "3")), (5, .get "z"), (5, .get "y"), (5, .get "a")]
    (∀ x ∈ calls, isId (x.2.id x.1) = true) ∧ (calls.map Prod.fst).Pairwise (· ≤ ·) ∧
      (empty none 3600 2 0).answers ⟨.directory [], []⟩ calls
        = [none, some (report "2"), some (report "3")] := by
  intro report calls
  have hids : ∀ x ∈ calls, isId (x.2.id x.1) = true := by decide +kernel
  have hclock : (calls.map Prod.fst).Pairwise (· ≤ ·) := by decide +kernel
  have hlist : Recent.answers (max 2 1) 3600 [] calls
      = [none, some (report "2"), some (report "3")] := by
    decide +kernel
  exact ⟨hids, hclock,
    (memory_holds_most_recent 3600 2 0 ⟨.directory [], []⟩ calls hids hclock).1.trans hlist⟩

end PatternAudit.Cache
