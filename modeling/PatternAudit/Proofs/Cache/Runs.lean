/-
What holds of a cache after any number of calls.

`store` and `insert` leave no more entries in memory than the limit. `get` does not look at
the limit: what it finds in a file it sets in memory, and nothing goes for it. So what is in
memory can be past the limit by the entries that were read from files since something was
stored last, and by no more (`size_run_le`); nothing else can get past it, and a cache
without files never does (`size_run_le_of_no_directory`).

The bound is kept by every call, whatever the disk looks like that the call finds. Others
may change the disk between two calls.
-/
import PatternAudit.Proofs.Cache.Calls

set_option autoImplicit false

namespace PatternAudit.Cache

open Files (Device Disk Path)

/-- Whether a call stores something. -/
def Call.stores : Call → Bool
  | .store id _ => isId id
  | .insert _ _ => true
  | .get _ => false
  | .remove _ => false

/-- Whether a call finds an entry in a file and sets it in memory. -/
def promotes (c : Cache) (d : Disk) (now : Nat) : Call → Bool
  | .get id =>
    isId id && (c.heldFresh? now id).isNone
      && ((c.entryIn? d id).filter (Entry.isFresh c.lifetime (seconds now))).isSome
  | _ => false

/-! ## One call -/

section Call

variable {c : Cache} {d : Disk} {now : Nat} {id : String}

theorem Stored.size_le {report : Report} {outcome : Except Error Report × Cache × Disk}
    (h : c.Stored d now id report outcome) (hid : isId id = true) :
    (left outcome).1.size ≤ c.limit := by
  cases h with
  | noId hno => rw [hid] at hno; cases hno
  | unwritten => exact size_keep_le c d id _
  | written => exact size_keep_le c d id _

/-- Getting adds an entry only where it finds one in a file. -/
theorem Got.size_le {outcome : Option Report × Cache × Disk} (h : c.Got d now id outcome) :
    (left outcome).1.size ≤ c.size + (c.promotes d now (.get id)).toNat := by
  cases h with
  | noId => exact Nat.le_add_right _ _
  | held => exact Nat.le_add_right _ _
  | missing => exact Nat.le_add_right _ _
  | promoted e hid hheld hfile hfresh =>
    have hpromotes : c.promotes d now (.get id) = true := by
      simp [promotes, hid, hheld, hfile, Option.filter, hfresh]
    rw [hpromotes]
    exact length_putKept_le ..
  | expired => exact Nat.le_trans (length_dropKept_le ..) (Nat.le_add_right _ _)

/-- **One call.** A call that stores leaves no more than the limit, and any other call adds
no more than what it finds in a file. -/
theorem size_perform_le (c : Cache) (d : Disk) (now : Nat) (call : Call) :
    (c.perform d now call).1.size
      ≤ if call.stores then c.limit else c.size + (c.promotes d now call).toNat := by
  cases call with
  | store id report =>
    rw [Call.stores]
    cases hid : isId id with
    | true => exact (c.stored d now id report).size_le hid
    | false =>
      rw [perform, (c.stored d now id report).eq_of_not_isId hid]
      exact Nat.le_add_right _ _
  | insert made report =>
    rw [perform_insert, perform]
    exact (c.stored d now (mintId now made) report).size_le (isId_mintId now made)
  | get id => exact (c.got d now id).size_le
  | remove id => exact Nat.le_trans (length_dropKept_le ..) (Nat.le_add_right _ _)

end Call

/-! ## Any number of calls -/

/-- What happens to a cache and its disk. -/
inductive Event where
  | call (now : Nat) (call : Call)
  /-- Somebody else changes the disk. -/
  | change (d : Disk)

/-- A cache in use: with its disk, and with the number of entries that were read from files
since something was stored last. -/
structure Session where
  cache : Cache
  disk : Disk
  promoted : Nat

/-- A session after an event. -/
def Session.after (s : Session) : Event → Session
  | .call now call =>
    { cache := (s.cache.perform s.disk now call).1
      disk := (s.cache.perform s.disk now call).2
      promoted :=
        if call.stores then 0 else s.promoted + (s.cache.promotes s.disk now call).toNat }
  | .change d => { s with disk := d }

/-- A session after events. -/
def Session.run (s : Session) (events : List Event) : Session := events.foldl Session.after s

/-- What every event keeps holds of every run. -/
theorem Session.run_induction {P : Session → Prop} (hstep : ∀ s e, P s → P (s.after e))
    (events : List Event) {s : Session} (h : P s) : P (s.run events) := by
  induction events generalizing s with
  | nil => exact h
  | cons e events ih => exact ih (hstep s e h)

/-- A session keeps to the directory that it starts with. -/
theorem directory_session_run (s : Session) (events : List Event) :
    (s.run events).cache.directory = s.cache.directory := by
  refine Session.run_induction (P := fun t => t.cache.directory = s.cache.directory) ?_ events rfl
  intro t e h
  cases e with
  | change d => exact h
  | call now call => exact (t.cache.sameSettings_perform t.disk now call).directory.trans h

/-! ## The limit -/

/-- Whether no more is in memory than a bound allows, and what was read from files. -/
structure Session.Within (s : Session) (bound : Nat) : Prop where
  limit : s.cache.limit = bound
  size : s.cache.size ≤ bound + s.promoted

theorem Session.Within.after {s : Session} {bound : Nat} (h : s.Within bound) (e : Event) :
    (s.after e).Within bound := by
  cases e with
  | change d => exact ⟨h.limit, h.size⟩
  | call now call =>
    refine ⟨(s.cache.sameSettings_perform s.disk now call).limit.trans h.limit, ?_⟩
    have hcall := size_perform_le s.cache s.disk now call
    have hbefore := h.size
    rw [h.limit] at hcall
    simp only [Session.after]
    cases hstores : call.stores with
    | true =>
      rw [hstores, if_pos rfl] at hcall
      exact hcall
    | false =>
      rw [hstores, if_neg Bool.false_ne_true] at hcall
      rw [if_neg Bool.false_ne_true]
      omega

/-- **The limit holds but for what is read from files.** Whatever the directory of a new
cache holds, whatever is called, whatever the storage fails to take and whatever others do to
the disk: there are never more entries in memory than the limit, at least one, and those that
were read from files since something was stored last. -/
theorem size_run_le (directory : Option Path) (lifetime limit next : Nat) (device : Device)
    (d : Disk) (events : List Event) :
    (Session.run ⟨empty directory lifetime limit next device, d, 0⟩ events).cache.size
      ≤ max limit 1
        + (Session.run ⟨empty directory lifetime limit next device, d, 0⟩ events).promoted := by
  have hempty : Session.Within ⟨empty directory lifetime limit next device, d, 0⟩ (max limit 1) :=
    ⟨rfl, Nat.zero_le _⟩
  have hstep : ∀ (s : Session) (e : Event), s.Within (max limit 1) →
      (s.after e).Within (max limit 1) := fun _ e h => h.after e
  exact (Session.run_induction hstep events hempty).size

/-- Two reads of files that somebody else has written put two entries into a cache that is
limited to one. -/
theorem limit_passed_by_reading :
    let file : Files.Node := .file ⟨.text (Entry.text ⟨default, 0, 0⟩), 0⟩
    let d : Disk :=
      ⟨.directory [("results", .directory [("a.json", file), ("b.json", file)])], []⟩
    let s : Session := ⟨empty (some ⟨true, ["results"]⟩) 3600 1 0, d, 0⟩
    max 1 1 < (s.run [.call 0 (.get "a"), .call 0 (.get "b")]).cache.size := by
  decide +kernel

/-- Without a directory there is no file to read an entry from. -/
theorem promotes_of_no_directory {c : Cache} (h : c.directory = none) (d : Disk) (now : Nat)
    (call : Call) : c.promotes d now call = false := by
  cases call with
  | get id =>
    simp [promotes, entryIn?_of_no_directory h]
  | _ => rfl

/-- Without files the limit holds. -/
theorem size_run_le_of_no_directory (lifetime limit next : Nat) (device : Device) (d : Disk)
    (events : List Event) :
    (Session.run ⟨empty none lifetime limit next device, d, 0⟩ events).cache.size
      ≤ max limit 1 := by
  have hstep : ∀ (s : Session) (e : Event), s.cache.directory = none ∧ s.promoted = 0 →
      (s.after e).cache.directory = none ∧ (s.after e).promoted = 0 := by
    rintro s e ⟨hnone, hzero⟩
    cases e with
    | change d => exact ⟨hnone, hzero⟩
    | call now call =>
      refine ⟨(s.cache.sameSettings_perform s.disk now call).directory.trans hnone, ?_⟩
      simp only [Session.after, promotes_of_no_directory hnone, hzero]
      split <;> rfl
  have hpromoted := (Session.run_induction hstep events
    (s := ⟨empty none lifetime limit next device, d, 0⟩) ⟨rfl, rfl⟩).2
  have hsize := size_run_le none lifetime limit next device d events
  rw [hpromoted] at hsize
  exact hsize

/-! ## Ids -/

/-- Nothing is in memory under a text that is no id. -/
theorem holdsIds_run (directory : Option Path) (lifetime limit next : Nat) (device : Device)
    (d : Disk) (events : List Event) :
    (Session.run ⟨empty directory lifetime limit next device, d, 0⟩ events).cache.HoldsIds := by
  refine Session.run_induction (P := fun s => s.cache.HoldsIds) ?_ events
    (holdsIds_empty directory lifetime limit next device)
  intro s e h
  cases e with
  | change d => exact h
  | call now call => exact h.perform s.disk now call

end PatternAudit.Cache
