/-
What the calls of a cache can do.

`Stored` and `Got` list the outcomes of `store` and `get`, each with what has led to it, and
`stored` and `got` say that there are no others. What holds after every call is proved by
their cases. `insert` is a `store` under a new id, which is always an id.
-/
import PatternAudit.Proofs.Cache.Ids
import PatternAudit.Proofs.Cache.Kept

set_option autoImplicit false

namespace PatternAudit.Cache

open Files (Device Disk Fault Path)

/-! ## Storing -/

/-- The entry that is stored at a time. -/
def entryAt (c : Cache) (now : Nat) (report : Report) : Entry := ⟨report, seconds now, c.next⟩

/-- The outcomes of storing a report. -/
inductive Stored (c : Cache) (d : Disk) (now : Nat) (id : String) (report : Report) :
    Except Error Report × Cache × Disk → Prop where
  /-- The id is none. -/
  | noId (hid : isId id = false) : Stored c d now id report (.error (invalidId id), c, d)
  /-- The entry is in memory, and its file cannot be written, or not to its end. -/
  | unwritten (fault : Fault) (d' : Disk) (hid : isId id = true)
      (hwrite : (c.keep d id (c.entryAt now report)).1.writeEntry
        (c.keep d id (c.entryAt now report)).2 id (c.entryAt now report) now = (.error fault, d')) :
      Stored c d now id report
        (.error (.io fault.message), (c.keep d id (c.entryAt now report)).1, d')
  /-- The entry is in memory and in its file. -/
  | written (d' : Disk) (hid : isId id = true)
      (hwrite : (c.keep d id (c.entryAt now report)).1.writeEntry
        (c.keep d id (c.entryAt now report)).2 id (c.entryAt now report) now = (.ok (), d')) :
      Stored c d now id report (.ok report, (c.keep d id (c.entryAt now report)).1,
        (c.keep d id (c.entryAt now report)).1.prune d')

theorem stored (c : Cache) (d : Disk) (now : Nat) (id : String) (report : Report) :
    Stored c d now id report (c.store d now id report) := by
  unfold store
  cases hid : isId id with
  | false => exact .noId hid
  | true =>
    simp only [Bool.not_true, Bool.false_eq_true, if_false]
    rcases hwrite : (c.keep d id (c.entryAt now report)).1.writeEntry
        (c.keep d id (c.entryAt now report)).2 id (c.entryAt now report) now with ⟨result, d'⟩
    cases result with
    | error fault =>
      rw [entryAt] at hwrite
      rw [hwrite]
      exact .unwritten fault d' hid hwrite
    | ok =>
      rw [entryAt] at hwrite
      rw [hwrite]
      exact .written d' hid hwrite

/-- Where the id is none, storing changes nothing. -/
theorem Stored.eq_of_not_isId {c : Cache} {d : Disk} {now : Nat} {id : String} {report : Report}
    {outcome : Except Error Report × Cache × Disk} (h : c.Stored d now id report outcome)
    (hid : isId id = false) : outcome = (.error (invalidId id), c, d) := by
  cases h with
  | noId => rfl
  | unwritten _ _ hid' => rw [hid] at hid'; cases hid'
  | written _ hid' => rw [hid] at hid'; cases hid'

theorem insert_eq (c : Cache) (d : Disk) (now made : Nat) (report : Report) :
    c.insert d now made report
      = ((c.store d now (mintId now made) report).1.map fun _ => mintId now made,
          (c.store d now (mintId now made) report).2) := by
  rw [insert]

/-! ## Getting -/

/-- The entry of an id that is held in memory and not gone. -/
def heldFresh? (c : Cache) (now : Nat) (id : String) : Option Entry :=
  (Json.lookup id c.kept).filter (Entry.isFresh c.lifetime (seconds now))

/-- The outcomes of getting the result of an id. -/
inductive Got (c : Cache) (d : Disk) (now : Nat) (id : String) :
    Option Report × Cache × Disk → Prop where
  /-- The id is none. -/
  | noId (hid : isId id = false) : Got c d now id (none, c, d)
  /-- The entry is in memory. -/
  | held (e : Entry) (hid : isId id = true) (hheld : c.heldFresh? now id = some e) :
      Got c d now id (some e.report, c, d)
  /-- There is no entry. -/
  | missing (hid : isId id = true) (hheld : c.heldFresh? now id = none)
      (hfile : c.entryIn? d id = none) : Got c d now id (none, c, d)
  /-- The entry is in its file, and from now on in memory. -/
  | promoted (e : Entry) (hid : isId id = true) (hheld : c.heldFresh? now id = none)
      (hfile : c.entryIn? d id = some e) (hfresh : e.isFresh c.lifetime (seconds now) = true) :
      Got c d now id (some e.report, { c with kept := putKept id e c.kept }, d)
  /-- The lifetime of the entry is over. -/
  | expired (e : Entry) (hid : isId id = true) (hheld : c.heldFresh? now id = none)
      (hfile : c.entryIn? d id = some e) (hfresh : e.isFresh c.lifetime (seconds now) = false) :
      Got c d now id (none, c.remove d id)

theorem got (c : Cache) (d : Disk) (now : Nat) (id : String) :
    Got c d now id (c.get d now id) := by
  unfold get
  cases hid : isId id with
  | false => exact .noId hid
  | true =>
    simp only [Bool.not_true, Bool.false_eq_true, if_false]
    cases hheld : (Json.lookup id c.kept).filter (Entry.isFresh c.lifetime (seconds now)) with
    | some e => exact .held e hid hheld
    | none =>
      cases hfile : c.entryIn? d id with
      | none => exact .missing hid hheld hfile
      | some e =>
        dsimp only
        split
        · rename_i hfresh
          exact .promoted e hid hheld hfile hfresh
        · rename_i hfresh
          exact .expired e hid hheld hfile (Bool.eq_false_iff.2 hfresh)

/-- The answer of `get` in one expression. -/
theorem get_fst (c : Cache) (d : Disk) (now : Nat) (id : String) :
    (c.get d now id).1 = if isId id then
      ((c.heldFresh? now id).or
        ((c.entryIn? d id).filter (Entry.isFresh c.lifetime (seconds now)))).map Entry.report
      else none := by
  have h := c.got d now id
  generalize c.get d now id = outcome at h ⊢
  cases h with
  | noId hid => simp [hid]
  | held e hid hheld => simp [hid, hheld]
  | missing hid hheld hfile => simp [hid, hheld, hfile]
  | promoted e hid hheld hfile hfresh => simp [hid, hheld, hfile, Option.filter, hfresh]
  | expired e hid hheld hfile hfresh => simp [hid, hheld, hfile, Option.filter, hfresh]

theorem entryIn?_eq_some_iff {c : Cache} {d : Disk} {id : String} {e : Entry} :
    c.entryIn? d id = some e ↔
      ∃ p s, c.file? id = some p ∧ d.readText p = .ok s ∧ Entry.ofText? s = some e := by
  unfold entryIn?
  cases c.file? id with
  | none => simp
  | some p =>
    cases hread : d.readText p with
    | error fault => simp [Except.toOption, hread]
    | ok s => simp [Except.toOption, hread]

/-- Without a directory no entry is in a file. -/
theorem entryIn?_of_no_directory {c : Cache} (h : c.directory = none) (d : Disk) (id : String) :
    c.entryIn? d id = none := by
  simp [entryIn?, file?, h]

/-! ## Calls -/

/-- A call of a cache. -/
inductive Call where
  | store (id : String) (report : Report)
  /-- Stores under a new id, when `made` ids have been made before. -/
  | insert (made : Nat) (report : Report)
  | get (id : String)
  | remove (id : String)

/-- The id that a call at a time is about. -/
def Call.id (now : Nat) : Call → String
  | .store id _ => id
  | .insert made _ => mintId now made
  | .get id => id
  | .remove id => id

/-- The id that a call asks for. -/
def Call.asked? : Call → Option String
  | .get id => some id
  | _ => none

/-- The cache and the disk that a call leaves, without its answer. -/
def left {α : Type} (outcome : α × Cache × Disk) : Cache × Disk := outcome.2

theorem left_mk {α β : Type} (a : α) (outcome : β × Cache × Disk) :
    left (a, outcome.2) = left outcome := rfl

/-- The cache and the disk after a call. -/
def perform (c : Cache) (d : Disk) (now : Nat) : Call → Cache × Disk
  | .store id report => left (c.store d now id report)
  | .insert made report => left (c.insert d now made report)
  | .get id => left (c.get d now id)
  | .remove id => c.remove d id

/-- The cache and the disk after calls, each at its time. -/
def run (c : Cache) (d : Disk) : List (Nat × Call) → Cache × Disk
  | [] => (c, d)
  | (now, call) :: rest => run (c.perform d now call).1 (c.perform d now call).2 rest

/-- What is answered to those of the calls that ask for a report. -/
def answers (c : Cache) (d : Disk) : List (Nat × Call) → List (Option Report)
  | [] => []
  | (now, call) :: rest =>
    (call.asked?.map fun id => (c.get d now id).1).toList
      ++ answers (c.perform d now call).1 (c.perform d now call).2 rest

/-- Inserting leaves what storing under the new id leaves. -/
theorem perform_insert (c : Cache) (d : Disk) (now made : Nat) (report : Report) :
    c.perform d now (.insert made report)
      = c.perform d now (.store (mintId now made) report) :=
  calc c.perform d now (.insert made report)
      = left (c.insert d now made report) := by rw [perform]
    _ = left (c.store d now (mintId now made) report) := by rw [insert_eq, left_mk]
    _ = c.perform d now (.store (mintId now made) report) := by rw [perform]

/-- What all outcomes of storing, getting and removing have in common holds after every call. -/
theorem perform_of_outcomes {c : Cache} {d : Disk} {now : Nat} {P : Cache × Disk → Prop}
    (hstored : ∀ id report outcome, c.Stored d now id report outcome → P (left outcome))
    (hgot : ∀ id outcome, c.Got d now id outcome → P (left outcome))
    (hremoved : ∀ id, P (c.remove d id)) (call : Call) : P (c.perform d now call) := by
  cases call with
  | store id report => exact hstored id report _ (c.stored d now id report)
  | insert made report =>
    rw [perform_insert, perform]
    exact hstored (mintId now made) report _ (c.stored d now (mintId now made) report)
  | get id => exact hgot id _ (c.got d now id)
  | remove id => exact hremoved id

/-! ## Ids -/

/-- Whether there are only ids in memory. -/
def HoldsIds (c : Cache) : Prop := ∀ x ∈ c.kept, isId x.1 = true

section HoldsIds

variable {c : Cache} {d : Disk} {now : Nat} {id : String}

theorem holdsIds_empty (directory : Option Path) (lifetime limit next : Nat) (device : Device) :
    (empty directory lifetime limit next device).HoldsIds :=
  fun _ h => absurd h List.not_mem_nil

/-- An entry is set under an id only. -/
theorem HoldsIds.put (h : c.HoldsIds) (hid : isId id = true) (e : Entry) :
    ∀ x ∈ putKept id e c.kept, isId x.1 = true := by
  intro x hx
  rcases mem_putKept hx with hsame | hmem
  · rw [hsame]
    exact hid
  · exact h x hmem

/-- Nothing is evicted but ids. -/
theorem HoldsIds.evicted (h : c.HoldsIds) (hid : isId id = true) (e : Entry) :
    ∀ i ∈ c.evicted id e, isId i = true := by
  intro i hi
  obtain ⟨held, hmem⟩ := of_mem_surplus hi
  exact h.put hid e _ hmem

theorem HoldsIds.keep (h : c.HoldsIds) (hid : isId id = true) (e : Entry) :
    (c.keep d id e).1.HoldsIds := by
  intro x hx
  rw [kept_keep] at hx
  exact h.put hid e x (List.mem_filter.1 hx).1

theorem Stored.holdsIds {report : Report} {outcome : Except Error Report × Cache × Disk}
    (ho : c.Stored d now id report outcome) (h : c.HoldsIds) : (left outcome).1.HoldsIds := by
  cases ho with
  | noId => exact h
  | unwritten _ _ hid => exact h.keep (d := d) hid _
  | written _ hid => exact h.keep (d := d) hid _

theorem Got.holdsIds {outcome : Option Report × Cache × Disk} (ho : c.Got d now id outcome)
    (h : c.HoldsIds) : (left outcome).1.HoldsIds := by
  cases ho with
  | noId => exact h
  | held => exact h
  | missing => exact h
  | promoted e hid => exact h.put hid e
  | expired => exact fun x hx => h x (List.mem_filter.1 hx).1

end HoldsIds

/-- No call sets an entry under anything but an id. -/
theorem HoldsIds.perform {c : Cache} (h : c.HoldsIds) (d : Disk) (now : Nat) (call : Call) :
    (c.perform d now call).1.HoldsIds := by
  refine perform_of_outcomes (P := fun s => s.1.HoldsIds) ?_ ?_ ?_ call
  · exact fun _ _ _ ho => ho.holdsIds h
  · exact fun _ _ ho => ho.holdsIds h
  · exact fun _ x hx => h x (List.mem_filter.1 hx).1

/-! ## Settings -/

/-- Whether a cache goes by the settings of another one. -/
structure SameSettings (c c' : Cache) : Prop where
  directory : c'.directory = c.directory
  device : c'.device = c.device
  lifetime : c'.lifetime = c.lifetime
  limit : c'.limit = c.limit

section SameSettings

variable {c : Cache} {d : Disk} {now : Nat} {id : String}

theorem Stored.sameSettings {report : Report} {outcome : Except Error Report × Cache × Disk}
    (h : c.Stored d now id report outcome) : c.SameSettings (left outcome).1 := by
  cases h <;> exact ⟨rfl, rfl, rfl, rfl⟩

theorem Got.sameSettings {outcome : Option Report × Cache × Disk} (h : c.Got d now id outcome) :
    c.SameSettings (left outcome).1 := by
  cases h <;> exact ⟨rfl, rfl, rfl, rfl⟩

end SameSettings

/-- No call changes the settings. -/
theorem sameSettings_perform (c : Cache) (d : Disk) (now : Nat) (call : Call) :
    c.SameSettings (c.perform d now call).1 := by
  refine perform_of_outcomes (P := fun s => c.SameSettings s.1) ?_ ?_ ?_ call
  · exact fun _ _ _ ho => ho.sameSettings
  · exact fun _ _ ho => ho.sameSettings
  · exact fun _ => ⟨rfl, rfl, rfl, rfl⟩

theorem sameSettings_run (c : Cache) (d : Disk) (calls : List (Nat × Call)) :
    c.SameSettings (c.run d calls).1 := by
  induction calls generalizing c d with
  | nil => exact ⟨rfl, rfl, rfl, rfl⟩
  | cons x calls ih =>
    have hfirst := c.sameSettings_perform d x.1 x.2
    have hrest := ih (c.perform d x.1 x.2).1 (c.perform d x.1 x.2).2
    exact ⟨hrest.directory.trans hfirst.directory, hrest.device.trans hfirst.device,
      hrest.lifetime.trans hfirst.lifetime, hrest.limit.trans hfirst.limit⟩

end PatternAudit.Cache
