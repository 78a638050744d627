/-
What a store leaves when it fails.

Under a text that is no id nothing is stored, and nothing changes. Otherwise a store can
fail only at its file, and by then the entry is in memory and the oldest entries past the
limit are gone, with those of their files that could be removed. Nothing of this is taken
back: the cache goes on as one without files would (`Unwritten.memory`). If the file could be
opened, it is there as well, new or overwritten, with a beginning of what it should hold
(`IsBrokenOff`). What is not touched is everything else: no other file is made or changed,
only files of what is evicted are gone, and other ids are answered as before
(`Unwritten.others`).

The last is said of a directory without links. A link of the directory may lead to the file
of another id, which then is gone or overwritten too.
-/
import PatternAudit.Proofs.Cache.Calls
import PatternAudit.Proofs.Files.Written

set_option autoImplicit false

namespace PatternAudit.Cache

open Files (Content Device Disk Fault File Path Place)

/-! ## Discarded files -/

section Discard

variable {c : Cache} {d : Disk}

/-- Discarding an id removes its file or does nothing. -/
theorem discard_cases (c : Cache) (d : Disk) (i : String) :
    c.discard d i = d ∨ ∃ p, c.file? i = some p ∧ d.remove p = .ok (c.discard d i) := by
  unfold discard
  cases hfile : c.file? i with
  | none => exact .inl rfl
  | some p => exact (Disk.removeFrom_cases c.device d p).imp_right fun hremove => ⟨p, rfl, hremove⟩

/-- Whether a place is that of the file of one of some ids. Links of that name are not followed. -/
def IsFileOf (c : Cache) (d : Disk) (ids : List String) (place : Place) : Prop :=
  ∃ i ∈ ids, ∃ p, c.file? i = some p ∧ d.locateName p = .ok place

/-- Discarding leaves every place as it is, but for files of the ids. -/
theorem face_discards (ids : List String) (place : Place) :
    (ids.foldl c.discard d).root.face place = d.root.face place ∨
      (ids.foldl c.discard d).root.face place = none ∧ c.IsFileOf d ids place := by
  induction ids generalizing d with
  | nil => exact .inl rfl
  | cons i ids ih =>
    rw [List.foldl_cons]
    rcases c.discard_cases d i with hsame | ⟨p, hfile, hremove⟩
    · rw [hsame]
      refine ih.imp_right fun ⟨hnone, j, hj, hplace⟩ => ?_
      exact ⟨hnone, j, List.mem_cons_of_mem _ hj, hplace⟩
    · -- a file that is gone later is one that was there before
      have hothers : c.IsFileOf (c.discard d i) ids place → c.IsFileOf d (i :: ids) place := by
        rintro ⟨j, hj, q, hq, hplace⟩
        exact ⟨j, List.mem_cons_of_mem _ hj, q, hq, Disk.locateName_of_remove hremove hplace⟩
      rcases ih (d := c.discard d i) with hsame | ⟨hnone, hplace⟩
      · rw [hsame]
        refine (Disk.face_remove hremove place).imp_right fun ⟨hnone, hplace⟩ => ?_
        exact ⟨hnone, i, List.mem_cons_self, p, hfile, hplace⟩
      · exact .inr ⟨hnone, hothers hplace⟩

end Discard

/-! ## The files of other ids -/

/-- Whether no entry of the cache's directory is a link. -/
def HasNoLinks (c : Cache) (d : Disk) : Prop := ∀ p, c.directory = some p → d.HasNoLinks p

section Others

variable {c : Cache} {d d' : Disk} {i k : String}

/-- The entry of an id is found in its file where the file reads the same. -/
theorem entryIn?_of_readText (hk : isId k = true)
    (h : ∀ p s, c.directory = some p → (d'.readText (p.append ⟨false, [k ++ ".json"]⟩) = .ok s ↔
      d.readText (p.append ⟨false, [k ++ ".json"]⟩) = .ok s)) :
    c.entryIn? d' k = c.entryIn? d k := by
  refine Option.ext fun e => ?_
  rw [entryIn?_eq_some_iff, entryIn?_eq_some_iff]
  refine exists_congr fun q => exists_congr fun s => and_congr_right fun hq => ?_
  obtain ⟨p, hp, rfl⟩ := Option.map_eq_some_iff.1 ((file?_of_isId hk c).symm.trans hq)
  rw [h p s hp]

/-- Different ids have files of different names. -/
theorem fileName_ne (hne : k ≠ i) : k ++ ".json" ≠ i ++ ".json" :=
  fun hsame => hne (String.append_left_inj _ |>.1 hsame)

/-- Where the file of an id is discarded, there are no more links than before, and the entries
of other ids are found in their files. -/
theorem HasNoLinks.discard (hlinks : c.HasNoLinks d) (hi : isId i = true) :
    c.HasNoLinks (c.discard d i) ∧
      ∀ k, isId k = true → k ≠ i → c.entryIn? (c.discard d i) k = c.entryIn? d k := by
  rcases c.discard_cases d i with hsame | ⟨q, hfile, hremove⟩
  · rw [hsame]
    exact ⟨hlinks, fun _ _ _ => rfl⟩
  · -- the file of `i` is removed by its name from the directory
    obtain ⟨p, hp, rfl⟩ := Option.map_eq_some_iff.1 ((file?_of_isId hi c).symm.trans hfile)
    constructor
    · intro p' hp'
      rw [hp] at hp'
      cases hp'
      exact (hlinks p hp).remove hremove
    · intro k hk hne
      refine entryIn?_of_readText hk fun p' s hp' => ?_
      rw [hp] at hp'
      cases hp'
      exact Disk.readText_remove (hlinks p hp) (isName_of_isId hk) (fileName_ne hne) hremove s

/-- Discarding ids leaves the entries of all others in their files. -/
theorem HasNoLinks.discards {ids : List String} (hlinks : c.HasNoLinks d)
    (hids : ∀ j ∈ ids, isId j = true) :
    c.HasNoLinks (ids.foldl c.discard d) ∧
      ∀ k, isId k = true → k ∉ ids → c.entryIn? (ids.foldl c.discard d) k = c.entryIn? d k := by
  induction ids generalizing d with
  | nil => exact ⟨hlinks, fun _ _ _ => rfl⟩
  | cons j ids ih =>
    obtain ⟨hj, hrest⟩ := List.forall_mem_cons.1 hids
    obtain ⟨hfirst, hread⟩ := hlinks.discard hj
    obtain ⟨hlast, hreads⟩ := ih hfirst hrest
    refine ⟨hlast, fun k hk hne => ?_⟩
    obtain ⟨hkj, hkids⟩ := not_or.1 (mt List.mem_cons.2 hne)
    rw [List.foldl_cons, hreads k hk hkids, hread k hk hkj]

/-- Setting the file of an id leaves the entries of all others in their files. -/
theorem HasNoLinks.entryIn?_setFile (hlinks : c.HasNoLinks d) (hi : isId i = true) {q : Path}
    (hfile : c.file? i = some q) {place : Place} (hplace : d.locateFile q = .ok place) (f : File)
    (hk : isId k = true) (hne : k ≠ i) :
    c.entryIn? (d.setFile place f) k = c.entryIn? d k := by
  obtain ⟨p, hp, rfl⟩ := Option.map_eq_some_iff.1 ((file?_of_isId hi c).symm.trans hfile)
  refine entryIn?_of_readText hk fun p' s hp' => ?_
  rw [hp] at hp'
  cases hp'
  exact Disk.readText_setFile (hlinks p hp) (isName_of_isId hi) (isName_of_isId hk)
    (fileName_ne hne) hplace f s

end Others

/-! ## Files that break off -/

/-- Whether a place is that of the file of an id, and the file holds a beginning of the text of
an entry but not all of it. -/
def IsBrokenOff (c : Cache) (d : Disk) (now : Nat) (id : String) (e : Entry) (place : Place) :
    Prop :=
  ∃ p taken, c.file? id = some p ∧ d.locate p = .ok place ∧ taken < (Content.text e.text).size ∧
    d.root.face place = some (.file ⟨(Content.text e.text).beginning taken, now⟩)

section BrokenOff

variable {c : Cache} {d d' : Disk} {now : Nat} {id : String} {e : Entry}

/-- Where the file of an entry cannot be written, the disk is as it was, or the file is there
and breaks off. -/
theorem of_writeEntry_eq_error {fault : Fault}
    (h : c.writeEntry d id e now = (.error fault, d')) :
    d' = d ∨ ∃ p place taken, c.file? id = some p ∧ d.locateFile p = .ok place ∧
      taken < (Content.text e.text).size ∧
      d' = d.setFile place ⟨(Content.text e.text).beginning taken, now⟩ := by
  unfold writeEntry at h
  cases hfile : c.file? id with
  | none =>
    rw [hfile] at h
    cases h
  | some p =>
    rw [hfile] at h
    have h : d.writeTo c.device p (.text e.text) now = (.error fault, d') := h
    have hwritten := Disk.written c.device d p (.text e.text) now
    rw [h] at hwritten
    cases hwritten with
    | unopened => exact .inl rfl
    | brokenOff place taken _ hplace hshort =>
      exact .inr ⟨p, place, taken, rfl, hplace, hshort, rfl⟩

/-- A file that breaks off is the only one that is touched. -/
theorem isBrokenOff_setFile (now : Nat) {p : Path} {place : Place} {taken : Nat}
    (hfile : c.file? id = some p) (hplace : d.locateFile p = .ok place)
    (hshort : taken < (Content.text e.text).size) :
    let after := d.setFile place ⟨(Content.text e.text).beginning taken, now⟩
    c.IsBrokenOff after now id e place ∧
      ∀ other, other ≠ place → after.root.face other = d.root.face other := by
  intro after
  have hface := Disk.face_setFile hplace ⟨(Content.text e.text).beginning taken, now⟩
  refine ⟨⟨p, taken, hfile, ?_, hshort, ?_⟩, fun other hother => ?_⟩
  · exact (Disk.locate_setFile hplace _ p place).2 (Disk.locateFile_eq_ok_iff.1 hplace).2.1
  · rw [hface, if_pos rfl]
  · rw [hface, if_neg hother]

end BrokenOff

/-! ## A store that fails -/

/-- A cache with the same entries and without files. -/
def inMemory (c : Cache) : Cache := { c with directory := none }

/-- What storing leaves when the file of the entry cannot be written. -/
structure Unwritten (c : Cache) (d : Disk) (now : Nat) (id : String) (report : Report)
    (after : Cache × Disk) : Prop where
  /-- In memory is what the same call leaves there in a cache without files, which stores. -/
  memory : (c.inMemory.store d now id report).1 = .ok report ∧
    after.1.kept = (left (c.inMemory.store d now id report)).1.kept
  settings : c.SameSettings after.1
  /-- The entry is found, what is evicted is not, and all else as before. -/
  lookup : ∀ k, Json.lookup k after.1.kept =
    if k ∈ c.evicted id (c.entryAt now report) then none
    else if k = id then some (c.entryAt now report) else Json.lookup k c.kept
  /-- On the disk only files of what is evicted are gone, and nothing is made or changed but the
  file of the entry, which breaks off. -/
  disk : ∀ place, after.2.root.face place = d.root.face place ∨
    after.2.root.face place = none ∧ c.IsFileOf d (c.evicted id (c.entryAt now report)) place ∨
    c.IsBrokenOff after.2 now id (c.entryAt now report) place
  /-- Where there is room for the entry, the disk is the same but for its file. -/
  room : (putKept id (c.entryAt now report) c.kept).length ≤ c.limit → after.2 = d ∨
    ∃ place, c.IsBrokenOff after.2 now id (c.entryAt now report) place ∧
      ∀ other, other ≠ place → after.2.root.face other = d.root.face other
  /-- The report is answered while its lifetime lasts, unless it is evicted itself. -/
  own : id ∉ c.evicted id (c.entryAt now report) → ∀ t, seconds t - seconds now < c.lifetime →
    (after.1.get after.2 t id).1 = some report
  /-- All ids but this one and what is evicted are answered as before. -/
  others : c.HoldsIds → (after.2 ≠ d → c.HasNoLinks d) →
    ∀ t k, k ≠ id → k ∉ c.evicted id (c.entryAt now report) →
      (after.1.get after.2 t k).1 = (c.get d t k).1

section Unwritten

variable {c : Cache} {d d' : Disk} {now : Nat} {id : String} {report : Report}

/-- Without files, storing under an id does not fail. -/
theorem store_inMemory (hid : isId id = true) :
    (c.inMemory.store d now id report).1 = .ok report ∧
      (left (c.inMemory.store d now id report)).1.kept
        = (c.keep d id (c.entryAt now report)).1.kept := by
  have h := c.inMemory.stored d now id report
  generalize c.inMemory.store d now id report = outcome at h ⊢
  cases h with
  | noId hno => rw [hid] at hno; cases hno
  | unwritten fault d' _ hwrite => cases hwrite
  | written => exact ⟨rfl, rfl⟩

/-- An entry that is kept is found while its lifetime lasts. -/
theorem heldFresh?_keep_self (hheld : id ∉ c.evicted id (c.entryAt now report)) {t : Nat}
    (ht : seconds t - seconds now < c.lifetime) :
    (c.keep d id (c.entryAt now report)).1.heldFresh? t id = some (c.entryAt now report) := by
  have hlookup := lookup_keep c d id (c.entryAt now report) id
  rw [if_neg hheld, if_pos rfl] at hlookup
  rw [heldFresh?, hlookup]
  exact Option.filter_eq_some_iff.2 ⟨rfl, decide_eq_true ht⟩

/-- Keeping an entry changes nothing for other ids, but for those that are evicted. -/
theorem heldFresh?_keep_of_ne {k : String} (hne : k ≠ id)
    (hheld : k ∉ c.evicted id (c.entryAt now report)) (t : Nat) :
    (c.keep d id (c.entryAt now report)).1.heldFresh? t k = c.heldFresh? t k := by
  have hlookup := lookup_keep c d id (c.entryAt now report) k
  rw [if_neg hheld, if_neg hne] at hlookup
  rw [heldFresh?, hlookup]
  rfl

/-- Where there is room, keeping an entry leaves the disk alone. -/
theorem keep_snd_of_room (hroom : (putKept id (c.entryAt now report) c.kept).length ≤ c.limit) :
    (c.keep d id (c.entryAt now report)).2 = d := by
  have hnone : c.evicted id (c.entryAt now report) = [] := surplus_of_length_le hroom
  show (c.evicted id (c.entryAt now report)).foldl c.discard d = d
  rw [hnone, List.foldl_nil]

/-- What is found in the files of other ids when the file of the entry cannot be written. -/
theorem entryIn?_of_unwritten (hid : isId id = true) (hids : c.HoldsIds) {fault : Fault}
    (hwrite : (c.keep d id (c.entryAt now report)).1.writeEntry
      (c.keep d id (c.entryAt now report)).2 id (c.entryAt now report) now = (.error fault, d'))
    (hlinks : d' ≠ d → c.HasNoLinks d) {k : String} (hk : isId k = true) (hne : k ≠ id)
    (hheld : k ∉ c.evicted id (c.entryAt now report)) :
    c.entryIn? d' k = c.entryIn? d k := by
  by_cases hsame : d' = d
  · rw [hsame]
  · obtain ⟨hcleared, hreads⟩ :=
      (hlinks hsame).discards (hids.evicted hid (c.entryAt now report))
    have hread := hreads k hk hheld
    rcases of_writeEntry_eq_error hwrite with rfl | ⟨p, place, taken, hfile, hplace, -, rfl⟩
    · exact hread
    · exact (hcleared.entryIn?_setFile hid hfile hplace _ hk hne).trans hread

theorem unwritten_keep (hid : isId id = true) {fault : Fault}
    (hwrite : (c.keep d id (c.entryAt now report)).1.writeEntry
      (c.keep d id (c.entryAt now report)).2 id (c.entryAt now report) now = (.error fault, d')) :
    Unwritten c d now id report ((c.keep d id (c.entryAt now report)).1, d') where
  memory := ⟨(store_inMemory hid).1, (store_inMemory hid).2.symm⟩
  settings := ⟨rfl, rfl, rfl, rfl⟩
  lookup := lookup_keep c d id _
  disk place := by
    have hcleared : (c.keep d id (c.entryAt now report)).2.root.face place = d.root.face place ∨
        (c.keep d id (c.entryAt now report)).2.root.face place = none ∧
          c.IsFileOf d (c.evicted id (c.entryAt now report)) place := face_discards _ place
    rcases of_writeEntry_eq_error hwrite with rfl | ⟨p, own, taken, hfile, hplace, hshort, rfl⟩
    · exact hcleared.imp_right .inl
    · obtain ⟨hbroken, hothers⟩ := isBrokenOff_setFile now hfile hplace hshort
      by_cases hown : place = own
      · exact .inr (.inr (hown ▸ hbroken))
      · rw [hothers place hown]
        exact hcleared.imp_right .inl
  room hroom := by
    rw [keep_snd_of_room hroom] at hwrite
    rcases of_writeEntry_eq_error hwrite with hsame | ⟨p, own, taken, hfile, hplace, hshort, rfl⟩
    · exact .inl hsame
    · exact .inr ⟨own, isBrokenOff_setFile now hfile hplace hshort⟩
  own hheld t ht := by
    rw [get_fst, if_pos hid, heldFresh?_keep_self hheld ht]
    rfl
  others hids hlinks t k hk hheld := by
    rw [get_fst, get_fst]
    split
    · rename_i hkid
      have hfile : (c.keep d id (c.entryAt now report)).1.entryIn? d' k = c.entryIn? d k :=
        entryIn?_of_unwritten hid hids hwrite hlinks hkid hk hheld
      rw [heldFresh?_keep_of_ne hk hheld, hfile]
      rfl
    · rfl

/-- The error of a store is that of its id, which changes nothing, or that of its file. -/
theorem Stored.of_error {outcome : Except Error Report × Cache × Disk}
    (h : c.Stored d now id report outcome) {err : Error} (herr : outcome.1 = .error err) :
    isId id = false ∧ err = invalidId id ∧ left outcome = (c, d) ∨
      isId id = true ∧ (∃ fault : Fault, err = .io fault.message) ∧
        Unwritten c d now id report (left outcome) := by
  cases h with
  | noId hid =>
    cases herr
    exact .inl ⟨hid, rfl, rfl⟩
  | unwritten fault d' hid hwrite =>
    cases herr
    exact .inr ⟨hid, ⟨fault, rfl⟩, unwritten_keep hid hwrite⟩
  | written => cases herr

end Unwritten

/-- **A store that fails goes on in memory.** Where storing fails, either the id is none and
nothing has changed, or the file of the entry could not be written and the entry is kept in
memory all the same. Inserting fails in the second way only. -/
theorem failed_store_goes_on_in_memory (c : Cache) (d : Disk) (now : Nat) (report : Report)
    (err : Error) :
    (∀ id, (c.store d now id report).1 = .error err →
      isId id = false ∧ err = invalidId id ∧ left (c.store d now id report) = (c, d) ∨
      isId id = true ∧ (∃ fault : Fault, err = .io fault.message) ∧
        Unwritten c d now id report (left (c.store d now id report))) ∧
    (∀ made, (c.insert d now made report).1 = .error err →
      (∃ fault : Fault, err = .io fault.message) ∧
        Unwritten c d now (mintId now made) report (left (c.insert d now made report))) := by
  refine ⟨fun id herr => (c.stored d now id report).of_error herr, fun made herr => ?_⟩
  -- for any outcomes, because comparing these two would be to compute the new id
  have hinsert : ∀ (x : Except Error Report × Cache × Disk)
      (y : Except Error String × Cache × Disk) (id : String),
      y = (x.1.map fun _ => id, x.2) → y.1 = .error err → x.1 = .error err ∧ left y = left x := by
    rintro ⟨answer, after⟩ y id rfl herr
    cases answer with
    | error e =>
      cases herr
      exact ⟨rfl, rfl⟩
    | ok r => cases herr
  obtain ⟨herr', hleft⟩ := hinsert _ _ _ (c.insert_eq d now made report) herr
  rcases (c.stored d now (mintId now made) report).of_error herr' with ⟨hno, -, -⟩ | ⟨-, h⟩
  · exact absurd (hno.symm.trans (isId_mintId now made)) Bool.false_ne_true
  · rw [hleft]
    exact h

/-- On a full device the file of an older entry is overwritten by nothing, and storing goes on in
memory. -/
theorem store_on_full_device_goes_on_in_memory :
    let full : Fault := .storage "No space left on device (os error 28)"
    let c := empty (some ⟨true, ["results"]⟩) 3600 1 0
      { Device.sound with receives := fun _ _ _ _ => .cut 0 full }
    let d : Disk :=
      ⟨.directory [("results", .directory [("a.json", .file ⟨.text "older", 0⟩)])], []⟩
    let after := left (c.store d 1000000000 "a" default)
    (c.store d 1000000000 "a" default).1 = .error (.io full.message) ∧
      Unwritten c d 1000000000 "a" default after ∧
      c.IsBrokenOff after.2 1000000000 "a" (c.entryAt 1000000000 default) ["results", "a.json"] ∧
      after.2.readText ⟨true, ["results", "a.json"]⟩ = .ok "" := by
  intro full c d after
  have herr : (c.store d 1000000000 "a" default).1 = .error (.io full.message) := by decide +kernel
  have hid : isId "a" = true := by decide +kernel
  refine ⟨herr, ?_⟩
  rcases (failed_store_goes_on_in_memory c d 1000000000 default _).1 "a" herr with
    ⟨hno, -, -⟩ | ⟨-, -, h⟩
  · exact absurd (hno.symm.trans hid) Bool.false_ne_true
  · refine ⟨h, ?_, by decide +kernel⟩
    exact ⟨⟨true, ["results", "a.json"]⟩, 0, by decide +kernel, by decide +kernel,
      by decide +kernel, rfl⟩

/-- Where there is no directory to write to, a report is answered that was not stored. -/
theorem failed_store_is_answered :
    let c := empty (some ⟨true, ["results"]⟩) 3600 1 0
    let d : Disk := ⟨.directory [], []⟩
    let outcome := c.store d 0 "a" default
    outcome.1 = .error (.io Fault.missing.message) ∧
      c.size = 0 ∧ (left outcome).1.size = 1 ∧
      (c.get d 0 "a").1 = none ∧
      ((left outcome).1.get (left outcome).2 0 "a").1 = some default :=
  ⟨rfl, by decide +kernel, by decide +kernel, by decide +kernel, by decide +kernel⟩

end PatternAudit.Cache
