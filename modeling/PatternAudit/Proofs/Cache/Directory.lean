/-
What the directory of a cache holds.

As long as the directory holds files and nothing else, all that a cache does to it is told by
the list of the files: an id that goes is dropped, an entry that is kept is entered, and past
the limit the files go that were changed first. None of it fails, unless the storage does
(`store_of_holds`). What was written for an entry is found again by the id
(`entryIn?_of_holds`).
-/
import PatternAudit.Proofs.Cache.Calls
import PatternAudit.Proofs.Cache.Entry
import PatternAudit.Proofs.Files.Folder

set_option autoImplicit false

namespace PatternAudit.Cache

open Files (Content Device Disk File IsEntryName Path without)

/-! ## Calls whose entries can be written -/

/-- The report that a call stores. -/
def Call.report? : Call → Option Report
  | .store _ report => some report
  | .insert _ report => some report
  | .get _ => none
  | .remove _ => none

/-- Calls about ids, whose reports, times and numbers have the form of stored ones. -/
structure Writable (next : Nat) (calls : List (Nat × Call)) : Prop where
  ids : ∀ x ∈ calls, isId (x.2.id x.1) = true
  reports : ∀ x ∈ calls, ∀ report, x.2.report? = some report → report.GoodForm
  seconds : ∀ x ∈ calls, Word.fits 64 (seconds x.1) = true
  sequence : next + calls.length ≤ Word.count 64

/-- What is stored next has the form of a stored entry. -/
theorem Writable.goodForm {c : Cache} {now : Nat} {call : Call} {calls : List (Nat × Call)}
    (h : Writable c.next ((now, call) :: calls)) {report : Report}
    (hreport : call.report? = some report) : (c.entryAt now report).GoodForm where
  report := h.reports (now, call) List.mem_cons_self report hreport
  storedAt := h.seconds (now, call) List.mem_cons_self
  sequence := by
    have hroom := h.sequence
    rw [List.length_cons] at hroom
    show decide (c.next < Word.count 64) = true
    rw [decide_eq_true_eq]
    omega

theorem Stored.next_le {c : Cache} {d : Disk} {now : Nat} {id : String} {report : Report}
    {outcome : Except Error Report × Cache × Disk} (h : c.Stored d now id report outcome) :
    (left outcome).1.next ≤ c.next + 1 := by
  cases h with
  | noId => exact Nat.le_succ _
  | unwritten => exact Nat.le_refl _
  | written => exact Nat.le_refl _

/-- A call takes one sequence number at most. -/
theorem next_perform_le (c : Cache) (d : Disk) (now : Nat) (call : Call) :
    (c.perform d now call).1.next ≤ c.next + 1 := by
  refine perform_of_outcomes (P := fun s => s.1.next ≤ c.next + 1) ?_ ?_ ?_ call
  · exact fun _ _ _ ho => ho.next_le
  · intro id outcome ho
    -- only storing takes one
    cases ho <;> exact Nat.le_succ _
  · exact fun _ => Nat.le_succ _

theorem Writable.rest {c : Cache} {now : Nat} {call : Call} {calls : List (Nat × Call)}
    (h : Writable c.next ((now, call) :: calls)) (d : Disk) :
    Writable (c.perform d now call).1.next calls where
  ids x hx := h.ids x (List.mem_cons_of_mem _ hx)
  reports x hx := h.reports x (List.mem_cons_of_mem _ hx)
  seconds x hx := h.seconds x (List.mem_cons_of_mem _ hx)
  sequence := by
    have hnext := c.next_perform_le d now call
    have hroom := h.sequence
    rw [List.length_cons] at hroom
    omega

/-! ## The names of files -/

/-- The name of the file of an id. -/
def fileName (id : String) : String := id ++ ".json"

theorem fileName_injective : Function.Injective fileName := fun _ _ h =>
  String.append_left_inj _ |>.1 h

/-- Whether a file can be one of a cache. -/
def isListed (name : String) : Bool := decide (Path.extension? name = some "json")

/-- The file of an id has a name that a file can have. -/
theorem isEntryName_fileName {id : String} (h : isId id = true) :
    IsEntryName (fileName id) := by
  obtain ⟨-, hsize, hchars⟩ := isId_iff.1 h
  have hname := isName_of_isId h
  refine ⟨hname, ?_, ?_⟩
  · have hsuffix : (".json" : String).utf8ByteSize = 5 := by decide
    have hlongest : maxIdLength = 64 := rfl
    have hroom : Files.Node.maxName = 255 := rfl
    rw [fileName, String.utf8ByteSize_append]
    omega
  · rw [fileName, String.toList_append, List.mem_append]
    rintro (hc | hc)
    · have hchar := hchars _ hc
      revert hchar
      decide
    · revert hc
      decide

/-! ## What is done to the files -/

/-- The files of a list that a cache takes for its own, as it lists them. -/
def listedFiles (files : List (String × File)) : List (Nat × String) :=
  (files.filter fun x => isListed x.1).map fun x => (x.2.modified, x.1)

/-- The files that are left when those past the limit have gone. -/
def pruned (limit : Nat) (files : List (String × File)) : List (String × File) :=
  files.filter fun x => decide (x.1 ∉ stale limit (listedFiles files))

/-- The files without those of some ids. -/
def discarded (ids : List String) (files : List (String × File)) : List (String × File) :=
  files.filter fun x => decide (x.1 ∉ ids.map fileName)

section Holds

variable {c : Cache} {d : Disk} {p : Path} {files : List (String × File)}
  (hdirectory : c.directory = some p) (h : d.Holds p files)

include hdirectory in
theorem file?_fileName {id : String} (hid : isId id = true) :
    c.file? id = some (p.append ⟨false, [fileName id]⟩) := by
  rw [file?_of_isId hid, hdirectory, Option.map_some, fileName]

include h

/-- What is listed are the files with the extension of a cache's files. -/
theorem listed_of_holds (device : Device) : listed device d p = listedFiles files := by
  have hentry : ∀ x ∈ files, d.date? device (p.append ⟨false, [x.1]⟩) = some x.2.modified := by
    intro x hx
    rw [Disk.date?, h.find_entry (h.named x hx), (Json.lookup_eq_some_iff h.nodup).2 hx]
  rw [listed, h.names]
  dsimp only
  rw [List.filterMap_map, listedFiles, ← List.filterMap_eq_map, List.filterMap_filter]
  refine List.filterMap_congr fun x hx => ?_
  simp only [Function.comp_apply, hentry x hx, Option.map_some, isListed, decide_eq_true_eq]

/-- Removing names leaves the others. -/
theorem removals_of_holds (names : List String) (hnames : ∀ name ∈ names, IsEntryName name) :
    (names.foldl (fun d name => d.removeFrom .sound (p.append ⟨false, [name]⟩)) d).Holds p
      (files.filter fun x => decide (x.1 ∉ names)) := by
  induction names generalizing d files with
  | nil =>
    have hall : (files.filter fun x => decide (x.1 ∉ ([] : List String))) = files :=
      List.filter_eq_self.2 fun x _ => by simp
    rw [hall]
    exact h
  | cons name names ih =>
    obtain ⟨hname, hrest⟩ := List.forall_mem_cons.1 hnames
    have hnext := ih (h.remove_entry hname) hrest
    have hboth : (files.filter fun x => decide (x.1 ∉ name :: names))
        = (without name files).filter fun x => decide (x.1 ∉ names) := by
      rw [without, List.filter_filter]
      refine List.filter_congr fun x _ => ?_
      simp [Bool.and_comm]
    rw [List.foldl_cons, hboth]
    exact hnext

include hdirectory

/-- Discarding ids drops their files. -/
theorem discards_of_holds (hsound : c.device = .sound) {ids : List String}
    (hids : ∀ i ∈ ids, isId i = true) : (ids.foldl c.discard d).Holds p (discarded ids files) := by
  have hdiscard : ids.foldl c.discard d = (ids.map fileName).foldl
      (fun d name => d.removeFrom .sound (p.append ⟨false, [name]⟩)) d := by
    rw [List.foldl_map]
    refine List.foldl_ext _ _ _ fun disk i hi => ?_
    rw [discard, file?_fileName hdirectory (hids i hi), hsound]
  rw [hdiscard]
  refine removals_of_holds h _ fun name hname => ?_
  obtain ⟨i, hi, rfl⟩ := List.mem_map.1 hname
  exact isEntryName_fileName (hids i hi)

/-- What is found by an id is what its file says. -/
theorem entryIn?_of_holds {id : String} (hid : isId id = true) :
    c.entryIn? d id = (Json.lookup (fileName id) files).bind fun f =>
      f.content.text?.toOption.bind Entry.ofText? := by
  rw [entryIn?, file?_fileName hdirectory hid]
  simp only [Option.bind_eq_bind, Option.bind_some, h.readText_entry (isEntryName_fileName hid)]
  cases Json.lookup (fileName id) files <;> rfl

/-- An entry is found by its id in the file that it was written to. -/
theorem entryIn?_of_text {id : String} (hid : isId id = true) {f : File} {e : Entry}
    (hfile : Json.lookup (fileName id) files = some f) (htext : f.content = .text e.text)
    (hgood : e.GoodForm) : c.entryIn? d id = some e := by
  have hread : f.content.text?.toOption = some e.text := by
    rw [htext]
    rfl
  rw [entryIn?_of_holds hdirectory h hid, hfile, Option.bind_some, hread, Option.bind_some,
    Entry.ofText?_text hgood]

/-- Past the limit the files go that were changed first. -/
theorem prune_of_holds (hsound : c.device = .sound) :
    (c.prune d).Holds p (pruned c.limit files) := by
  rw [prune, hdirectory]
  dsimp only
  rw [listed_of_holds h c.device, hsound]
  refine removals_of_holds h _ fun name hname => ?_
  -- what goes is among the files
  obtain ⟨⟨time, name⟩, hsorted, rfl⟩ := List.mem_map.1 hname
  obtain ⟨x, hx, hpair⟩ := List.mem_map.1 (List.mem_mergeSort.1 (List.mem_of_mem_take hsorted))
  cases hpair
  exact h.named x (List.mem_filter.1 hx).1

/-- **Storing does not fail** on storage that takes everything. It drops the files of the ids
that are evicted, enters the file of the entry, and then takes away what is past the limit. -/
theorem store_of_holds (hsound : c.device = .sound) {id : String} (hid : isId id = true)
    (hids : c.HoldsIds) (now : Nat) (report : Report) :
    ∃ d', c.store d now id report = (.ok report, (c.keep d id (c.entryAt now report)).1, d') ∧
      d'.Holds p (pruned c.limit (Json.insert (fileName id)
        ⟨.text (c.entryAt now report).text, now⟩
        (discarded (c.evicted id (c.entryAt now report)) files))) := by
  have hdiscarded := discards_of_holds hdirectory h hsound (hids.evicted hid (c.entryAt now report))
  obtain ⟨written, hwrite, hwritten⟩ := hdiscarded.write_entry (isEntryName_fileName hid)
    (.text (c.entryAt now report).text) now
  have hentry : (c.keep d id (c.entryAt now report)).1.writeEntry
      (c.keep d id (c.entryAt now report)).2 id (c.entryAt now report) now
        = (.ok (), written) := by
    have hdevice : (c.keep d id (c.entryAt now report)).1.device = .sound := hsound
    rw [writeEntry, file?_fileName (c := (c.keep d id (c.entryAt now report)).1) hdirectory hid,
      hdevice]
    exact Disk.writeTo_sound hwrite
  refine ⟨c.prune written, ?_, prune_of_holds hdirectory hwritten hsound⟩
  have hstored := c.stored d now id report
  generalize c.store d now id report = outcome at hstored ⊢
  cases hstored with
  | noId hno => rw [hid] at hno; cases hno
  | unwritten fault _ _ hfault => rw [hentry] at hfault; cases hfault
  | written d' _ hok =>
    rw [hentry] at hok
    cases hok
    rfl

end Holds

end PatternAudit.Cache
