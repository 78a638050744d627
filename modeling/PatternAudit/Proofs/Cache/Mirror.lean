/-
A cache that has a directory to itself.

Nobody can tell from the answers of such a cache that it has files
(`files_do_not_show`). At any time the directory holds the entries in memory, each in the
file of its id, and nothing else (`Mirrored`). So a file never says more than memory does,
and there are never more files than the limit, so that none goes for it. Only one thing is
different from a cache without files: an entry whose lifetime is over is dropped when it is
asked for, and not only when it is the oldest. As such an entry is answered to nobody, and
goes before all that are not over, this cannot be seen either: both caches keep up with the
same list of stored reports.
-/
import PatternAudit.Proofs.Cache.Directory
import PatternAudit.Proofs.Cache.MemoryOnly

set_option autoImplicit false

namespace PatternAudit.Cache

open Files (Content Disk File Path without)

/-! ## Files that say what is in memory -/

/-- The files for entries, by their names and texts. -/
def mirror (kept : List (String × Entry)) : List (String × Content) :=
  kept.map fun x => (fileName x.1, .text x.2.text)

/-- Files by their names and contents. -/
def contents (files : List (String × File)) : List (String × Content) :=
  files.map fun x => (x.1, x.2.content)

/-- Whether the directory of a cache holds what is in memory, and nothing else, on storage that
takes everything. -/
structure Mirrored (c : Cache) (d : Disk) : Prop where
  device : c.device = .sound
  files : ∃ p files, c.directory = some p ∧ d.Holds p files ∧ contents files = mirror c.kept
  ids : c.HoldsIds
  good : ∀ x ∈ c.kept, x.2.GoodForm
  size : c.size ≤ c.limit

/-- Files that are dropped by their ids go with the entries. -/
theorem contents_discarded {files : List (String × File)} {kept : List (String × Entry)}
    (h : contents files = mirror kept) (ids : List String) :
    contents (discarded ids files) = mirror (kept.filter fun x => decide (x.1 ∉ ids)) := by
  have hfiles : contents (discarded ids files)
      = (contents files).filter fun x => decide (x.1 ∉ ids.map fileName) := by
    rw [contents, contents, discarded, List.filter_map]
    rfl
  rw [hfiles, h, mirror, mirror, List.filter_map]
  congr 1
  refine List.filter_congr fun x _ => ?_
  simp only [Function.comp_apply, List.mem_map_of_injective fileName_injective]

/-- Where there are no more files than the limit, none goes. -/
theorem pruned_of_length_le {limit : Nat} {files : List (String × File)}
    (h : files.length ≤ limit) : pruned limit files = files := by
  have hlisted : (listedFiles files).length ≤ limit := by
    rw [listedFiles, List.length_map]
    exact Nat.le_trans (List.length_filter_le _ _) h
  refine List.filter_eq_self.2 fun x _ => ?_
  rw [stale, Nat.sub_eq_zero_of_le hlisted]
  simp

section Mirrored

variable {c : Cache} {d : Disk} (h : c.Mirrored d)

include h

/-- **A file says what memory says.** -/
theorem Mirrored.entryIn? {id : String} (hid : isId id = true) :
    c.entryIn? d id = Json.lookup id c.kept := by
  obtain ⟨p, files, hdirectory, hholds, hsame⟩ := h.files
  have hcontent : (Json.lookup (fileName id) files).map File.content
      = (Json.lookup id c.kept).map fun e => Content.text e.text := by
    rw [← Json.lookup_map Function.injective_id File.content, ← Json.lookup_map fileName_injective
      (fun e : Entry => Content.text e.text)]
    exact congrArg (Json.lookup (fileName id)) hsame
  cases hheld : Json.lookup id c.kept with
  | none =>
    rw [hheld, Option.map_none, Option.map_eq_none_iff] at hcontent
    rw [entryIn?_of_holds hdirectory hholds hid, hcontent, Option.bind_none]
  | some e =>
    rw [hheld, Option.map_some] at hcontent
    obtain ⟨f, hfile, htext⟩ := Option.map_eq_some_iff.1 hcontent
    have hgood : e.GoodForm := h.good _ (Json.mem_of_lookup_eq_some hheld)
    exact entryIn?_of_text hdirectory hholds hid hfile htext hgood

/-- What is removed goes from memory and from the files. -/
theorem Mirrored.remove {id : String} (hid : isId id = true) :
    (c.remove d id).1.Mirrored (c.remove d id).2 := by
  obtain ⟨p, files, hdirectory, hholds, hsame⟩ := h.files
  have hdropped : dropKept id c.kept = c.kept.filter fun x => decide (x.1 ∉ [id]) :=
    List.filter_congr fun x _ => by simp
  refine ⟨h.device, ⟨p, discarded [id] files, hdirectory, ?_, ?_⟩, ?_, ?_, ?_⟩
  · have hids : ∀ i ∈ [id], isId i = true := fun i hi => by rwa [List.mem_singleton.1 hi]
    exact discards_of_holds hdirectory hholds h.device hids
  · rw [contents_discarded hsame, ← hdropped]
    rfl
  · exact fun x hx => h.ids x (List.mem_filter.1 hx).1
  · exact fun x hx => h.good x (List.mem_filter.1 hx).1
  · exact Nat.le_trans (length_dropKept_le ..) h.size

/-- What is stored comes into memory and into the files, and goes from both. -/
theorem Mirrored.store {id : String} (hid : isId id = true) {now : Nat} {report : Report}
    (hgood : (c.entryAt now report).GoodForm)
    (hstays : id ∉ c.evicted id (c.entryAt now report)) :
    (left (c.store d now id report)).1.Mirrored (left (c.store d now id report)).2 := by
  obtain ⟨p, files, hdirectory, hholds, hsame⟩ := h.files
  obtain ⟨d', hstore, hholds'⟩ := store_of_holds hdirectory hholds h.device hid h.ids now report
  -- the same ids go from both, and the same one is entered
  have hcontents : contents (Json.insert (fileName id) ⟨.text (c.entryAt now report).text, now⟩
        (discarded (c.evicted id (c.entryAt now report)) files))
      = mirror (c.keep d id (c.entryAt now report)).1.kept := by
    have hkeeps : decide (id ∉ c.evicted id (c.entryAt now report)) = true :=
      decide_eq_true hstays
    have hentered := Json.insert_map Function.injective_id File.content (fileName id)
      ⟨.text (c.entryAt now report).text, now⟩
      (discarded (c.evicted id (c.entryAt now report)) files)
    have hmirrored := Json.insert_map fileName_injective (fun e : Entry => Content.text e.text) id
      (c.entryAt now report)
      (c.kept.filter fun x => decide (x.1 ∉ c.evicted id (c.entryAt now report)))
    have hdiscarded := contents_discarded hsame (c.evicted id (c.entryAt now report))
    rw [kept_keep, putKept_eq, Json.insert_filter
      (p := fun i => decide (i ∉ c.evicted id (c.entryAt now report))) hkeeps, mirror, ← hmirrored]
    exact hentered.symm.trans (congrArg (Json.insert (fileName id) _) hdiscarded)
  -- there are as many files as entries, so that pruning finds none past the limit
  have hsize : (c.keep d id (c.entryAt now report)).1.size ≤ c.limit := size_keep_le ..
  have hlength := congrArg List.length hcontents
  rw [contents, mirror, List.length_map, List.length_map] at hlength
  have hids : (c.keep d id (c.entryAt now report)).1.HoldsIds := h.ids.keep hid _
  rw [hstore]
  refine ⟨h.device, ⟨p, _, hdirectory, hholds', ?_⟩, hids, ?_, hsize⟩
  · rw [pruned_of_length_le (Nat.le_trans (Nat.le_of_eq hlength) hsize), hcontents]
    rfl
  · intro x hx
    have hx : x ∈ (c.keep d id (c.entryAt now report)).1.kept := hx
    rw [kept_keep] at hx
    rcases mem_putKept (List.mem_filter.1 hx).1 with rfl | hold
    · exact hgood
    · exact h.good x hold

/-- Getting finds what is in memory. If that is gone, it is dropped. -/
theorem Mirrored.get {id : String} (hid : isId id = true) (now : Nat) :
    (c.get d now id).1 = (c.heldFresh? now id).map Entry.report ∧
      (left (c.get d now id) = (c, d) ∨
        c.heldFresh? now id = none ∧ left (c.get d now id) = c.remove d id) := by
  have hfile := h.entryIn? hid
  constructor
  · rw [get_fst, if_pos hid, hfile, ← heldFresh?, Option.or_self]
  · have hgot := c.got d now id
    generalize c.get d now id = outcome at hgot ⊢
    cases hgot with
    | noId => exact .inl rfl
    | held => exact .inl rfl
    | missing => exact .inl rfl
    | promoted e _ hheld hfound hfresh =>
      -- what is fresh in the file is fresh in memory
      rw [heldFresh?, ← hfile, hfound, Option.filter_eq_none_iff] at hheld
      exact absurd hfresh (hheld e rfl)
    | expired e _ hheld => exact .inr ⟨hheld, rfl⟩

end Mirrored

/-! ## Keeping up -/

/-- A cache that has its directory to itself keeps up with the list. -/
theorem keepsUp_of_mirrored :
    KeepsUp fun c d calls => c.Mirrored d ∧ Writable c.next calls where
  id h := h.2.ids _ List.mem_cons_self
  rest {c d now call rest} h rs hrecalls := by
    obtain ⟨hmirrored, hwritable⟩ := h
    have hid : isId (call.id now) = true := hwritable.ids _ List.mem_cons_self
    refine ⟨?_, hwritable.rest d⟩
    obtain ⟨es, hes, -⟩ := hrecalls.inOrder
    cases call with
    | store id report =>
      exact hmirrored.store hid (hwritable.goodForm rfl) (hes.not_mem_evicted id report)
    | insert made report =>
      rw [perform_insert]
      exact hmirrored.store hid (hwritable.goodForm rfl) (hes.not_mem_evicted _ report)
    | get id =>
      have hid : isId id = true := hid
      rw [perform]
      rcases (hmirrored.get hid now).2 with hsame | ⟨-, hremove⟩
      · rw [hsame]
        exact hmirrored
      · rw [hremove]
        exact hmirrored.remove hid
    | remove id => exact hmirrored.remove hid
  get {c d now id rest} h rs hrecalls := by
    have hid : isId id = true := h.2.ids _ List.mem_cons_self
    obtain ⟨hanswer, hleft⟩ := h.1.get hid now
    refine ⟨hanswer.trans (hrecalls.get id), ?_⟩
    rw [perform]
    rcases hleft with hsame | ⟨hover, hremove⟩
    · rw [hsame]
      exact hrecalls
    · rw [hremove]
      exact hrecalls.forget d hover

theorem mirrored_empty {directory : Path} {d : Disk} (lifetime limit next : Nat)
    (h : d.find directory = .ok (.directory [])) :
    (empty (some directory) lifetime limit next).Mirrored d where
  device := rfl
  files := ⟨directory, [], rfl,
    ⟨h, List.nodup_nil, fun _ hx => absurd hx List.not_mem_nil⟩, rfl⟩
  ids := holdsIds_empty (some directory) lifetime limit next .sound
  good _ hx := absurd hx List.not_mem_nil
  size := Nat.zero_le _

/-- **Files do not show.** A cache whose directory is empty when it is opened, and which
nobody else uses, answers every call as a cache without files does. -/
theorem files_do_not_show (directory : Path) (lifetime limit next next' : Nat) (d d' : Disk)
    (calls : List (Nat × Call))
    (hempty : ((empty (some directory) lifetime limit next).prepare d).find directory
      = .ok (.directory []))
    (hcalls : Writable next calls) (hclock : (calls.map Prod.fst).Pairwise (· ≤ ·)) :
    (empty (some directory) lifetime limit next).answers
        ((empty (some directory) lifetime limit next).prepare d) calls
      = (empty none lifetime limit next').answers d' calls := by
  have hfiles := keepsUp_of_mirrored.run calls
    ⟨mirrored_empty lifetime limit next hempty, hcalls⟩ hclock
    (recalls_empty (some directory) lifetime limit next) fun _ _ => Nat.zero_le _
  have hmemory := keepsUp_of_no_directory.run calls (d := d') ⟨rfl, hcalls.ids⟩ hclock
    (recalls_empty none lifetime limit next') fun _ _ => Nat.zero_le _
  exact hfiles.1.trans hmemory.1.symm

/-- A cache for one report makes its directory. The first report goes for the second, and the
second is dropped from memory and from its file when it is asked for too late. -/
theorem files_do_not_show_for_one :
    let report (document : String) : Report := { (default : Report) with document }
    let directory : Path := ⟨true, ["results"]⟩
    let c := empty (some directory) 3600 1 0
    let d := c.prepare ⟨.directory [], []⟩
    let calls : List (Nat × Call) := [(0, .store "z" (report "1")), (0, .store "a" (report "2")),
      (5, .get "z"), (5, .get "a"), (3600000000000, .get "a"), (3600000000000, .remove "a")]
    d.find directory = .ok (.directory []) ∧ Writable 0 calls ∧
      (calls.map Prod.fst).Pairwise (· ≤ ·) ∧
      c.answers d calls = [none, some (report "2"), none] := by
  intro report directory c d calls
  have hempty : d.find directory = .ok (.directory []) := by
    have hplace : d.locate directory = .ok ["results"] := by decide +kernel
    exact Disk.find_eq_ok_iff.2 ⟨["results"], hplace, rfl⟩
  have hgood := Report.goodForm_default
  have hcalls : Writable 0 calls := by
    have hreports : ∀ x ∈ calls, x.2.report? = none ∨ x.2.report? = some (report "1") ∨
        x.2.report? = some (report "2") := by decide +kernel
    refine ⟨by decide +kernel, fun x hx r hr => ?_, by decide +kernel, by decide +kernel⟩
    rcases hreports x hx with hnone | hone | htwo
    · rw [hnone] at hr
      cases hr
    · rw [hone] at hr
      exact Option.some.inj hr ▸ hgood "1"
    · rw [htwo] at hr
      exact Option.some.inj hr ▸ hgood "2"
  have hclock : (calls.map Prod.fst).Pairwise (· ≤ ·) := by decide +kernel
  have hmemory : (empty none 3600 1 0).answers ⟨.directory [], []⟩ calls
      = Recent.answers 1 3600 [] calls :=
    (keepsUp_of_no_directory.run calls ⟨rfl, hcalls.ids⟩ hclock (recalls_empty none 3600 1 0)
      fun _ _ => Nat.zero_le _).1
  have hlist : Recent.answers 1 3600 [] calls = [none, some (report "2"), none] := by
    decide +kernel
  have hsame := files_do_not_show directory 3600 1 0 0 ⟨.directory [], []⟩ ⟨.directory [], []⟩
    calls hempty hcalls hclock
  exact ⟨hempty, hcalls, hclock, hsame.trans (hmemory.trans hlist)⟩

end PatternAudit.Cache
