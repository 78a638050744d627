/-
What a cache does with files.

`accesses` lists what a call does with the disk, in order: what it reads, writes and
removes. The list is complete, and `makes_accesses` says so without looking at how the call
is made: on any disk where these accesses give the results that they give here, the call
answers the same, leaves the same cache, and leaves the disk changed by these accesses and
by nothing else.

An id is one name together with its ending, so all that is accessed for an id are entries of
the directory. It is not so for a text that is no id. Storing and getting refuse it, and do
nothing; but `remove` does not look at it and removes whatever file it leads to
(`removed_outside_directory`).
-/
import Mathlib.Data.List.Basic
import PatternAudit.Proofs.Cache.Runs

set_option autoImplicit false

namespace PatternAudit

namespace Files

/-! ## Accesses -/

/-- One thing that is done with a disk. -/
inductive Access where
  /-- asks for the text of a file -/
  | read (p : Path)
  /-- asks when a file or a directory was changed -/
  | date (p : Path)
  /-- asks for the names in a directory -/
  | list (p : Path)
  | write (p : Path) (content : Content) (now : Nat)
  | remove (p : Path)

namespace Access

section Results

variable (device : Device)

/-- The disk after an access to storage. -/
def apply (d : Disk) : Access → Disk
  | .write p content now => (d.writeTo device p content now).2
  | .remove p => d.removeFrom device p
  | _ => d

/-- Whether an access has the same result on two disks. Nobody asks whether there was
something to remove. -/
def SameResult (d d' : Disk) : Access → Prop
  | .read p => d.readText p = d'.readText p
  | .date p => d.date? device p = d'.date? device p
  | .list p => d.names p = d'.names p
  | .write p content now =>
    (d.writeTo device p content now).1 = (d'.writeTo device p content now).1
  | .remove _ => True

/-- Whether accesses have the same results on two disks, one after the other. -/
def SameResults : Disk → Disk → List Access → Prop
  | _, _, [] => True
  | d, d', a :: as =>
    a.SameResult device d d' ∧ SameResults (a.apply device d) (a.apply device d') as

variable {device}

theorem sameResults_append {d d' : Disk} {as bs : List Access} :
    SameResults device d d' (as ++ bs) ↔
      SameResults device d d' as ∧
        SameResults device (as.foldl (apply device) d) (as.foldl (apply device) d') bs := by
  induction as generalizing d d' with
  | nil => simp [SameResults]
  | cons a as ih => simp [SameResults, ih, and_assoc]

/-- Asking for dates changes nothing. -/
theorem foldl_dates (ps : List Path) (d : Disk) :
    (ps.map Access.date).foldl (apply device) d = d := by
  induction ps with
  | nil => rfl
  | cons p ps ih => exact ih

theorem sameResults_dates {d d' : Disk} {ps : List Path} :
    SameResults device d d' (ps.map .date)
      ↔ ∀ p ∈ ps, d.date? device p = d'.date? device p := by
  induction ps with
  | nil => simp [SameResults]
  | cons p ps ih =>
    rw [List.map_cons, SameResults, List.forall_mem_cons, ← ih]
    rfl

end Results

/-- Whether an access keeps to a directory: to its entries, or to the list of them. -/
def Within (directory : Path) : Access → Prop
  | .list p => p = directory
  | .read p | .date p | .write p _ _ | .remove p =>
    ∃ name, IsName name ∧ p = directory.append ⟨false, [name]⟩

end Access

end Files

namespace Cache

open Files (Access Content Device Disk IsName Path)

/-! ## The accesses of a call -/

/-- Removes the files of ids. -/
def removals (c : Cache) (ids : List String) : List Access := (ids.filterMap c.file?).map .remove

/-- Writes the file of an entry. -/
def writing (c : Cache) (id : String) (e : Entry) (now : Nat) : List Access :=
  (c.file? id).toList.map fun p => .write p (.text e.text) now

/-- The path of an entry of a directory. -/
def entryOf (directory : Path) (name : String) : Path := directory.append ⟨false, [name]⟩

/-- The names in a directory that files of a cache can have. -/
def candidates (d : Disk) (directory : Path) : List String :=
  ((d.names directory).toOption.getD []).filter fun name => Path.extension? name = some "json"

/-- Looks at the files of the directory and removes those past the limit. -/
def pruning (c : Cache) (d : Disk) : List Access :=
  match c.directory with
  | none => []
  | some directory =>
    .list directory :: ((candidates d directory).map (entryOf directory)).map .date
      ++ ((stale c.limit (listed c.device d directory)).map (entryOf directory)).map .remove

/-- Stores a report under an id. -/
def storing (c : Cache) (d : Disk) (now : Nat) (id : String) (report : Report) : List Access :=
  let e := c.entryAt now report
  if !isId id then []
  else
    c.removals (c.evicted id e) ++ c.writing id e now
      ++ match c.writeEntry (c.keep d id e).2 id e now with
        | (.error _, _) => []
        | (.ok (), written) => c.pruning written

/-- Looks for the entry of an id, and removes its file if its lifetime is over. -/
def getting (c : Cache) (d : Disk) (now : Nat) (id : String) : List Access :=
  if !isId id || (c.heldFresh? now id).isSome then []
  else
    (c.file? id).toList.map .read
      ++ match c.entryIn? d id with
        | none => []
        | some e => if e.isFresh c.lifetime (seconds now) then [] else c.removals [id]

/-- What a call does with files, in order. -/
def accesses (c : Cache) (d : Disk) (now : Nat) : Call → List Access
  | .store id report => c.storing d now id report
  | .insert made report => c.storing d now (mintId now made) report
  | .get id => c.getting d now id
  | .remove id => c.removals [id]

/-- What is answered to a call. -/
inductive Answer where
  | stored (result : Except Error Report)
  | inserted (result : Except Error String)
  | found (result : Option Report)
  | removed

/-- The answer to a call. -/
def answer (c : Cache) (d : Disk) (now : Nat) : Call → Answer
  | .store id report => .stored (c.store d now id report).1
  | .insert made report => .inserted (c.insert d now made report).1
  | .get id => .found (c.get d now id).1
  | .remove _ => .removed

/-- Whether a call makes accesses and no others: on every disk where they have the same
results, the answer and the cache are the same, and the disk is changed by them. -/
def Makes (c : Cache) (d : Disk) (now : Nat) (call : Call) (as : List Access) : Prop :=
  ∀ d', Access.SameResults c.device d d' as →
    c.answer d' now call = c.answer d now call ∧
      c.perform d' now call = ((c.perform d now call).1, as.foldl (Access.apply c.device) d')

/-! ## The list is complete -/

section Makes

variable {c : Cache} {d d' : Disk}

theorem foldl_discard (ids : List String) (d : Disk) :
    ids.foldl c.discard d = (c.removals ids).foldl (Access.apply c.device) d := by
  induction ids generalizing d with
  | nil => rfl
  | cons i ids ih =>
    rw [List.foldl_cons, ih, removals, removals, List.filterMap_cons, discard]
    cases c.file? i <;> rfl

/-- What is listed is found by the names and the dates. -/
theorem listed_eq (device : Device) (d : Disk) (directory : Path) :
    listed device d directory = (candidates d directory).filterMap fun name =>
      (d.date? device (entryOf directory name)).map fun time => (time, name) := by
  rw [candidates, List.filterMap_filter, listed]
  cases d.names directory with
  | error _ => rfl
  | ok names =>
    refine List.filterMap_congr fun name _ => ?_
    simp only [decide_eq_true_eq]
    rfl

theorem prune_of_sameResults (h : Access.SameResults c.device d d' (c.pruning d)) :
    c.prune d' = (c.pruning d).foldl (Access.apply c.device) d' := by
  unfold pruning prune at *
  cases hdirectory : c.directory with
  | none => rfl
  | some directory =>
    rw [hdirectory] at h
    obtain ⟨hnames, hrest⟩ := h
    have hdates : ∀ p ∈ (candidates d directory).map (entryOf directory),
        d.date? c.device p = d'.date? c.device p :=
      Access.sameResults_dates.1 (Access.sameResults_append.1 hrest).1
    have hnames : d.names directory = d'.names directory := hnames
    have hcandidates : candidates d' directory = candidates d directory := by
      rw [candidates, candidates, hnames]
    have hlisted : listed c.device d' directory = listed c.device d directory := by
      rw [listed_eq, listed_eq, hcandidates]
      refine List.filterMap_congr fun name hname => ?_
      rw [hdates _ (List.mem_map_of_mem hname)]
    dsimp only
    rw [hlisted, List.cons_append, List.foldl_cons, List.foldl_append, Access.foldl_dates,
      List.foldl_map, List.foldl_map]
    rfl

theorem foldl_writing (c : Cache) (d : Disk) (id : String) (e : Entry) (now : Nat) :
    (c.writing id e now).foldl (Access.apply c.device) d = (c.writeEntry d id e now).2 := by
  unfold writing writeEntry
  cases c.file? id <;> rfl

/-- A file can be written on both disks, or on none for the same reason. -/
theorem writeEntry_of_sameResults {id : String} {e : Entry} {now : Nat}
    (h : Access.SameResults c.device d d' (c.writing id e now)) :
    (c.writeEntry d id e now).1 = (c.writeEntry d' id e now).1 := by
  unfold writing writeEntry at *
  cases hfile : c.file? id with
  | none => rfl
  | some p =>
    rw [hfile] at h
    exact h.1

/-- Storing keeps the entry, then writes its file, then removes what is past the limit. -/
theorem store_of_isId {id : String} (hid : isId id = true) (c : Cache) (d : Disk) (now : Nat)
    (report : Report) :
    c.store d now id report =
      match c.writeEntry (c.keep d id (c.entryAt now report)).2 id (c.entryAt now report) now with
      | (.error fault, left) =>
        (.error (.io fault.message), (c.keep d id (c.entryAt now report)).1, left)
      | (.ok (), written) =>
        (.ok report, (c.keep d id (c.entryAt now report)).1, c.prune written) := by
  rw [store, hid]
  rfl

/-- Storing, on a disk with the same results. -/
theorem store_of_sameResults {now : Nat} {id : String} {report : Report}
    (h : Access.SameResults c.device d d' (c.storing d now id report)) :
    c.store d' now id report = ((c.store d now id report).1, (left (c.store d now id report)).1,
      (c.storing d now id report).foldl (Access.apply c.device) d') := by
  unfold storing at *
  cases hid : isId id with
  | false =>
    rw [store, hid, store, hid]
    rfl
  | true =>
    have hmemory : (c.keep d' id (c.entryAt now report)).1
        = (c.keep d id (c.entryAt now report)).1 := rfl
    have hevicted : ∀ d, (c.keep d id (c.entryAt now report)).2
        = (c.removals (c.evicted id (c.entryAt now report))).foldl (Access.apply c.device) d :=
      fun d => foldl_discard _ d
    simp only [hid, Bool.not_true, Bool.false_eq_true, if_false] at h ⊢
    -- the accesses come in three parts, each on the disk that the one before has left
    obtain ⟨hfirst, hprune⟩ := Access.sameResults_append.1 h
    obtain ⟨-, hwrite⟩ := Access.sameResults_append.1 hfirst
    rw [List.foldl_append, List.foldl_append, foldl_writing, foldl_writing, ← hevicted,
      ← hevicted] at hprune
    rw [List.foldl_append, List.foldl_append, foldl_writing, ← hevicted]
    rw [← hevicted, ← hevicted] at hwrite
    rw [store_of_isId hid, store_of_isId hid, hmemory]
    -- both disks take the file of the entry, or none does
    have hresult := writeEntry_of_sameResults hwrite
    generalize c.writeEntry (c.keep d id (c.entryAt now report)).2 id (c.entryAt now report) now
      = one at hresult hprune ⊢
    generalize c.writeEntry (c.keep d' id (c.entryAt now report)).2 id (c.entryAt now report) now
      = other at hresult hprune ⊢
    obtain ⟨result, written⟩ := one
    obtain ⟨result', written'⟩ := other
    cases hresult
    cases result with
    | error fault => rfl
    | ok =>
      have hpruned :
          c.prune written' = (c.pruning written).foldl (Access.apply c.device) written' :=
        prune_of_sameResults hprune
      exact congrArg (fun disk => (Except.ok report,
        (c.keep d id (c.entryAt now report)).1, disk)) hpruned

theorem get_of_heldFresh {now : Nat} {id : String} {e : Entry} (hid : isId id = true)
    (hheld : c.heldFresh? now id = some e) (d : Disk) :
    c.get d now id = (some e.report, c, d) := by
  rw [heldFresh?] at hheld
  rw [get, hid, hheld]
  rfl

/-- What is not held is looked for in its file. -/
theorem get_of_not_heldFresh {now : Nat} {id : String} (hid : isId id = true)
    (hheld : c.heldFresh? now id = none) (d : Disk) :
    c.get d now id =
      match c.entryIn? d id with
      | none => (none, c, d)
      | some e =>
        if e.isFresh c.lifetime (seconds now) then
          (some e.report, { c with kept := putKept id e c.kept }, d)
        else (none, c.remove d id) := by
  rw [heldFresh?] at hheld
  rw [get, hid, hheld]
  rfl

theorem foldl_reading (c : Cache) (d : Disk) (id : String) :
    ((c.file? id).toList.map Access.read).foldl (Access.apply c.device) d = d := by
  cases c.file? id <;> rfl

theorem entryIn?_of_sameResults {id : String}
    (h : Access.SameResults c.device d d' ((c.file? id).toList.map .read)) :
    c.entryIn? d' id = c.entryIn? d id := by
  unfold entryIn?
  cases hfile : c.file? id with
  | none => rfl
  | some p =>
    rw [hfile] at h
    have hread : d.readText p = d'.readText p := h.1
    simp [hread]

/-- Getting, on a disk with the same results. -/
theorem get_of_sameResults {now : Nat} {id : String}
    (h : Access.SameResults c.device d d' (c.getting d now id)) :
    c.get d' now id = ((c.get d now id).1, (left (c.get d now id)).1,
      (c.getting d now id).foldl (Access.apply c.device) d') := by
  unfold getting at *
  cases hid : isId id with
  | false =>
    rw [get, hid, get, hid]
    rfl
  | true =>
    cases hheld : c.heldFresh? now id with
    | some e =>
      rw [get_of_heldFresh hid hheld, get_of_heldFresh hid hheld]
      rfl
    | none =>
      simp only [hid, hheld, Bool.not_true, Option.isSome_none, Bool.or_false,
        Bool.false_eq_true, if_false] at h ⊢
      have hentry := entryIn?_of_sameResults (Access.sameResults_append.1 h).1
      rw [get_of_not_heldFresh hid hheld, get_of_not_heldFresh hid hheld, hentry,
        List.foldl_append, foldl_reading]
      cases c.entryIn? d id with
      | none => rfl
      | some e =>
        dsimp only
        cases e.isFresh c.lifetime (seconds now) with
        | true => rfl
        | false =>
          have hremove : c.discard d' id = (c.removals [id]).foldl (Access.apply c.device) d' :=
            foldl_discard [id] d'
          exact congrArg (fun disk => (none, (c.remove d id).1, disk)) hremove

end Makes

theorem makes_storing (c : Cache) (d : Disk) (now : Nat) (id : String) (report : Report) :
    c.Makes d now (.store id report) (c.storing d now id report) := by
  intro d' h
  have hstore := store_of_sameResults h
  constructor
  · rw [answer, hstore]
    rfl
  · rw [perform, hstore]
    rfl

/-- To insert is to store under a new id, whatever the new id is. -/
theorem answer_insert (c : Cache) (d : Disk) (now made : Nat) (report : Report) :
    c.answer d now (.insert made report) =
      match c.answer d now (.store (mintId now made) report) with
      | .stored result => .inserted (result.map fun _ => mintId now made)
      | other => other := by
  rw [answer.eq_2, insert_eq, answer.eq_1]

/-- **The list is complete.** Wherever the accesses of a call have the results that they have
here, the call does the same, and does to the disk what they do. -/
theorem makes_accesses (c : Cache) (d : Disk) (now : Nat) (call : Call) :
    c.Makes d now call (c.accesses d now call) := by
  cases call with
  | store id report => exact c.makes_storing d now id report
  | insert made report =>
    intro d' h
    have hstore := c.makes_storing d now (mintId now made) report d' h
    constructor
    · rw [answer_insert, answer_insert, hstore.1]
    · rw [perform_insert, perform_insert]
      exact hstore.2
  | get id =>
    intro d' h
    have hget := get_of_sameResults h
    constructor
    · rw [answer, hget]
      rfl
    · rw [perform, hget]
      rfl
  | remove id =>
    intro d' _
    have hremove : c.discard d' id = (c.removals [id]).foldl (Access.apply c.device) d' :=
      foldl_discard [id] d'
    exact ⟨rfl, congrArg (fun disk => ((c.remove d id).1, disk)) hremove⟩

/-! ## Where the accesses are -/

/-- A name with an extension is a name. -/
theorem isName_of_extension? {name extension : String}
    (h : Path.extension? name = some extension) : IsName name := by
  have hnone : ∀ unnamed ∈ ["", ".", ".."], name ≠ unnamed := by
    rintro unnamed hmem rfl
    have hextension : ∀ unnamed ∈ ["", ".", ".."], Path.extension? unnamed = none := by decide
    rw [hextension name hmem] at h
    cases h
  exact ⟨hnone "" (by simp), hnone "." (by simp), hnone ".." (by simp)⟩

section Within

variable {c : Cache} {directory : Path} (hdirectory : c.directory = some directory)

include hdirectory

/-- The file of an id is an entry of the directory. -/
theorem file?_within {id : String} (hid : isId id = true) {p : Path} (hp : c.file? id = some p) :
    ∃ name, IsName name ∧ p = directory.append ⟨false, [name]⟩ := by
  rw [file?_of_isId hid, hdirectory, Option.map_some] at hp
  exact ⟨id ++ ".json", isName_of_isId hid, (Option.some.inj hp).symm⟩

theorem removals_within {ids : List String} (hids : ∀ i ∈ ids, isId i = true) :
    ∀ a ∈ c.removals ids, a.Within directory := by
  intro a ha
  obtain ⟨p, hp, rfl⟩ := List.mem_map.1 ha
  obtain ⟨i, hi, hfile⟩ := List.mem_filterMap.1 hp
  exact file?_within hdirectory (hids i hi) hfile

theorem pruning_within (d : Disk) : ∀ a ∈ c.pruning d, a.Within directory := by
  have hname : ∀ name ∈ candidates d directory, IsName name := by
    intro name hmem
    have hextension := of_decide_eq_true (List.mem_filter.1 hmem).2
    exact isName_of_extension? hextension
  intro a ha
  rw [pruning, hdirectory] at ha
  rcases List.mem_append.1 ha with hlook | hremove
  · rcases List.mem_cons.1 hlook with rfl | hdate
    · exact rfl
    · obtain ⟨p, hp, rfl⟩ := List.mem_map.1 hdate
      obtain ⟨name, hmem, rfl⟩ := List.mem_map.1 hp
      exact ⟨name, hname name hmem, rfl⟩
  · obtain ⟨p, hp, rfl⟩ := List.mem_map.1 hremove
    obtain ⟨name, hstale, rfl⟩ := List.mem_map.1 hp
    refine ⟨name, ?_, rfl⟩
    -- what is past the limit is among the files that were listed
    obtain ⟨⟨time, name⟩, hsorted, rfl⟩ := List.mem_map.1 hstale
    have hlisted := List.mem_mergeSort.1 (List.mem_of_mem_take hsorted)
    rw [listed_eq] at hlisted
    obtain ⟨other, hmem, hdate⟩ := List.mem_filterMap.1 hlisted
    obtain ⟨time, -, hpair⟩ := Option.map_eq_some_iff.1 hdate
    cases hpair
    exact hname _ hmem

theorem storing_within (h : c.HoldsIds) (d : Disk) (now : Nat) (id : String) (report : Report) :
    ∀ a ∈ c.storing d now id report, a.Within directory := by
  intro a ha
  unfold storing at ha
  cases hid : isId id with
  | false => simp [hid] at ha
  | true =>
    simp only [hid, Bool.not_true, Bool.false_eq_true, if_false, List.mem_append] at ha
    rcases ha with (hremoval | hwriting) | hpruning
    · exact removals_within hdirectory (h.evicted hid _) a hremoval
    · obtain ⟨p, hp, rfl⟩ := List.mem_map.1 hwriting
      exact file?_within hdirectory hid (Option.mem_toList.1 hp)
    · split at hpruning
      · cases hpruning
      · exact pruning_within hdirectory _ a hpruning

theorem getting_within (d : Disk) (now : Nat) (id : String) :
    ∀ a ∈ c.getting d now id, a.Within directory := by
  intro a ha
  unfold getting at ha
  cases hid : isId id with
  | false => simp [hid] at ha
  | true =>
    split at ha
    · cases ha
    · rcases List.mem_append.1 ha with hread | hexpired
      · obtain ⟨p, hp, rfl⟩ := List.mem_map.1 hread
        exact file?_within hdirectory hid (Option.mem_toList.1 hp)
      · split at hexpired
        · cases hexpired
        · split at hexpired
          · cases hexpired
          · refine removals_within hdirectory ?_ a hexpired
            intro i hi
            rw [List.mem_singleton.1 hi]
            exact hid

end Within

/-- Without a directory there are no accesses. -/
theorem accesses_of_no_directory {c : Cache} (h : c.directory = none) (d : Disk) (now : Nat)
    (call : Call) : c.accesses d now call = [] := by
  have hfile : ∀ id, c.file? id = none := fun id => by rw [file?, h, Option.map_none]
  have hremovals : ∀ ids, c.removals ids = [] := fun ids => by
    rw [removals, List.filterMap_eq_nil_iff.2 fun id _ => hfile id, List.map_nil]
  have hstoring : ∀ id report, c.storing d now id report = [] := by
    intro id report
    unfold storing
    simp only [hremovals, writing, hfile, pruning, h]
    split
    · rfl
    · split <;> rfl
  cases call with
  | store id report => exact hstoring id report
  | insert made report => exact hstoring _ report
  | get id =>
    simp only [accesses, getting, hfile, hremovals]
    split
    · rfl
    · rw [entryIn?_of_no_directory h]
      rfl
  | remove id => exact hremovals [id]

/-- Every access is within the directory, but for the removal of what is no id. -/
theorem of_mem_accesses {c : Cache} (h : c.HoldsIds) {d : Disk} {now : Nat} {call : Call}
    {a : Access} (ha : a ∈ c.accesses d now call) :
    (∃ directory, c.directory = some directory ∧ a.Within directory) ∨
      ∃ id p, call = .remove id ∧ isId id = false ∧ c.file? id = some p ∧ a = .remove p := by
  cases hdirectory : c.directory with
  | none =>
    rw [accesses_of_no_directory hdirectory] at ha
    cases ha
  | some directory =>
    cases call with
    | store id report => exact .inl ⟨_, rfl, storing_within hdirectory h _ _ _ _ a ha⟩
    | insert made report => exact .inl ⟨_, rfl, storing_within hdirectory h _ _ _ _ a ha⟩
    | get id => exact .inl ⟨_, rfl, getting_within hdirectory _ _ _ a ha⟩
    | remove id =>
      cases hid : isId id with
      | true =>
        refine .inl ⟨_, rfl, removals_within hdirectory ?_ a ha⟩
        intro i hi
        rw [List.mem_singleton.1 hi]
        exact hid
      | false =>
        obtain ⟨p, hp, rfl⟩ := List.mem_map.1 ha
        obtain ⟨i, hi, hfile⟩ := List.mem_filterMap.1 hp
        rw [List.mem_singleton.1 hi] at hfile
        exact .inr ⟨id, p, rfl, hid, hfile, rfl⟩

/-! ## Texts that are no ids -/

/-- A call about what is no id leaves memory as it is. Only a removal touches the disk. -/
theorem perform_of_not_isId {c : Cache} (h : c.HoldsIds) (d : Disk) {now : Nat} {call : Call}
    (hid : isId (call.id now) = false) :
    (c.perform d now call).1 = c ∧
      ((∀ id, call ≠ .remove id) →
        c.accesses d now call = [] ∧ (c.perform d now call).2 = d) := by
  cases call with
  | store id report =>
    have hid : isId id = false := hid
    rw [perform, (c.stored d now id report).eq_of_not_isId hid]
    refine ⟨rfl, fun _ => ⟨?_, rfl⟩⟩
    rw [accesses, storing, hid]
    rfl
  | insert made report =>
    have hid : isId (mintId now made) = false := hid
    rw [isId_mintId] at hid
    cases hid
  | get id =>
    have hid : isId id = false := hid
    rw [perform, get, hid]
    refine ⟨rfl, fun _ => ⟨?_, rfl⟩⟩
    rw [accesses, getting, hid]
    rfl
  | remove id =>
    have hid : isId id = false := hid
    refine ⟨?_, fun hno => absurd rfl (hno id)⟩
    have hkept : dropKept id c.kept = c.kept := by
      refine List.filter_eq_self.2 fun x hx => ?_
      have hne : x.1 ≠ id := by
        intro hsame
        rw [← hsame, h x hx] at hid
        cases hid
      exact decide_eq_true hne
    show ({ c with kept := dropKept id c.kept } : Cache) = c
    rw [hkept]

/-- **Accesses stay in the directory, but for one.** A new cache is used in any way on any
disk, which others may change, and on any storage. Then a call makes the accesses that are
listed for it and no others, and all of them are to entries of the directory and to the list
of these, except that `remove` also removes what a text leads to that is no id. Any other call
about such a text does nothing at all, and none changes what is in memory. -/
theorem accesses_stay_in_directory (directory : Option Path) (lifetime limit next : Nat)
    (device : Device) (d : Disk) (events : List Event) (now : Nat) (call : Call) :
    let s := Session.run ⟨empty directory lifetime limit next device, d, 0⟩ events
    let made := s.cache.accesses s.disk now call
    s.cache.Makes s.disk now call made ∧
      (∀ a ∈ made, (∃ p, directory = some p ∧ a.Within p) ∨
        ∃ id p, call = .remove id ∧ isId id = false ∧ s.cache.file? id = some p ∧
          a = .remove p) ∧
      (isId (call.id now) = false →
        (s.cache.perform s.disk now call).1 = s.cache ∧
          ((∀ id, call ≠ .remove id) →
            made = [] ∧ (s.cache.perform s.disk now call).2 = s.disk)) := by
  intro s made
  have hids : s.cache.HoldsIds := holdsIds_run directory lifetime limit next device d events
  have hdirectory : s.cache.directory = directory := directory_session_run _ events
  refine ⟨s.cache.makes_accesses s.disk now call, fun a ha => ?_,
    perform_of_not_isId hids s.disk⟩
  have hwhere := of_mem_accesses hids ha
  rw [hdirectory] at hwhere
  exact hwhere

/-- Removing `a.b` and `../x`, which are no ids, removes a file of the directory and one
outside it. -/
theorem removed_outside_directory :
    let file : Files.Node := .file ⟨.text "secret", 0⟩
    let d : Disk := ⟨.directory [("results", .directory [("a.b.json", file)]), ("x.json", file)], []⟩
    let c := empty (some ⟨true, ["results"]⟩) 3600 1 0
    isId "a.b" = false ∧ isId "../x" = false ∧
      (d.root.get? ["results", "a.b.json"]).isSome ∧
      ¬ ((c.perform d 0 (.remove "a.b")).2.root.get? ["results", "a.b.json"]).isSome ∧
      (d.root.get? ["x.json"]).isSome ∧
      ¬ ((c.perform d 0 (.remove "../x")).2.root.get? ["x.json"]).isSome := by
  decide +kernel

end Cache

end PatternAudit
