/-
A directory of files.

`Holds d p files` says that a path leads to a directory which holds files and nothing else.
Reading, writing and removing by a name of the directory is then looking up, entering and
dropping that name in a list. The path may be any path, links and `..` in it included: a
file that comes or goes does not change where it leads.
-/
import PatternAudit.Proofs.Files.Written

set_option autoImplicit false

namespace PatternAudit.Files

/-- A name that an entry of a directory can have. -/
structure IsEntryName (name : String) : Prop extends IsName name where
  short : name.utf8ByteSize ≤ Node.maxName
  clean : '\x00' ∉ name.toList

/-- The entries of a directory that holds files. -/
def fileEntries (files : List (String × File)) : List (String × Node) :=
  files.map fun x => (x.1, .file x.2)

/-- Files without the one of a name. -/
def without (name : String) (files : List (String × File)) : List (String × File) :=
  files.filter fun x => decide (x.1 ≠ name)

section FileEntries

variable (name : String) (files : List (String × File))

theorem lookup_fileEntries :
    Json.lookup name (fileEntries files) = (Json.lookup name files).map Node.file :=
  Json.lookup_map Function.injective_id Node.file name files

theorem putEntry_fileEntries (f : File) :
    putEntry name (.file f) (fileEntries files) = fileEntries (Json.insert name f files) := by
  rw [putEntry_eq]
  exact Json.insert_map Function.injective_id Node.file name f files

theorem eraseEntry_fileEntries :
    eraseEntry name (fileEntries files) = fileEntries (without name files) := by
  rw [eraseEntry, fileEntries, List.filter_map]
  rfl

end FileEntries

/-! ## Steps -/

/-- A name leads to the entry of a directory, however links are followed, unless the entry is a
link. -/
theorem Node.step_entry {root : Node} {above : Place} {es : List (String × Node)}
    (habove : root.get? above = some (.directory es)) {name : String} (hname : IsEntryName name)
    (hlink : ∀ target, Json.lookup name es ≠ some (.link target))
    (follow : Place → Path → Except Fault Place) :
    root.step follow above name = .ok (above ++ [name]) := by
  rw [Node.step, habove]
  dsimp only
  rw [if_neg (by simp [hname.ne_empty, hname.ne_dot]), if_neg hname.ne_dots,
    if_neg (Nat.not_lt.2 hname.short)]
  split
  · rename_i target hentry
    exact absurd hentry (hlink target)
  · rfl

/-- A name of such a directory leads to its entry, however links are followed. -/
theorem Node.step_fileEntries {root : Node} {above : Place} {files : List (String × File)}
    (habove : root.get? above = some (.directory (fileEntries files))) {name : String}
    (hname : IsEntryName name) (follow : Place → Path → Except Fault Place) :
    root.step follow above name = .ok (above ++ [name]) := by
  refine Node.step_entry habove hname (fun target => ?_) follow
  -- the entry is a file, or there is none
  rw [lookup_fileEntries]
  cases Json.lookup name files <;> simp

/-- Empty pieces of a path lead nowhere else. -/
theorem Node.eq_of_steps_empty {root : Node} {follow : Place → Path → Except Fault Place}
    {empties : List String} (hempties : ∀ piece ∈ empties, piece = "") {first place : Place}
    (h : empties.foldlM (root.step follow) first = .ok place) : first = place := by
  induction empties generalizing first with
  | nil =>
    cases h
    rfl
  | cons piece empties ih =>
    obtain ⟨hpiece, hrest⟩ := List.forall_mem_cons.1 hempties
    rw [List.foldlM_cons, bind_eq_ok_iff] at h
    obtain ⟨next, hstep, hlater⟩ := h
    -- a step by an empty piece stays where it is
    have hstay : first = next := by
      rw [hpiece, Node.step_eq] at hstep
      split at hstep <;> cases hstep
      rfl
    exact hstay.trans (ih hrest hlater)

namespace Disk

/-! ## Reading, writing and removing -/

/-- Whether a path leads to a directory that holds files and nothing else. -/
structure Holds (d : Disk) (p : Path) (files : List (String × File)) : Prop where
  find : d.find p = .ok (.directory (fileEntries files))
  nodup : (files.map Prod.fst).Nodup
  named : ∀ x ∈ files, IsEntryName x.1

section Holds

variable {d : Disk} {p : Path} {files : List (String × File)} (h : d.Holds p files)

include h

theorem Holds.names : d.names p = .ok (files.map Prod.fst) := by
  rw [Disk.names, h.find]
  show Except.ok ((fileEntries files).map Prod.fst) = .ok (files.map Prod.fst)
  rw [fileEntries, List.map_map]
  rfl

theorem Holds.place : ∃ above, wellNamed p = true ∧ p.pieces ≠ [] ∧
    d.root.resolve Node.maxLinks d.current p = .ok above ∧
    d.root.get? above = some (.directory (fileEntries files)) := by
  obtain ⟨above, hlocate, habove⟩ := find_eq_ok_iff.1 h.find
  obtain ⟨hnamed, hpieces, hresolve⟩ := locate_eq_ok_iff.1 hlocate
  exact ⟨above, hnamed, by simpa using hpieces, hresolve, habove⟩

variable {name : String} (hname : IsEntryName name)

include hname

/-- A name of the directory leads to the entry of that name. -/
theorem Holds.locate_entry {above : Place}
    (hresolve : d.root.resolve Node.maxLinks d.current p = .ok above)
    (habove : d.root.get? above = some (.directory (fileEntries files))) :
    d.locate (p.append ⟨false, [name]⟩) = .ok (above ++ [name]) := by
  obtain ⟨-, hnamed, -, -⟩ := h.place
  have happend : p.append ⟨false, [name]⟩ = ⟨p.absolute, p.pieces ++ [name]⟩ := by
    simp [Path.append]
  have hclean : wellNamed (p.append ⟨false, [name]⟩) = true := by
    rw [wellNamed] at hnamed ⊢
    rw [happend, List.all_append, hnamed]
    simp [hname.clean]
  refine locate_eq_ok_iff.2 ⟨hclean, by rw [happend]; simp, ?_⟩
  rw [happend, Node.maxLinks, Node.resolve, List.foldlM_append, bind_eq_ok_iff]
  refine ⟨above, hresolve, ?_⟩
  rw [List.foldlM_cons, Node.step_fileEntries habove hname]
  rfl

/-- **Looking up a name** of the directory. -/
theorem Holds.find_entry :
    d.find (p.append ⟨false, [name]⟩)
      = match Json.lookup name files with
        | some f => .ok (.file f)
        | none => .error .missing := by
  obtain ⟨above, -, -, hresolve, habove⟩ := h.place
  rw [Disk.find, h.locate_entry hname hresolve habove]
  simp only [bind, Except.bind, Node.get?_entry habove, lookup_fileEntries]
  cases Json.lookup name files <;> rfl

theorem Holds.readText_entry :
    d.readText (p.append ⟨false, [name]⟩)
      = match Json.lookup name files with
        | some f => f.content.text?
        | none => .error .missing := by
  rw [Disk.readText, h.find_entry hname]
  cases Json.lookup name files <;> rfl

/-- **Writing a file** of the directory enters it, and does not fail. -/
theorem Holds.write_entry (content : Content) (now : Nat) :
    ∃ d', d.write (p.append ⟨false, [name]⟩) content now = .ok d' ∧
      d'.Holds p (Json.insert name ⟨content, now⟩ files) := by
  obtain ⟨above, hnamed, hpieces, hresolve, habove⟩ := h.place
  have hentry : ∀ es, d.root.get? (above ++ [name]) ≠ some (.directory es) := by
    intro es hes
    rw [Node.get?_entry habove, lookup_fileEntries] at hes
    obtain ⟨g, -, hg⟩ := Option.map_eq_some_iff.1 hes
    cases hg
  -- the name is the last piece of the path, and no slash comes after it
  have hlast : (p.append ⟨false, [name]⟩).pieces.getLast? ≠ some "" := by
    simp [Path.append, hname.ne_empty]
  have hplace : d.locateFile (p.append ⟨false, [name]⟩) = .ok (above ++ [name]) :=
    locateFile_eq_ok_iff.2 ⟨hlast, h.locate_entry hname hresolve habove, hentry⟩
  refine ⟨d.setFile (above ++ [name]) ⟨content, now⟩, ?_, ?_, ?_, ?_⟩
  · rw [write, hplace]
    rfl
  · rw [find_eq_ok_iff]
    refine ⟨above, ?_, ?_⟩
    · rw [locate_setFile hplace, locate_eq_ok_iff]
      exact ⟨hnamed, by simpa using hpieces, hresolve⟩
    · rw [← putEntry_fileEntries]
      exact Node.get?_put_entry habove name _
  · exact Json.nodup_keys_insert h.nodup name _
  · intro x hx
    rcases Json.mem_keys_insert.1 (List.mem_map_of_mem hx) with hnew | hold
    · exact hnew ▸ hname
    · obtain ⟨y, hy, hyx⟩ := List.mem_map.1 hold
      exact hyx ▸ h.named y hy

/-- **Removing a file** of the directory drops it, if it is there. -/
theorem Holds.remove_entry :
    ((d.remove (p.append ⟨false, [name]⟩)).toOption.getD d).Holds p (without name files) := by
  obtain ⟨above, hnamed, hpieces, hresolve, habove⟩ := h.place
  have hlocate : d.locateName (p.append ⟨false, [name]⟩) = .ok (above ++ [name]) := by
    have hwell := (locate_eq_ok_iff.1 (h.locate_entry hname hresolve habove)).1
    have hreverse : (p.append ⟨false, [name]⟩).pieces.reverse = name :: p.pieces.reverse := by
      simp [Path.append]
    have habsolute : (p.append ⟨false, [name]⟩).absolute = p.absolute := by simp [Path.append]
    rw [locateName, hreverse]
    simp only [hwell, habsolute, List.reverse_reverse, Bool.not_true, Bool.false_eq_true, if_false]
    rw [if_neg (by simp [hname.ne_empty, hname.ne_dot, hname.ne_dots]), hresolve]
    exact bind_eq_ok_iff.2 ⟨above, rfl, Node.step_fileEntries habove hname _⟩
  have hentry := Node.get?_entry habove name
  rw [lookup_fileEntries] at hentry
  cases hlookup : Json.lookup name files with
  | none =>
    rw [hlookup] at hentry
    have hfault : d.remove (p.append ⟨false, [name]⟩) = .error .missing := by
      rw [remove, hlocate]
      simp only [bind, Except.bind, hentry, Option.map_none]
    have hsame : without name files = files := by
      refine List.filter_eq_self.2 fun x hx => decide_eq_true fun hx' => ?_
      rw [Json.lookup_eq_none_iff] at hlookup
      exact hlookup (hx' ▸ List.mem_map_of_mem hx)
    rw [hfault, hsame]
    exact h
  | some f =>
    rw [hlookup] at hentry
    have hremove : d.remove (p.append ⟨false, [name]⟩)
        = .ok { d with root := d.root.erase (above ++ [name]) } := by
      rw [remove, hlocate]
      simp only [bind, Except.bind, hentry, Option.map_some]
    rw [hremove]
    refine ⟨?_, h.nodup.sublist (List.filter_sublist.map _),
      fun x hx => h.named x (List.mem_filter.1 hx).1⟩
    rw [find_eq_ok_iff]
    refine ⟨above, ?_, ?_⟩
    · rw [locate_eq_ok_iff]
      exact ⟨hnamed, by simpa using hpieces,
        (Node.resolve_erase (by simp) hentry ..).2 hresolve⟩
    · rw [← eraseEntry_fileEntries]
      exact Node.get?_erase_entry habove name

end Holds

/-! ## Making a directory that is there -/

section MakeDirectories

variable {d : Disk} {p : Path} {es : List (String × Node)}

end MakeDirectories

end Disk

end PatternAudit.Files
