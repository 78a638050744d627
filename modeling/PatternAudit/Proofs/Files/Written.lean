/-
Files after a write.

A path may lead through any number of links before a file is written, but where it ends is
always an entry of a directory, and that entry is no link any more (`Node.entry_of_resolve`).
So a write changes one place (`face_setFile`), and every path leads where it led before
(`resolve_setFile`). This holds for a write to the end as well as for one that breaks off:
`Written` lists what writing on a device can leave, and it is the same place each time.

In a directory that holds no links, the other names read as before (`readText_setFile`).
-/
import PatternAudit.Files.Device
import PatternAudit.Proofs.Files.Removed

set_option autoImplicit false

namespace PatternAudit.Files

namespace Node

variable {root : Node}

/-- Above a place where something stands there is a directory. -/
theorem directory_of_get?_append {above rest : Place} {node : Node}
    (h : root.get? (above ++ rest) = some node) (hrest : rest ≠ []) :
    ∃ es, root.get? above = some (directory es) := by
  rw [get?_append] at h
  obtain ⟨below, habove, hbelow⟩ := Option.bind_eq_some_iff.1 h
  cases rest with
  | nil => exact absurd rfl hrest
  | cons name rest =>
    cases below with
    | directory es => exact ⟨es, habove⟩
    | file f => cases hbelow
    | link target => cases hbelow

/-- Above a directory there are directories. -/
theorem directory_of_dropLast {place : Place} {es : List (String × Node)}
    (h : root.get? place = some (directory es)) :
    ∃ es', root.get? place.dropLast = some (directory es') := by
  rcases List.eq_nil_or_concat place with rfl | ⟨above, name, rfl⟩
  · exact ⟨es, h⟩
  · rw [List.concat_eq_append] at h ⊢
    rw [List.dropLast_concat]
    exact directory_of_get?_append h (by simp)

/-- Where there is a directory, the root is one. -/
theorem directory_of_get? {place : Place} {es : List (String × Node)}
    (h : root.get? place = some (directory es)) : ∃ es', root.get? [] = some (directory es') := by
  cases place with
  | nil => exact ⟨es, h⟩
  | cons name rest =>
    have hbelow : root.get? ([] ++ name :: rest) = some (directory es) := h
    exact directory_of_get?_append hbelow (List.cons_ne_nil name rest)

/-- Whether a place is that of an entry of a directory, where there is a file or nothing. -/
def IsOpen (root : Node) (place : Place) : Prop :=
  ∃ above name es, place = above ++ [name] ∧ root.get? above = some (directory es) ∧
    ∀ node, Json.lookup name es = some node → ∃ f, node = file f

/-- A step to what is no directory is a step to an entry, or one along a link. -/
theorem isOpen_of_step {follow : Place → Path → Except Fault Place} {place r : Place}
    {piece : String} (h : root.step follow place piece = .ok r)
    (hr : ∀ es, root.get? r ≠ some (directory es)) :
    root.IsOpen r ∨ ∃ es target, root.get? place = some (directory es) ∧
      follow place target = .ok r := by
  unfold step at h
  split at h
  · cases h
  · cases h
  · cases h
  · rename_i es hplace
    split at h
    · cases h
      exact absurd hplace (hr es)
    · split at h
      · cases h
        obtain ⟨es', habove⟩ := directory_of_dropLast hplace
        exact absurd habove (hr es')
      · split at h
        · cases h
        · split at h
          · rename_i target _
            exact .inr ⟨es, target, hplace, h⟩
          · rename_i hlink
            cases h
            refine .inl ⟨place, piece, es, rfl, hplace, fun node hnode => ?_⟩
            cases node with
            | file f => exact ⟨f, rfl⟩
            | directory below =>
              refine absurd ?_ (hr below)
              rw [get?_entry hplace, hnode]
            | link target => exact absurd hnode (hlink target)

/-- **Where a path ends.** What it leads to is a directory, or the entry of one where there is
a file or nothing. A path without pieces ends where it starts. -/
theorem entry_of_resolve {fuel : Nat} {place r : Place} {path : Path}
    (h : root.resolve fuel place path = .ok r)
    (hstart : path.pieces = [] →
      ∃ es, root.get? (if path.absolute then [] else place) = some (directory es))
    (hr : ∀ es, root.get? r ≠ some (directory es)) : root.IsOpen r := by
  induction fuel generalizing place path with
  | zero => cases h
  | succ fuel ih =>
    rw [resolve] at h
    rcases List.eq_nil_or_concat path.pieces with hnone | ⟨pieces, last, hsplit⟩
    · obtain ⟨es, hes⟩ := hstart hnone
      rw [hnone] at h
      cases h
      exact absurd hes (hr es)
    · rw [hsplit, List.concat_eq_append, List.foldlM_append, bind_eq_ok_iff] at h
      obtain ⟨before, -, hlast⟩ := h
      have hstep : root.step (root.resolve fuel) before last = .ok r := by simpa using hlast
      rcases isOpen_of_step hstep hr with hopen | ⟨es, target, hbefore, hfollow⟩
      · exact hopen
      · -- a link without pieces leads to the directory that it is in, or to the root
        refine ih hfollow fun _ => ?_
        split
        · exact directory_of_get? hbefore
        · exact ⟨es, hbefore⟩

end Node

namespace Disk

variable {d : Disk} {p : Path} {place : Place}

/-! ## The place of a file -/

/-- Where no slash is at the end of a path, nothing is cut off there. -/
theorem dropEmpty_eq_iff {pieces : List String} :
    (pieces.reverse.dropWhile String.isEmpty).reverse = pieces ↔ pieces.getLast? ≠ some "" := by
  rw [List.reverse_eq_iff, ← List.head?_reverse]
  cases pieces.reverse with
  | nil => simp
  | cons last rest =>
    by_cases hlast : last = ""
    · have hlength := (List.dropWhile_sublist String.isEmpty (l := rest)).length_le
      have hne : rest.dropWhile String.isEmpty ≠ "" :: rest := by
        intro hsame
        rw [hsame, List.length_cons] at hlength
        omega
      simp [hlast, hne]
    · simp [hlast]

theorem locateFile_eq_ok_iff :
    d.locateFile p = .ok place ↔ p.pieces.getLast? ≠ some "" ∧ d.locate p = .ok place ∧
      ∀ es, d.root.get? place ≠ some (.directory es) := by
  rw [locateFile, ← dropEmpty_eq_iff]
  constructor
  · intro h
    obtain ⟨found, hlocate, hfound⟩ := bind_eq_ok_iff.1 h
    split at hfound
    · cases hfound
    · rename_i hdirectory
      split at hfound
      · cases hfound
      · rename_i hpieces
        cases hfound
        have hpieces := Decidable.not_not.1 hpieces
        rw [hpieces] at hlocate
        exact ⟨hpieces, hlocate, hdirectory⟩
  · rintro ⟨hpieces, hlocate, hdirectory⟩
    rw [hpieces]
    refine bind_eq_ok_iff.2 ⟨place, hlocate, ?_⟩
    split
    · rename_i es hes
      exact absurd hes (hdirectory es)
    · exact if_neg fun hno => hno rfl

/-- A file is written to an entry of a directory. -/
theorem isOpen_of_locateFile (h : d.locateFile p = .ok place) : d.root.IsOpen place := by
  obtain ⟨-, hlocate, hdirectory⟩ := locateFile_eq_ok_iff.1 h
  obtain ⟨-, hpieces, hresolve⟩ := locate_eq_ok_iff.1 hlocate
  refine Node.entry_of_resolve hresolve (fun hnone => ?_) hdirectory
  rw [hnone] at hpieces
  cases hpieces

/-! ## Setting a file -/

section SetFile

variable (h : d.locateFile p = .ok place) (f : File)

include h

/-- **What writing changes**: the place that the path leads to, and no other. -/
theorem face_setFile (other : Place) :
    (d.setFile place f).root.face other
      = if other = place then some (.file f) else d.root.face other := by
  obtain ⟨above, name, es, rfl, habove, hplain⟩ := isOpen_of_locateFile h
  exact Node.face_put_entry habove name f hplain other

/-- Every path leads where it led before. -/
theorem resolve_setFile (fuel : Nat) (start : Place) (path : Path) (r : Place) :
    (d.setFile place f).root.resolve fuel start path = .ok r
      ↔ d.root.resolve fuel start path = .ok r := by
  obtain ⟨above, name, es, rfl, habove, hplain⟩ := isOpen_of_locateFile h
  exact Node.resolve_put_entry habove hplain f fuel start path r

theorem locate_setFile (path : Path) (r : Place) :
    (d.setFile place f).locate path = .ok r ↔ d.locate path = .ok r := by
  rw [locate_eq_ok_iff, locate_eq_ok_iff]
  exact and_congr_right fun _ => and_congr_right fun _ => resolve_setFile h f ..

end SetFile

/-- **Other names read as before.** Where a file is written by its name to a directory without
links, all other names of the directory read as before. -/
theorem readText_setFile (hlinks : d.HasNoLinks p) {name other : String} (hname : IsName name)
    (hother : IsName other) (hne : other ≠ name)
    (h : d.locateFile (p.append ⟨false, [name]⟩) = .ok place) (f : File) (s : String) :
    (d.setFile place f).readText (p.append ⟨false, [other]⟩) = .ok s
      ↔ d.readText (p.append ⟨false, [other]⟩) = .ok s := by
  obtain ⟨above, -, rfl⟩ := of_locate_entry_eq_ok hlinks hname (locateFile_eq_ok_iff.1 h).2.1
  rw [readText_eq_ok_iff, readText_eq_ok_iff]
  refine exists_congr fun r => exists_congr fun g => ?_
  rw [locate_setFile h]
  refine and_congr_right fun hr => and_congr_left fun _ => ?_
  -- the place is an entry of another name, which is not the one that is written
  obtain ⟨above', -, rfl⟩ := of_locate_entry_eq_ok hlinks hother hr
  rw [← Node.face_eq_file_iff, ← Node.face_eq_file_iff, face_setFile h, if_neg]
  intro hsame
  exact hne (by simpa using congrArg List.getLast? hsame)

/-! ## Changes on a device -/

/-- What writing a file on a device can come to. -/
inductive Written (d : Disk) (p : Path) (content : Content) (now : Nat) :
    Except Fault Unit × Disk → Prop where
  | whole (place : Place) (hplace : d.locateFile p = .ok place) :
      Written d p content now (.ok (), d.setFile place ⟨content, now⟩)
  /-- The file is not opened. -/
  | unopened (fault : Fault) : Written d p content now (.error fault, d)
  /-- The file is opened, and holds less than it should. -/
  | brokenOff (place : Place) (taken : Nat) (fault : Fault) (hplace : d.locateFile p = .ok place)
      (hshort : taken < content.size) :
      Written d p content now (.error fault, d.setFile place ⟨content.beginning taken, now⟩)

theorem written (device : Device) (d : Disk) (p : Path) (content : Content) (now : Nat) :
    Written d p content now (d.writeTo device p content now) := by
  unfold writeTo
  cases hplace : d.locateFile p with
  | error fault => exact .unopened fault
  | ok place =>
    dsimp only
    cases device.receives d p content now with
    | whole => exact .whole place hplace
    | refused fault => exact .unopened fault
    | cut taken fault =>
      dsimp only
      split
      · exact .whole place hplace
      · rename_i hshort
        exact .brokenOff place taken fault hplace (Nat.lt_of_not_le hshort)

/-- Sound storage takes what can be written. -/
theorem writeTo_sound {d' : Disk} {content : Content} {now : Nat}
    (h : d.write p content now = .ok d') :
    d.writeTo .sound p content now = (.ok (), d') := by
  obtain ⟨place, hplace, hset⟩ := bind_eq_ok_iff.1 h
  cases hset
  rw [writeTo, hplace]
  rfl

/-- Removing changes nothing, or removes. -/
theorem removeFrom_cases (device : Device) (d : Disk) (p : Path) :
    d.removeFrom device p = d ∨ d.remove p = .ok (d.removeFrom device p) := by
  unfold removeFrom
  split
  · cases d.remove p with
    | error fault => exact .inl rfl
    | ok d' => exact .inr rfl
  · exact .inl rfl

end Disk

end PatternAudit.Files
