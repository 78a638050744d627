/-
Files after a removal.

A removal makes and changes nothing, and what it takes away is what the path names
(`face_remove`). No path names another place after it (`locateName_of_remove`), but with links
about it can still be felt elsewhere: another path may have led to what is gone. In a directory
that holds no links it cannot, and every other name of that directory reads as before
(`readText_remove`).
-/
import PatternAudit.Files.Disk
import PatternAudit.Proofs.Files.Faces

set_option autoImplicit false

namespace PatternAudit.Files

/-- A name that leads to the entry of that name and nowhere else. -/
structure IsName (name : String) : Prop where
  ne_empty : name ≠ ""
  ne_dot : name ≠ "."
  ne_dots : name ≠ ".."

/-- A last piece of a path is a name, unless it stands for a directory that is there already. -/
theorem isName_iff {name : String} :
    IsName name ↔ ¬ (name.isEmpty || name = "." || name = "..") = true := by
  simp only [Bool.or_eq_true, decide_eq_true_eq, String.isEmpty_iff, not_or]
  constructor
  · intro h
    exact ⟨⟨h.ne_empty, h.ne_dot⟩, h.ne_dots⟩
  · rintro ⟨⟨hempty, hdot⟩, hdots⟩
    exact ⟨hempty, hdot, hdots⟩

/-- A step to a name leads there, unless a link leads on. -/
theorem Node.of_step_eq_ok {root : Node} {follow : Place → Path → Except Fault Place}
    {place r : Place} {name : String} (hname : IsName name)
    (h : root.step follow place name = .ok r) :
    r = place ++ [name] ∨
      ∃ target, root.face (place ++ [name]) = some (.link target) ∧ follow place target = .ok r := by
  rw [step_eq] at h
  split at h
  · cases h
  · cases h
  · cases h
  · rw [if_neg (by simp [hname.ne_empty, hname.ne_dot]), if_neg hname.ne_dots] at h
    split at h
    · cases h
    · split at h
      · rename_i target hlink
        exact .inr ⟨target, hlink, h⟩
      · cases h
        exact .inl rfl

namespace Disk

variable {d d' : Disk} {p : Path}

/-! ## Results -/

theorem find_eq_ok_iff {node : Node} :
    d.find p = .ok node ↔ ∃ place, d.locate p = .ok place ∧ d.root.get? place = some node := by
  rw [find, bind_eq_ok_iff]
  refine exists_congr fun place => and_congr_right fun _ => ?_
  cases d.root.get? place with
  | none => simp
  | some found => simp

theorem readText_eq_ok_iff {s : String} :
    d.readText p = .ok s ↔ ∃ place f, d.locate p = .ok place ∧
      d.root.get? place = some (.file f) ∧ f.content.text? = .ok s := by
  rw [readText, bind_eq_ok_iff]
  constructor
  · rintro ⟨node, hfind, htext⟩
    obtain ⟨place, hplace, hnode⟩ := find_eq_ok_iff.1 hfind
    cases node with
    | file f => exact ⟨place, f, hplace, hnode, htext⟩
    | directory es => cases htext
    | link target => cases htext
  · rintro ⟨place, f, hplace, hnode, htext⟩
    exact ⟨.file f, find_eq_ok_iff.2 ⟨place, hplace, hnode⟩, htext⟩

theorem locate_eq_ok_iff {place : Place} :
    d.locate p = .ok place ↔ wellNamed p = true ∧ p.pieces.isEmpty = false ∧
      d.root.resolve Node.maxLinks d.current p = .ok place := by
  unfold locate
  cases wellNamed p <;> cases p.pieces.isEmpty <;> simp

/-- The place of a last name is an entry of that name. -/
theorem of_locateName_eq_ok {place : Place} (h : d.locateName p = .ok place) :
    ∃ above name, IsName name ∧ p.pieces.getLast? = some name ∧ place = above ++ [name] ∧
      d.root.resolve Node.maxLinks d.current { p with pieces := p.pieces.dropLast } = .ok above := by
  unfold locateName at h
  split at h
  · cases h
  · rename_i name rest hpieces
    have hsplit : p.pieces = rest.reverse ++ [name] := by
      rw [← List.reverse_reverse p.pieces, hpieces, List.reverse_cons]
    split at h
    · cases h
    · split at h
      · cases h
      · rename_i hname
        have hname : IsName name := isName_iff.2 hname
        obtain ⟨above, habove, hstep⟩ := bind_eq_ok_iff.1 h
        refine ⟨above, name, hname, by simp [hsplit], ?_, by simpa [hsplit] using habove⟩
        rcases Node.of_step_eq_ok hname hstep with hplace | ⟨target, -, hplace⟩
        · exact hplace
        · cases hplace
          rfl

theorem remove_eq_ok_iff :
    d.remove p = .ok d' ↔ ∃ place node, d.locateName p = .ok place ∧
      d.root.get? place = some node ∧ (∀ es, node ≠ .directory es) ∧
      d' = { d with root := d.root.erase place } := by
  rw [remove, bind_eq_ok_iff]
  refine exists_congr fun place => ?_
  cases d.root.get? place with
  | none => simp
  | some node => cases node <;> simp [eq_comm]

/-! ## All places -/

/-- What a removal changes: the last name of the path is no longer at its place. -/
theorem face_of_remove (h : d.remove p = .ok d') :
    ∃ gone node, d.locateName p = .ok gone ∧ d.root.get? gone = some node ∧
      (∀ es, node ≠ .directory es) ∧ gone ≠ [] ∧ d' = { d with root := d.root.erase gone } ∧
      ∀ place, d'.root.face place = if place = gone then none else d.root.face place := by
  obtain ⟨gone, node, hgone, hnode, hdirectory, rfl⟩ := remove_eq_ok_iff.1 h
  have hne : gone ≠ [] := by
    obtain ⟨above, name, -, -, rfl, -⟩ := of_locateName_eq_ok hgone
    simp
  exact ⟨gone, node, hgone, hnode, hdirectory, hne, rfl,
    Node.face_erase_of_get? hne hnode hdirectory⟩

/-- A removal leaves every place as it is, but for the one that the path names. -/
theorem face_remove (h : d.remove p = .ok d') (place : Place) :
    d'.root.face place = d.root.face place ∨
      d'.root.face place = none ∧ d.locateName p = .ok place := by
  obtain ⟨gone, node, hgone, -, -, -, -, hface⟩ := face_of_remove h
  rw [hface]
  split
  · rename_i hplace
    exact .inr ⟨rfl, hplace ▸ hgone⟩
  · exact .inl rfl

/-- A removal makes no path name a place that it did not name before. -/
theorem locateName_of_remove {q : Path} {place : Place} (h : d.remove q = .ok d')
    (hplace : d'.locateName p = .ok place) : d.locateName p = .ok place := by
  obtain ⟨gone, node, -, -, -, -, rfl, hface⟩ := face_of_remove h
  have hfewer : ∀ other, (d.root.erase gone).face other = d.root.face other ∨
      (d.root.erase gone).face other = none := by
    intro other
    rw [hface other]
    split
    · exact .inr rfl
    · exact .inl rfl
  unfold locateName at hplace ⊢
  split at hplace
  · cases hplace
  · split at hplace
    · cases hplace
    · rename_i hnamed
      rw [if_neg hnamed]
      split at hplace
      · cases hplace
      · rename_i hname
        rw [if_neg hname]
        obtain ⟨above, habove, hstep⟩ := bind_eq_ok_iff.1 hplace
        have hthere : (d.root.erase gone).face above ≠ none := by
          intro hnone
          rw [Node.step_eq, hnone] at hstep
          cases hstep
        refine bind_eq_ok_iff.2 ⟨above, Node.resolve_of_fewer hfewer habove hthere, ?_⟩
        rw [Node.step_to_entry_eq] at hstep ⊢
        rw [← (hfewer above).resolve_right hthere]
        exact hstep

/-! ## A directory without links -/

/-- Whether the entries of the directory of a path are no links. -/
def HasNoLinks (d : Disk) (p : Path) : Prop :=
  ∀ place, d.root.resolve Node.maxLinks d.current p = .ok place →
    ∀ name target, d.root.face (place ++ [name]) ≠ some (.link target)

/-- What is removed by its name from a directory without links is a file of it. -/
theorem file_of_remove_entry (hlinks : d.HasNoLinks p) {name : String}
    (h : d.remove (p.append ⟨false, [name]⟩) = .ok d') :
    ∃ above f, d.root.resolve Node.maxLinks d.current p = .ok above ∧
      d.root.get? (above ++ [name]) = some (.file f) ∧
      d' = { d with root := d.root.erase (above ++ [name]) } := by
  obtain ⟨gone, node, hgone, hnode, hdirectory, -, hd', -⟩ := face_of_remove h
  obtain ⟨above, last, -, hlast, rfl, habove⟩ := of_locateName_eq_ok hgone
  have hlast : name = last := by simpa [Path.append] using hlast
  have habove : d.root.resolve Node.maxLinks d.current p = .ok above := by
    simpa [Path.append] using habove
  subst hlast
  cases node with
  | file f => exact ⟨above, f, habove, hnode, hd'⟩
  | directory es => exact absurd rfl (hdirectory es)
  | link target =>
    refine absurd ?_ (hlinks above habove name target)
    rw [Node.face, hnode]
    rfl

theorem HasNoLinks.remove (hlinks : d.HasNoLinks p) {name : String}
    (h : d.remove (p.append ⟨false, [name]⟩) = .ok d') : d'.HasNoLinks p := by
  obtain ⟨above, f, habove, hfile, rfl⟩ := file_of_remove_entry hlinks h
  have hne : above ++ [name] ≠ [] := by simp
  intro place hplace other target hother
  have hplace := (Node.resolve_erase hne hfile ..).1 hplace
  dsimp only at hother
  rw [Node.face_erase hne] at hother
  split at hother
  · cases hother
  · exact hlinks place hplace other target hother

/-- A name in a directory without links leads to the entry of that name. -/
theorem of_locate_entry_eq_ok (hlinks : d.HasNoLinks p) {name : String} (hname : IsName name)
    {place : Place} (h : d.locate (p.append ⟨false, [name]⟩) = .ok place) :
    ∃ above, d.root.resolve Node.maxLinks d.current p = .ok above ∧ place = above ++ [name] := by
  have hresolve := (locate_eq_ok_iff.1 h).2.2
  have hpieces : (p.append ⟨false, [name]⟩).pieces = p.pieces ++ [name] := by simp [Path.append]
  have habsolute : (p.append ⟨false, [name]⟩).absolute = p.absolute := by simp [Path.append]
  rw [Node.maxLinks, Node.resolve, hpieces, habsolute, List.foldlM_append, bind_eq_ok_iff]
    at hresolve
  obtain ⟨above, habove, hstep⟩ := hresolve
  have hstep : d.root.step (d.root.resolve 39) above name = .ok place := by
    simpa using hstep
  refine ⟨above, habove, ?_⟩
  rcases Node.of_step_eq_ok hname hstep with hplace | ⟨target, hlink, -⟩
  · exact hplace
  · exact absurd hlink (hlinks above habove name target)

/-- **Other names read as before.** Where a file is removed by its name from a directory
without links, all other names of the directory read as before. -/
theorem readText_remove (hlinks : d.HasNoLinks p) {name other : String} (hother : IsName other)
    (hne : other ≠ name) (h : d.remove (p.append ⟨false, [name]⟩) = .ok d') (s : String) :
    d'.readText (p.append ⟨false, [other]⟩) = .ok s
      ↔ d.readText (p.append ⟨false, [other]⟩) = .ok s := by
  obtain ⟨above, f, habove, hfile, rfl⟩ := file_of_remove_entry hlinks h
  have hgone : above ++ [name] ≠ [] := by simp
  rw [readText_eq_ok_iff, readText_eq_ok_iff]
  refine exists_congr fun place => exists_congr fun g => ?_
  have hlocate : ({ d with root := d.root.erase (above ++ [name]) } : Disk).locate
      (p.append ⟨false, [other]⟩) = .ok place ↔ d.locate (p.append ⟨false, [other]⟩) = .ok place := by
    rw [locate_eq_ok_iff, locate_eq_ok_iff, Node.resolve_erase hgone hfile]
  rw [hlocate]
  refine and_congr_right fun hplace => and_congr_left fun _ => ?_
  -- the place is an entry of another name, which is not the one that is gone
  obtain ⟨above', -, rfl⟩ := of_locate_entry_eq_ok hlinks hother hplace
  rw [← Node.face_eq_file_iff, ← Node.face_eq_file_iff,
    Node.face_erase_of_get? hgone hfile (fun es h => by cases h), if_neg]
  intro hsame
  exact hne (by simpa using congrArg List.getLast? hsame)

end Disk

end PatternAudit.Files
