/-
Paths to what stands below a directory.

`pathBelow` puts the names of a place after the text of a path, one slash between two of them.
Where the path leads to a directory and no link stands below it, the text that comes out leads
to that place below the directory (`Disk.locate_pathBelow`). So such a text tells its place, and
no two places have the same one.

The text of a path may end in a slash already. Then no other is put there, and the empty piece
that the path of the text ends in is replaced by the first name (`Path.ofText_joinText`).
-/
import PatternAudit.Proofs.Files.Folder

set_option autoImplicit false

namespace PatternAudit.Files

/-! ## Texts of paths -/

namespace Path

theorem split_ne_nil (cs : List Char) : split cs ≠ [] := by
  cases cs with
  | nil => simp [split]
  | cons c cs =>
    rw [split]
    split
    · simp
    · split <;> simp

/-- Only the empty text is one piece that is empty. -/
theorem eq_nil_of_split {cs : List Char} (h : split cs = [[]]) : cs = [] := by
  cases cs with
  | nil => rfl
  | cons c cs =>
    rw [split] at h
    split at h
    · cases h
    · split at h <;> cases h

/-- No piece goes on over a slash. -/
theorem split_append_slash (cs ds : List Char) :
    split (cs ++ '/' :: ds) = split cs ++ split ds := by
  induction cs with
  | nil =>
    cases hds : split ds with
    | nil => exact absurd hds (split_ne_nil ds)
    | cons piece rest => simp [split, hds]
  | cons c cs ih =>
    rw [List.cons_append, split, split, ih]
    cases hcs : split cs with
    | nil => exact absurd hcs (split_ne_nil cs)
    | cons piece rest =>
      rw [List.cons_append]
      dsimp only
      split <;> rfl

/-- A name after a text and a slash is one more piece. The start of the path and the other pieces
are those of the text, unless that is empty. -/
theorem ofText_slash (base : String) : ∃ absolute pieces,
    (base ≠ "" → ofText base = ⟨absolute, pieces⟩) ∧
    ∀ name : String, '/' ∉ name.toList →
      ofText (base ++ "/" ++ name) = ⟨absolute, pieces ++ [name]⟩ := by
  have hsplit : ∀ name : String, '/' ∉ name.toList →
      split (base ++ "/" ++ name).toList = split base.toList ++ [name.toList] := by
    intro name hname
    have hchars : (base ++ "/" ++ name).toList = base.toList ++ '/' :: name.toList := by simp
    rw [hchars, split_append_slash, split_of_no_slash hname]
  rcases hbase : split base.toList with _ | ⟨_ | ⟨c, piece⟩, rest⟩
  · exact absurd hbase (split_ne_nil _)
  · refine ⟨true, rest.map String.ofList, fun hne => ?_, fun name hname => ?_⟩
    · have hrest : rest ≠ [] := by
        rintro rfl
        exact hne (by simpa using eq_nil_of_split hbase)
      rw [ofText, hbase]
      simp [hrest]
    · rw [ofText, hsplit name hname, hbase]
      simp
  · refine ⟨false, ((c :: piece) :: rest).map String.ofList, fun _ => ?_, fun name hname => ?_⟩
    · rw [ofText, hbase]
    · rw [ofText, hsplit name hname, hbase]
      simp

/-- A text with a slash at its end is another one and that slash. -/
theorem eq_append_slash {s : String} (h : s.endsWith "/" = true) : ∃ base, s = base ++ "/" := by
  rw [← String.endsWith_toSlice, String.Slice.endsWith_string_eq_endsWith_toSlice,
    String.Slice.Pattern.Model.endsWith_iff,
    String.Slice.Pattern.Model.ForwardSliceSearcher.revMatchesAt_iff_splits] at h
  obtain ⟨base, rest, hsplits⟩ := h
  obtain ⟨hbase, -⟩ := String.Slice.splits_endPos_iff.1 hsplits
  exact ⟨base, by simpa using hbase.symm⟩

/-- The path of a text with a name put after it. -/
theorem ofText_joinText {path : String} (hpath : path ≠ "") {name : String}
    (hname : '/' ∉ name.toList) : ∃ absolute pieces,
      (ofText path = ⟨absolute, pieces⟩ ∨ ofText path = ⟨absolute, pieces ++ [""]⟩) ∧
        ofText (joinText path name) = ⟨absolute, pieces ++ [name]⟩ := by
  have hempty : path.isEmpty = false := by simpa using hpath
  rw [joinText, hempty, Bool.false_or]
  by_cases hslash : path.endsWith "/" = true
  · rw [if_pos hslash]
    obtain ⟨base, rfl⟩ := eq_append_slash hslash
    obtain ⟨absolute, pieces, -, hbelow⟩ := ofText_slash base
    -- the text itself is the case of an empty name
    have hself := hbelow "" (by simp)
    rw [String.append_empty] at hself
    exact ⟨absolute, pieces, .inr hself, hbelow name hname⟩
  · rw [if_neg hslash]
    obtain ⟨absolute, pieces, hself, hbelow⟩ := ofText_slash path
    exact ⟨absolute, pieces, .inl (hself hpath), hbelow name hname⟩

end Path

/-- The text of the path to a place below the directory of a path. -/
def pathBelow (path : String) (p : Place) : String := p.foldl Path.joinText path

/-! ## Trees -/

/-- A name that an entry of a directory can have, as one piece of a path. -/
structure IsPlainName (name : String) : Prop extends IsEntryName name where
  unslashed : '/' ∉ name.toList

instance (name : String) : Decidable (IsPlainName name) :=
  decidable_of_iff
    ((((name ≠ "" ∧ name ≠ "." ∧ name ≠ "..") ∧ name.utf8ByteSize ≤ Node.maxName) ∧
      '\x00' ∉ name.toList) ∧ '/' ∉ name.toList)
    ⟨fun ⟨⟨⟨⟨h₁, h₂, h₃⟩, h₄⟩, h₅⟩, h₆⟩ => ⟨⟨⟨h₁, h₂, h₃⟩, h₄, h₅⟩, h₆⟩,
      fun h => ⟨⟨⟨⟨h.ne_empty, h.ne_dot, h.ne_dots⟩, h.short⟩, h.clean⟩, h.unslashed⟩⟩

/-- A node that is a file, or a directory with nothing but such nodes in it. So there are no links
below it. -/
inductive IsTree : Node → Prop
  | file (f : File) : IsTree (.file f)
  | directory {es : List (String × Node)} (nodup : (es.map Prod.fst).Nodup)
      (named : ∀ e ∈ es, IsPlainName e.1) (below : ∀ e ∈ es, IsTree e.2) : IsTree (.directory es)

theorem IsTree.ne_link {node : Node} (h : IsTree node) (target : Path) : node ≠ .link target := by
  rintro rfl
  cases h

/-- The first step on the way to a place below a tree. -/
theorem IsTree.of_get?_cons {node below : Node} {name : String} {p : Place} (h : IsTree node)
    (hbelow : node.get? (name :: p) = some below) : ∃ es next, node = .directory es ∧
      Json.lookup name es = some next ∧ IsPlainName name ∧ IsTree next ∧
        next.get? p = some below := by
  cases h with
  | file f => cases hbelow
  | @directory es nodup named trees =>
    obtain ⟨next, hnext, hrest⟩ := Option.bind_eq_some_iff.1 hbelow
    have hmem := Json.mem_of_lookup_eq_some hnext
    exact ⟨es, next, rfl, hnext, named _ hmem, trees _ hmem, hrest⟩

namespace Disk

variable {d : Disk} {path : String} {place : Place}

/-- A name after the path of a directory leads to the entry of that name, if it is no link. -/
theorem locate_joinText {es : List (String × Node)}
    (hpath : d.locate (Path.ofText path) = .ok place)
    (hplace : d.root.get? place = some (.directory es)) {name : String} (hname : IsPlainName name)
    (hlink : ∀ target, Json.lookup name es ≠ some (.link target)) :
    d.locate (Path.ofText (Path.joinText path name)) = .ok (place ++ [name]) := by
  obtain ⟨hnamed, hpieces, hresolve⟩ := locate_eq_ok_iff.1 hpath
  have hne : path ≠ "" := by
    rintro rfl
    cases hpieces
  obtain ⟨absolute, pieces, hself, hjoined⟩ := Path.ofText_joinText hne hname.unslashed
  obtain ⟨empties, hempties, hself⟩ : ∃ empties : List String, (∀ piece ∈ empties, piece = "") ∧
      Path.ofText path = ⟨absolute, pieces ++ empties⟩ := by
    rcases hself with hself | hself
    · exact ⟨[], by simp, by rw [hself, List.append_nil]⟩
    · exact ⟨[""], by simp, hself⟩
  rw [hself] at hnamed hresolve
  rw [wellNamed, List.all_append, Bool.and_eq_true] at hnamed
  rw [Node.maxLinks, Node.resolve, List.foldlM_append, bind_eq_ok_iff] at hresolve
  -- the pieces before an empty one lead to the directory as well
  obtain ⟨first, hfirst, hrest⟩ := hresolve
  rw [Node.eq_of_steps_empty hempties hrest] at hfirst
  rw [hjoined]
  refine locate_eq_ok_iff.2 ⟨?_, by simp, ?_⟩
  · rw [wellNamed, List.all_append, hnamed.1]
    simp [hname.clean]
  · rw [Node.maxLinks, Node.resolve, List.foldlM_append, bind_eq_ok_iff]
    refine ⟨place, hfirst, ?_⟩
    rw [List.foldlM_cons, Node.step_entry hplace hname.toIsEntryName hlink]
    rfl

/-- **A path with the names of a place after it leads to that place**, in a tree. -/
theorem locate_pathBelow {node below : Node} (htree : IsTree node) {p : Place}
    (hbelow : node.get? p = some below) (hpath : d.locate (Path.ofText path) = .ok place)
    (hplace : d.root.get? place = some node) :
    d.locate (Path.ofText (pathBelow path p)) = .ok (place ++ p) := by
  induction p generalizing node path place with
  | nil =>
    rw [List.append_nil]
    exact hpath
  | cons name p ih =>
    obtain ⟨es, next, rfl, hnext, hname, hnextTree, hrest⟩ := htree.of_get?_cons hbelow
    have hlink : ∀ target, Json.lookup name es ≠ some (.link target) := by
      intro target htarget
      rw [hnext, Option.some.injEq] at htarget
      exact hnextTree.ne_link target htarget
    have hentry := locate_joinText hpath hplace hname hlink
    rw [List.append_cons]
    exact ih hnextTree hrest hentry (by rw [Node.get?_entry hplace, hnext])

end Disk

end PatternAudit.Files
