/-
The documents that a directory stands for.

In a tree without links a walk meets nothing but files and directories, so it cannot fail, and
what it finds can be told without walking: the files at visible places, in the order of the
places. That order, lists of names compared name by name, is depth first order with the entries
of each directory sorted by name.

The names on the way to a file decide over it. The name that the walk itself started from is not
one of them, and of the last name only the extension counts; so a file may be hidden, or have the
name of a directory that is passed over.
-/
import Mathlib.Data.List.TakeDrop
import PatternAudit.Proofs.Files.Below
import PatternAudit.Proofs.Lists
import PatternAudit.Source

set_option autoImplicit false

namespace PatternAudit.Files

/-! ## Names -/

/-- The name of a document: something before a dot, and one of three extensions after it. -/
def IsDocumentName (name : String) : Prop :=
  ∃ stem extension, stem ≠ "" ∧ extension ∈ ["yaml", "yml", "json"] ∧
    name = stem ++ "." ++ extension

/-- The name of a directory that is hidden, or that holds what others wrote. -/
def IsSkippedName (name : String) : Prop :=
  name.toList.head? = some '.' ∨ name = "node_modules" ∨ name = "target"

/-- The extension of a name comes after its last dot, and something comes before that. -/
theorem Path.extension?_eq_some_iff {name extension : String} :
    Path.extension? name = some extension ↔
      name ≠ ".." ∧ '.' ∉ extension.toList ∧
        ∃ stem, stem ≠ "" ∧ name = stem ++ "." ++ extension := by
  rw [Path.extension?, List.span_eq_takeWhile_dropWhile]
  constructor
  · intro h
    by_cases hdot : '.' ∈ name.toList.reverse
    · -- the name is read backwards, so its first dot is the last one
      obtain ⟨last, before, hname, hlast⟩ := List.eq_append_cons_of_mem hdot
      rw [hname, (takeWhile_ne_append hlast).1, (takeWhile_ne_append hlast).2] at h
      cases before with
      | nil => cases h
      | cons c before =>
        obtain ⟨hdots, hextension⟩ : name ≠ ".." ∧ String.ofList last.reverse = extension := by
          simpa using h
        refine ⟨hdots, by simpa [← hextension] using hlast, String.ofList (c :: before).reverse,
          by simp, ?_⟩
        apply String.toList_injective
        rw [← List.reverse_reverse name.toList, hname]
        simp [← hextension]
    · -- without a dot nothing is left after the cut
      have hnone : name.toList.reverse.dropWhile (· ≠ '.') = [] := by
        rw [List.dropWhile_eq_nil_iff]
        intro c hc
        exact decide_eq_true fun hcdot => hdot (hcdot ▸ hc)
      rw [hnone] at h
      cases h
  · rintro ⟨hdots, hextension, stem, hstem, rfl⟩
    have hreverse : (stem ++ "." ++ extension).toList.reverse
        = extension.toList.reverse ++ '.' :: stem.toList.reverse := by simp
    have hlast : '.' ∉ extension.toList.reverse := by simpa using hextension
    rw [hreverse, (takeWhile_ne_append hlast).1, (takeWhile_ne_append hlast).2]
    cases hbefore : stem.toList.reverse with
    | nil => exact absurd (by simpa using hbefore) hstem
    | cons c before => simp [hdots]

namespace Discovery

theorem isDocument_iff (name : String) : isDocument name = true ↔ IsDocumentName name := by
  have hsome : isDocument name = true ↔
      ∃ extension, Path.extension? name = some extension ∧ extension ∈ extensions := by
    unfold isDocument
    cases Path.extension? name <;> simp
  rw [hsome]
  simp only [Path.extension?_eq_some_iff]
  constructor
  · rintro ⟨extension, ⟨-, -, stem, hstem, hname⟩, hmem⟩
    exact ⟨stem, extension, hstem, hmem, hname⟩
  · rintro ⟨stem, extension, hstem, hmem, hname⟩
    have hplain : ∀ e ∈ extensions, '.' ∉ e.toList ∧ e ≠ "" := by decide
    obtain ⟨hdot, hne⟩ := hplain extension hmem
    refine ⟨extension, ⟨?_, hdot, stem, hstem, hname⟩, hmem⟩
    -- two characters have no room for a stem, a dot and an extension
    rintro rfl
    have hlengths := congrArg String.length hname
    rw [String.length_append, String.length_append] at hlengths
    have hlengths : 2 = stem.length + 1 + extension.length := hlengths
    have hstem' := mt String.length_eq_zero_iff.1 hstem
    have hne' := mt String.length_eq_zero_iff.1 hne
    omega

theorem isPassedOver_iff (name : String) : isPassedOver name = true ↔ IsSkippedName name := by
  have hhead : name.startsWith "." = true ↔ name.toList.head? = some '.' := by
    rw [String.startsWith_string_iff]
    cases name.toList <;> simp [List.cons_prefix_cons, eq_comm]
  rw [isPassedOver, Bool.or_eq_true, Bool.or_eq_true, hhead, decide_eq_true_iff,
    decide_eq_true_iff, or_assoc]
  rfl

end Discovery

/-! ## Visible places -/

/-- A place below a directory whose last name is that of a document, with no directory on the way
there that is passed over. -/
structure Visible (p : Place) : Prop where
  document : ∃ name, p.getLast? = some name ∧ IsDocumentName name
  reached : ∀ name ∈ p.dropLast, ¬ IsSkippedName name

theorem visible_singleton_iff (name : String) : Visible [name] ↔ IsDocumentName name := by
  constructor
  · intro h
    obtain ⟨last, hlast, hdocument⟩ := h.document
    cases hlast
    exact hdocument
  · intro h
    exact ⟨⟨name, rfl, h⟩, by simp⟩

/-- One more directory on the way must not be passed over. -/
theorem visible_cons_iff {name : String} {p : Place} (hp : p ≠ []) :
    Visible (name :: p) ↔ ¬ IsSkippedName name ∧ Visible p := by
  have hlast : (name :: p).getLast? = p.getLast? := by
    cases p with
    | nil => exact absurd rfl hp
    | cons n p => exact List.getLast?_cons_cons
  have hinit : (name :: p).dropLast = name :: p.dropLast := List.dropLast_cons_of_ne_nil hp
  constructor
  · rintro ⟨hdocument, hreached⟩
    rw [hinit, List.forall_mem_cons] at hreached
    exact ⟨hreached.1, hlast ▸ hdocument, hreached.2⟩
  · rintro ⟨hname, hdocument, hreached⟩
    refine ⟨hlast.symm ▸ hdocument, ?_⟩
    rw [hinit, List.forall_mem_cons]
    exact ⟨hname, hreached⟩

/-- The file of a document below a directory. -/
structure IsDocumentBelow (es : List (String × Node)) (p : Place) : Prop where
  file : ∃ f, (Node.directory es).get? p = some (.file f)
  visible : Visible p

/-- The file of a document at an entry of a directory or below it, seen from the entry. -/
structure IsDocumentAt (name : String) (node : Node) (p : Place) : Prop where
  file : ∃ f, node.get? p = some (.file f)
  visible : Visible (name :: p)

section Entry

variable {name : String}

theorem isDocumentAt_file_iff {f : File} {p : Place} :
    IsDocumentAt name (.file f) p ↔ p = [] ∧ IsDocumentName name := by
  constructor
  · rintro ⟨⟨g, hg⟩, hvisible⟩
    cases p with
    | nil => exact ⟨rfl, (visible_singleton_iff name).1 hvisible⟩
    | cons n p => cases hg
  · rintro ⟨rfl, hname⟩
    exact ⟨⟨f, rfl⟩, (visible_singleton_iff name).2 hname⟩

theorem isDocumentAt_directory_iff {es : List (String × Node)} {p : Place} :
    IsDocumentAt name (.directory es) p ↔ ¬ IsSkippedName name ∧ IsDocumentBelow es p := by
  have hne : ∀ f, (Node.directory es).get? p = some (.file f) → p ≠ [] := by
    rintro f hf rfl
    cases hf
  constructor
  · rintro ⟨⟨f, hf⟩, hvisible⟩
    obtain ⟨hname, hp⟩ := (visible_cons_iff (hne f hf)).1 hvisible
    exact ⟨hname, ⟨f, hf⟩, hp⟩
  · rintro ⟨hname, ⟨f, hf⟩, hp⟩
    exact ⟨⟨f, hf⟩, (visible_cons_iff (hne f hf)).2 ⟨hname, hp⟩⟩

/-- The documents below a directory are those at its entries. -/
theorem isDocumentBelow_cons_iff {es : List (String × Node)} {p : Place} :
    IsDocumentBelow es (name :: p) ↔ ∃ node, Json.lookup name es = some node ∧
      IsDocumentAt name node p := by
  constructor
  · rintro ⟨⟨f, hf⟩, hvisible⟩
    obtain ⟨node, hnode, hfile⟩ := Option.bind_eq_some_iff.1 hf
    exact ⟨node, hnode, ⟨f, hfile⟩, hvisible⟩
  · rintro ⟨node, hnode, ⟨f, hf⟩, hvisible⟩
    refine ⟨⟨f, ?_⟩, hvisible⟩
    rw [Node.get?, hnode, Option.bind_some, hf]

end Entry

/-! ## Depth first order -/

/-- A list of the places with a property in depth first order. -/
structure Lists (places : List Place) (P : Place → Prop) : Prop where
  ascending : places.Pairwise (· < ·)
  mem_iff : ∀ p, p ∈ places ↔ P p

theorem lists_nil {P : Place → Prop} (h : ∀ p, ¬ P p) : Lists [] P :=
  ⟨.nil, fun p => iff_of_false List.not_mem_nil (h p)⟩

/-- The entries of a directory in the order of their names. -/
def sorted (es : List (String × Node)) : List (String × Node) :=
  es.mergeSort fun a b => a.1 ≤ b.1

theorem mem_sorted_iff {es : List (String × Node)} {e : String × Node} : e ∈ sorted es ↔ e ∈ es :=
  (List.mergeSort_perm es _).mem_iff

/-- What is listed at each entry, with the names of the entries before it, lists what is in the
directory. -/
theorem lists_flatMap {es : List (String × Node)} (hnodup : (es.map Prod.fst).Nodup)
    {placesAt : String × Node → List Place}
    (h : ∀ e ∈ es, Lists (placesAt e) (IsDocumentAt e.1 e.2)) :
    Lists ((sorted es).flatMap fun e => (placesAt e).map (e.1 :: ·)) (IsDocumentBelow es) := by
  constructor
  · rw [List.pairwise_flatMap]
    constructor
    · intro e he
      rw [List.pairwise_map]
      refine (h e (mem_sorted_iff.1 he)).ascending.imp fun hlt => ?_
      exact List.cons_lt_cons_iff.2 (.inr ⟨rfl, hlt⟩)
    · -- whatever comes after their names, entries are in the order of these
      refine (ascending_mergeSort Prod.fst hnodup).imp fun hlt p hp q hq => ?_
      obtain ⟨p, -, rfl⟩ := List.mem_map.1 hp
      obtain ⟨q, -, rfl⟩ := List.mem_map.1 hq
      exact List.cons_lt_cons_iff.2 (.inl hlt)
  · intro p
    rw [List.mem_flatMap]
    constructor
    · rintro ⟨e, he, hp⟩
      obtain ⟨q, hq, rfl⟩ := List.mem_map.1 hp
      have he := mem_sorted_iff.1 he
      have hlookup := (Json.lookup_eq_some_iff hnodup).2 he
      exact isDocumentBelow_cons_iff.2 ⟨e.2, hlookup, ((h e he).mem_iff q).1 hq⟩
    · intro hp
      cases p with
      | nil =>
        obtain ⟨f, hf⟩ := hp.file
        cases hf
      | cons name p =>
        obtain ⟨node, hlookup, hdocument⟩ := isDocumentBelow_cons_iff.1 hp
        have he := Json.mem_of_lookup_eq_some hlookup
        exact ⟨(name, node), mem_sorted_iff.2 he,
          List.mem_map_of_mem (((h _ he).mem_iff p).2 hdocument)⟩

/-! ## The walk -/

namespace Discovery

theorem found_eq_map (behind : Behind) (trail : List Visit) (here : Visit)
    (es : List (String × Node)) :
    found behind trail here es = es.map fun e =>
      (e.1, documents behind trail ⟨here.place ++ [e.1], Path.joinText here.path e.1⟩ e.1 e.2) := by
  induction es with
  | nil => rfl
  | cons e es ih => rw [found, ih, List.map_cons]

/-- Whether a walk finds some places below an entry, wherever the entry is and whatever is done
with links. -/
def FindsAt (name : String) (node : Node) (places : List Place) : Prop :=
  ∀ (behind : Behind) (trail : List Visit) (here : Visit),
    documents behind trail here name node = .ok (places.map (pathBelow here.path))

/-- Whether a walk finds some places in a directory, whatever the name of that is. -/
def FindsWithin (es : List (String × Node)) (places : List Place) : Prop :=
  ∀ (behind : Behind) (trail : List Visit) (here : Visit),
    within behind trail here es = .ok (places.map (pathBelow here.path))

/-- A walk goes through the entries of a directory in the order of their names. -/
theorem findsWithin_flatMap {es : List (String × Node)} {placesAt : String × Node → List Place}
    (h : ∀ e ∈ es, FindsAt e.1 e.2 (placesAt e)) :
    FindsWithin es ((sorted es).flatMap fun e => (placesAt e).map (e.1 :: ·)) := by
  intro behind trail here
  let answer (e : String × Node) : Except Obstacle (List String) :=
    documents behind (here :: trail) ⟨here.place ++ [e.1], Path.joinText here.path e.1⟩ e.1 e.2
  -- the order is that of the names, whatever the answers are
  have hsorted : (es.map fun e => (e.1, answer e)).mergeSort (fun a b => a.1 ≤ b.1)
      = (sorted es).map fun e => (e.1, answer e) := by
    symm
    apply List.map_mergeSort
    intro a _ b _
    rfl
  have hanswers : (sorted es).mapM answer = .ok ((sorted es).map fun e =>
      ((placesAt e).map (e.1 :: ·)).map (pathBelow here.path)) := by
    rw [mapM_eq_ok_iff, List.forall₂_map_right_iff, List.forall₂_same]
    intro e he
    rw [List.map_map]
    exact h e (mem_sorted_iff.1 he) behind _ _
  rw [within, inOrder, found_eq_map, hsorted, List.mapM_map]
  show (bind ((sorted es).mapM answer) fun parts => pure parts.flatten) = _
  rw [hanswers, List.map_flatMap]
  rfl

/-- **A directory, if a walk finds the documents at each of its entries.** -/
theorem exists_findsWithin {es : List (String × Node)} (hnodup : (es.map Prod.fst).Nodup)
    (h : ∀ e ∈ es, ∃ places, FindsAt e.1 e.2 places ∧ Lists places (IsDocumentAt e.1 e.2)) :
    ∃ places, FindsWithin es places ∧ Lists places (IsDocumentBelow es) := by
  choose! placesAt hfinds hlists using h
  exact ⟨_, findsWithin_flatMap hfinds, lists_flatMap hnodup hlists⟩

/-- **What a walk finds at an entry of a tree**: the documents there, in depth first order. The
induction is on the tree, and a directory is what `exists_findsWithin` makes of its entries. -/
theorem exists_findsAt {node : Node} (h : IsTree node) (name : String) :
    ∃ places, FindsAt name node places ∧ Lists places (IsDocumentAt name node) := by
  induction h generalizing name with
  | file f =>
    by_cases hname : IsDocumentName name
    · refine ⟨[[]], fun behind trail here => ?_, List.pairwise_singleton _ _, fun p => ?_⟩
      · rw [documents, if_pos ((isDocument_iff name).2 hname)]
        rfl
      · rw [isDocumentAt_file_iff, List.mem_singleton]
        exact (and_iff_left hname).symm
    · refine ⟨[], fun behind trail here => ?_, lists_nil fun p hp => ?_⟩
      · rw [documents, if_neg (mt (isDocument_iff name).1 hname)]
        rfl
      · exact hname (isDocumentAt_file_iff.1 hp).2
  | @directory es nodup named below ih =>
    by_cases hname : IsSkippedName name
    · refine ⟨[], fun behind trail here => ?_, lists_nil fun p hp => ?_⟩
      · rw [documents, if_pos ((isPassedOver_iff name).2 hname)]
        rfl
      · exact (isDocumentAt_directory_iff.1 hp).1 hname
    · -- the name has done its part, and the entries have names of their own
      obtain ⟨places, hfinds, hlists⟩ := exists_findsWithin nodup fun e he => ih e he e.1
      refine ⟨places, fun behind trail here => ?_, hlists.ascending, fun p => ?_⟩
      · rw [documents, if_neg (mt (isPassedOver_iff name).1 hname)]
        exact hfinds behind trail here
      · rw [hlists.mem_iff, isDocumentAt_directory_iff]
        exact (and_iff_right hname).symm

end Discovery

/-! ## Sources -/

/-- What the sources of a directory are, by the places of the documents below it. -/
structure Discovered (d : Disk) (argument : String) (es : List (String × Node))
    (places : List Place) (sources : List Source) : Prop
    extends Lists places (IsDocumentBelow es) where
  eq_map : sources = places.map fun p => .file (pathBelow argument p) false
  nodup : sources.Nodup
  isDiscovered : ∀ s ∈ sources, s.isDiscovered = true
  find : ∀ p ∈ places, ∃ f, (Node.directory es).get? p = some (.file f) ∧
    d.find (Path.ofText (pathBelow argument p)) = .ok (.file f)

section Sources

variable {d : Disk} {argument : String} {es : List (String × Node)}

/-- **The sources of a directory** are the documents in the tree below it, each of them once and
marked as discovered, in depth first order. The path of a source leads to its file. -/
theorem sources_of_directory (hargument : argument ≠ "-")
    (haddress : Source.isAddress argument = false)
    (hfind : d.find (Path.ofText argument) = .ok (.directory es))
    (htree : IsTree (.directory es)) :
    ∃ places sources, Source.ofArguments d [argument] = .ok sources ∧
      Discovered d argument es places sources := by
  obtain ⟨place, hlocate, hplace⟩ := Disk.find_eq_ok_iff.1 hfind
  -- the entries are trees with names, the directory itself is walked whatever its name
  obtain ⟨places, hfinds, hlists⟩ :
      ∃ places, Discovery.FindsWithin es places ∧ Lists places (IsDocumentBelow es) := by
    cases htree with
    | directory nodup named below =>
      exact Discovery.exists_findsWithin nodup fun e he => Discovery.exists_findsAt (below e he) e.1
  have hleads : ∀ p ∈ places, ∃ f, (Node.directory es).get? p = some (.file f) ∧
      d.locate (Path.ofText (pathBelow argument p)) = .ok (place ++ p) := by
    intro p hp
    obtain ⟨f, hf⟩ := ((hlists.mem_iff p).1 hp).file
    exact ⟨f, hf, Disk.locate_pathBelow htree hf hlocate hplace⟩
  refine ⟨places, _, ?_, hlists, rfl, ?_, ?_, ?_⟩
  · have hlisted : Source.ofArgument d argument
        = .ok (places.map fun p => .file (pathBelow argument p) false) := by
      rw [Source.ofArgument, if_neg hargument, haddress, if_neg (by simp)]
      simp only [hlocate, hfind, Discovery.below, hfinds _ _ _, List.map_map]
      rfl
    simp [Source.ofArguments, hlisted, bind, Except.bind, pure, Except.pure]
  · rw [List.Nodup, List.pairwise_map]
    refine hlists.ascending.imp_of_mem fun {p q} hp hq hlt hsame => ?_
    -- one path leads to one place, but the two places are in order
    obtain ⟨f, -, hp⟩ := hleads p hp
    obtain ⟨g, -, hq⟩ := hleads q hq
    rw [(Source.file.inj hsame).1, hq] at hp
    rw [List.append_cancel_left (Except.ok.inj hp)] at hlt
    exact List.lt_irrefl p hlt
  · intro s hs
    obtain ⟨p, -, rfl⟩ := List.mem_map.1 hs
    rfl
  · intro p hp
    obtain ⟨f, hf, hlocated⟩ := hleads p hp
    refine ⟨f, hf, Disk.find_eq_ok_iff.2 ⟨place ++ p, hlocated, ?_⟩⟩
    rw [Node.get?_append, hplace, Option.bind_some, hf]

end Sources

/-- An empty file. -/
def emptyFile : Node := .file ⟨.text "", 0⟩

/-- Documents beside other files, some of them below directories that are passed over. -/
def mixedEntries : List (String × Node) :=
  [("b.yml", emptyFile), (".git", .directory [("c.yaml", emptyFile)]),
    ("api", .directory [("target", .directory [("d.json", emptyFile)]), ("x.json", emptyFile)]),
    (".a.json", emptyFile), ("notes.txt", emptyFile)]

/-- The disk that has them in a directory with the name of one that is passed over. -/
def mixedDisk : Disk := ⟨.directory [("node_modules", .directory mixedEntries)], []⟩

theorem isTree_mixedEntries : IsTree (.directory mixedEntries) := by
  have hempty : IsTree emptyFile := .file _
  have hgit : IsTree (.directory [("c.yaml", emptyFile)]) :=
    .directory (by decide) (by decide) (by simpa using hempty)
  have htarget : IsTree (.directory [("d.json", emptyFile)]) :=
    .directory (by decide) (by decide) (by simpa using hempty)
  have hapi : IsTree (.directory
      [("target", .directory [("d.json", emptyFile)]), ("x.json", emptyFile)]) :=
    .directory (by decide) (by decide) (by simpa using ⟨htarget, hempty⟩)
  refine .directory (by decide) (by decide) ?_
  simpa [mixedEntries] using ⟨hempty, hgit, hapi, hempty⟩

theorem mixedDisk_sources :
    ("node_modules" ≠ "-" ∧ Source.isAddress "node_modules" = false ∧
      mixedDisk.find (Path.ofText "node_modules") = .ok (.directory mixedEntries) ∧
      IsTree (.directory mixedEntries)) ∧
    ∃ places sources, Source.ofArguments mixedDisk ["node_modules"] = .ok sources ∧
      Discovered mixedDisk "node_modules" mixedEntries places sources := by
  have haddress : Source.isAddress "node_modules" = false := by decide +kernel
  have hfind : mixedDisk.find (Path.ofText "node_modules") = .ok (.directory mixedEntries) := rfl
  exact ⟨⟨by decide, haddress, hfind, isTree_mixedEntries⟩,
    sources_of_directory (by decide) haddress hfind isTree_mixedEntries⟩

end PatternAudit.Files
