/-
What stands at the places of a tree, and how setting and taking away a node changes it.

To follow a path is to look at one place after the other, and only two things are asked
there: what kind of node it is, and where a link leads. That is the `face` of a place, a
node without its entries. A change to a tree is told by the faces that it changes:
`face_erase` and `face_put_entry` are the only such statements, and what is known about paths
and files afterwards comes from them.

A path never leads through a file, so it leads to the same place when a file comes or goes
(`resolve_of_faces`). It need not fail with the same fault, though: what was no directory is
missing then. When a link goes, paths may end where it was, but none leads to another place
where something stands (`resolve_of_fewer`).
-/
import PatternAudit.Error
import PatternAudit.Files.Tree

set_option autoImplicit false

namespace PatternAudit.Files

/-- Runs agree on their results where all steps do. -/
theorem foldlM_eq_ok_iff {ε α β : Type} {f g : β → α → Except ε β}
    (h : ∀ b a c, f b a = .ok c ↔ g b a = .ok c) (as : List α) (b c : β) :
    as.foldlM f b = .ok c ↔ as.foldlM g b = .ok c := by
  induction as generalizing b with
  | nil => rfl
  | cons a as ih =>
    rw [List.foldlM_cons, List.foldlM_cons, bind_eq_ok_iff, bind_eq_ok_iff]
    simp only [h, ih]

theorem lookup_eraseEntry (name other : String) (es : List (String × Node)) :
    Json.lookup other (eraseEntry name es)
      = if other = name then none else Json.lookup other es := by
  have hfilter := Json.lookup_filter (fun n => decide (n ≠ name)) other es
  rw [eraseEntry, hfilter]
  by_cases h : other = name <;> simp [h]

theorem putEntry_eq (name : String) (node : Node) (es : List (String × Node)) :
    putEntry name node es = Json.insert name node es := by
  induction es with
  | nil => rfl
  | cons e es ih => rw [putEntry, Json.insert, ih]

theorem lookup_putEntry (name other : String) (node : Node) (es : List (String × Node)) :
    Json.lookup other (putEntry name node es)
      = if other = name then some node else Json.lookup other es := by
  rw [putEntry_eq]
  by_cases h : other = name
  · rw [if_pos h, h, Json.lookup_insert_self]
  · rw [if_neg h, Json.lookup_insert_of_ne h]

namespace Node

/-! ## Faces -/

/-- A node without the entries that it has as a directory. -/
def bare : Node → Node
  | directory _ => directory []
  | node => node

/-- What stands at a place, without what stands below it. -/
def face (root : Node) (place : Place) : Option Node := (root.get? place).map bare

theorem get?_append (root : Node) (place rest : Place) :
    root.get? (place ++ rest) = (root.get? place).bind (get? rest) := by
  induction place generalizing root with
  | nil => rfl
  | cons name place ih =>
    cases root with
    | directory es =>
      rw [List.cons_append, get?, get?]
      cases Json.lookup name es with
      | none => rfl
      | some child => exact ih child
    | file f => rfl
    | link target => rfl

theorem face_eq_file_iff {root : Node} {place : Place} {f : File} :
    root.face place = some (file f) ↔ root.get? place = some (file f) := by
  unfold face
  cases root.get? place with
  | none => simp
  | some node => cases node <;> simp [bare]

/-- Below a node that is no directory there is nothing. -/
theorem eq_nil_of_get? {root node below : Node} {place rest : Place}
    (h : root.get? place = some node) (hnode : ∀ es, node ≠ directory es)
    (hbelow : root.get? (place ++ rest) = some below) : rest = [] := by
  rw [get?_append, h, Option.bind_some] at hbelow
  cases rest with
  | nil => rfl
  | cons name rest =>
    cases node with
    | directory es => exact absurd rfl (hnode es)
    | file f => cases hbelow
    | link target => cases hbelow

/-- **What erasing changes.** Nothing stands at an erased place and below it. Everywhere
else stands what stood there before. -/
theorem face_erase {gone : Place} (hne : gone ≠ []) (root : Node) (place : Place) :
    (root.erase gone).face place = if gone <+: place then none else root.face place := by
  fun_induction erase gone root generalizing place with
  | case1 => exact absurd rfl hne
  | case2 name es =>
    cases place with
    | nil => simp [face, get?, bare]
    | cons n below =>
      simp only [face, get?, lookup_eraseEntry, List.cons_prefix_cons, List.nil_prefix, and_true]
      by_cases hn : n = name
      · simp [hn]
      · simp [hn, Ne.symm hn]
  | case3 name rest es hrest child hchild ih =>
    cases place with
    | nil => simp [face, get?, bare]
    | cons n below =>
      by_cases hn : n = name
      · subst hn
        have hbelow := ih (fun h => hrest h) below
        simp only [face, get?, lookup_putEntry, if_pos, Option.bind_some, hchild,
          List.cons_prefix_cons, true_and] at hbelow ⊢
        exact hbelow
      · simp [face, get?, lookup_putEntry, hn, Ne.symm hn]
  | case4 name rest es hrest hchild =>
    cases place with
    | nil => simp
    | cons n below =>
      by_cases hn : n = name
      · subst hn
        simp [face, get?, hchild]
      · simp [Ne.symm hn]
  | case5 name rest node _ hnode =>
    cases place with
    | nil => simp
    | cons n below =>
      have hnone : node.get? (n :: below) = none := by
        cases node with
        | directory es => exact absurd rfl (hnode es)
        | file f => rfl
        | link target => rfl
      simp [face, hnone]

/-- Where a node without entries is erased, it is the only one that goes. -/
theorem face_erase_of_get? {root node : Node} {gone : Place} (hne : gone ≠ [])
    (hgone : root.get? gone = some node) (hnode : ∀ es, node ≠ directory es) (place : Place) :
    (root.erase gone).face place = if place = gone then none else root.face place := by
  rw [face_erase hne]
  by_cases hplace : place = gone
  · rw [if_pos hplace, hplace, if_pos List.prefix_rfl]
  · rw [if_neg hplace]
    split
    · rename_i hprefix
      obtain ⟨rest, rfl⟩ := hprefix
      cases hbelow : root.get? (gone ++ rest) with
      | none => rw [face, hbelow, Option.map_none]
      | some below =>
        have hrest := eq_nil_of_get? hgone hnode hbelow
        exact absurd (by rw [hrest, List.append_nil]) hplace
    · rfl

section Entry

variable {root : Node} {above : Place} {es : List (String × Node)}
  (habove : root.get? above = some (directory es)) (name : String)

theorem get?_entry (habove : root.get? above = some (directory es)) (name : String) :
    root.get? (above ++ [name]) = Json.lookup name es := by
  rw [get?_append, habove, Option.bind_some, get?]
  cases Json.lookup name es <;> rfl

include habove

/-- The directory in which an entry is set. -/
theorem get?_put_entry (node : Node) :
    (root.put (above ++ [name]) node).get? above = some (directory (putEntry name node es)) := by
  induction above generalizing root with
  | nil =>
    cases habove
    rfl
  | cons n above ih =>
    cases root with
    | directory entries =>
      obtain ⟨child, hchild, hbelow⟩ := Option.bind_eq_some_iff.1 habove
      have hput : (directory entries).put (n :: (above ++ [name])) node
          = directory (putEntry n (child.put (above ++ [name]) node) entries) := by
        rw [put.eq_3 _ _ _ _ (by simp), hchild]
      rw [List.cons_append, hput, get?, lookup_putEntry, if_pos rfl, Option.bind_some]
      exact ih hbelow
    | file f => cases habove
    | link target => cases habove

/-- The directory in which an entry is erased. -/
theorem get?_erase_entry :
    (root.erase (above ++ [name])).get? above = some (directory (eraseEntry name es)) := by
  induction above generalizing root with
  | nil =>
    cases habove
    rfl
  | cons n above ih =>
    cases root with
    | directory entries =>
      obtain ⟨child, hchild, hbelow⟩ := Option.bind_eq_some_iff.1 habove
      have herase : (directory entries).erase (n :: (above ++ [name]))
          = directory (putEntry n (child.erase (above ++ [name])) entries) := by
        rw [erase.eq_3 _ _ _ (by simp), hchild]
      rw [List.cons_append, herase, get?, lookup_putEntry, if_pos rfl, Option.bind_some]
      exact ih hbelow
    | file f => cases habove
    | link target => cases habove

/-- **What setting a file changes.** The file stands where it was set; everywhere else stands
what stood there before, if that was nothing or a file. -/
theorem face_put_entry (f : File)
    (hplain : ∀ node, Json.lookup name es = some node → ∃ g, node = file g) (place : Place) :
    (root.put (above ++ [name]) (file f)).face place
      = if place = above ++ [name] then some (file f) else root.face place := by
  induction above generalizing root place with
  | nil =>
    cases habove
    cases place with
    | nil => rfl
    | cons n below =>
      by_cases hn : n = name
      · subst hn
        cases below with
        | nil => simp [face, put, get?, lookup_putEntry, bare]
        | cons m below =>
          -- there is nothing below a file
          cases hnode : Json.lookup n es with
          | none => simp [face, put, get?, lookup_putEntry, hnode]
          | some node =>
            obtain ⟨g, rfl⟩ := hplain node hnode
            simp [face, put, get?, lookup_putEntry, hnode]
      · simp [face, put, get?, lookup_putEntry, hn]
  | cons n above ih =>
    cases root with
    | directory entries =>
      obtain ⟨child, hchild, hbelow⟩ := Option.bind_eq_some_iff.1 habove
      have hput : (directory entries).put (n :: (above ++ [name])) (file f)
          = directory (putEntry n (child.put (above ++ [name]) (file f)) entries) := by
        rw [put.eq_3 _ _ _ _ (by simp), hchild]
      rw [List.cons_append, hput]
      cases place with
      | nil => rfl
      | cons m below =>
        by_cases hm : m = n
        · subst hm
          have hchild' := ih hbelow below
          simp only [face, get?, lookup_putEntry, if_pos, Option.bind_some, hchild,
            List.cons.injEq, true_and] at hchild' ⊢
          exact hchild'
        · simp [face, get?, lookup_putEntry, hm]
    | file g => cases habove
    | link target => cases habove

end Entry

/-! ## Following paths -/

/-- A step asks for the faces of two places. -/
theorem step_eq (root : Node) (follow : Place → Path → Except Fault Place) (place : Place)
    (piece : String) :
    root.step follow place piece =
      match root.face place with
      | none => .error .missing
      | some (file _) => .error .notDirectory
      | some (link _) => .error .tooManyLinks
      | some (directory _) =>
        if piece.isEmpty || piece = "." then .ok place
        else if piece = ".." then .ok place.dropLast
        else if maxName < piece.utf8ByteSize then .error .nameTooLong
        else match root.face (place ++ [piece]) with
          | some (link target) => follow place target
          | _ => .ok (place ++ [piece]) := by
  unfold step
  rcases hplace : root.get? place with _ | node
  · simp [face, hplace]
  · cases node with
    | file f => simp [face, hplace, bare]
    | link target => simp [face, hplace, bare]
    | directory es =>
      have hbelow : root.face (place ++ [piece]) = (Json.lookup piece es).map bare := by
        rw [face, get?_append, hplace, Option.bind_some, get?]
        cases Json.lookup piece es <;> rfl
      rw [hbelow]
      simp only [face, hplace, Option.map_some, bare]
      rcases Json.lookup piece es with _ | node
      · rfl
      · cases node <;> rfl

/-- Where links are not followed, a step asks for the face of one place only. -/
theorem step_to_entry_eq (root : Node) (place : Place) (name : String) :
    root.step (fun directory _ => .ok (directory ++ [name])) place name =
      match root.face place with
      | none => .error .missing
      | some (file _) => .error .notDirectory
      | some (link _) => .error .tooManyLinks
      | some (directory _) =>
        if name.isEmpty || name = "." then .ok place
        else if name = ".." then .ok place.dropLast
        else if maxName < name.utf8ByteSize then .error .nameTooLong
        else .ok (place ++ [name]) := by
  have hbelow : (match root.face (place ++ [name]) with
      | some (link _) => Except.ok (place ++ [name])
      | _ => Except.ok (place ++ [name])) = (Except.ok (place ++ [name]) : Except Fault Place) := by
    split <;> rfl
  rw [step_eq, hbelow]

/-- Whether no path leads on from what stands at a place: there is nothing, or a file. -/
def IsEnd : Option Node → Prop
  | none => True
  | some (file _) => True
  | some (directory _) => False
  | some (link _) => False

section SamePaths

variable {root root' : Node}
  (hfaces : ∀ place, root'.face place = root.face place ∨
    IsEnd (root.face place) ∧ IsEnd (root'.face place))

include hfaces

/-- A step leads to the same place in trees that differ in their ends only. -/
theorem step_of_faces {follow follow' : Place → Path → Except Fault Place}
    (hfollow : ∀ place path r, follow' place path = .ok r ↔ follow place path = .ok r)
    (place : Place) (piece : String) (r : Place) :
    root'.step follow' place piece = .ok r ↔ root.step follow place piece = .ok r := by
  -- there is no step from an end
  have hend : ∀ (tree : Node) (follow : Place → Path → Except Fault Place),
      IsEnd (tree.face place) → tree.step follow place piece ≠ .ok r := by
    intro tree follow hplace
    rw [step_eq]
    split <;> simp_all [IsEnd]
  rcases hfaces place with hsame | ⟨hplace, hplace'⟩
  · rw [step_eq, step_eq, hsame]
    split <;> try rfl
    split <;> try rfl
    split <;> try rfl
    split <;> try rfl
    rcases hfaces (place ++ [piece]) with hbelow | ⟨hbelow, hbelow'⟩
    · rw [hbelow]
      split
      · exact hfollow ..
      · rfl
    · -- a step to an end is a step to the entry, whatever the end is
      cases hface : root.face (place ++ [piece]) with
      | none => cases hface' : root'.face (place ++ [piece]) with
        | none => rfl
        | some node => cases node <;> simp_all [IsEnd]
      | some node => cases hface' : root'.face (place ++ [piece]) with
        | none => cases node <;> simp_all [IsEnd]
        | some node' => cases node <;> cases node' <;> simp_all [IsEnd]
  · exact iff_of_false (hend root' follow' hplace') (hend root follow hplace)

/-- **A path leads to the same place** in trees that differ in their ends only. -/
theorem resolve_of_faces (fuel : Nat) (place : Place) (path : Path) (r : Place) :
    root'.resolve fuel place path = .ok r ↔ root.resolve fuel place path = .ok r := by
  induction fuel generalizing place path r with
  | zero => rfl
  | succ fuel ih => exact foldlM_eq_ok_iff (step_of_faces hfaces ih) ..

end SamePaths

section FewerPlaces

variable {root root' : Node}
  (hfaces : ∀ place, root'.face place = root.face place ∨ root'.face place = none)

include hfaces

theorem face_of_fewer {place : Place} {node : Node} (h : root'.face place = some node) :
    root.face place = some node := by
  rcases hfaces place with hsame | hnone
  · exact hsame ▸ h
  · cases hnone.symm.trans h

/-- A step that leads to something leads there in a tree with more places. -/
theorem step_of_fewer {follow follow' : Place → Path → Except Fault Place}
    {place r : Place} {piece : String}
    (hfollow : ∀ target, follow' place target = .ok r → follow place target = .ok r)
    (h : root'.step follow' place piece = .ok r) (hr : root'.face r ≠ none) :
    root.step follow place piece = .ok r := by
  rw [step_eq] at h ⊢
  split at h
  · cases h
  · cases h
  · cases h
  · rename_i es hplace
    rw [face_of_fewer hfaces hplace]
    dsimp only
    by_cases hstays : (piece.isEmpty || decide (piece = ".")) = true
    · rw [if_pos hstays] at h ⊢
      exact h
    rw [if_neg hstays] at h ⊢
    by_cases hup : piece = ".."
    · rw [if_pos hup] at h ⊢
      exact h
    rw [if_neg hup] at h ⊢
    by_cases hlong : maxName < piece.utf8ByteSize
    · rw [if_pos hlong] at h
      cases h
    rw [if_neg hlong] at h ⊢
    split at h
    · rename_i target hlink
      rw [face_of_fewer hfaces hlink]
      exact hfollow target h
    · rename_i hlink
      cases h
      -- what is there is no link, and it is there in the other tree as well
      obtain ⟨node, hnode⟩ := Option.ne_none_iff_exists'.1 hr
      rw [face_of_fewer hfaces hnode]
      cases node with
      | link target => exact absurd hnode (hlink target)
      | file f => rfl
      | directory es => rfl

/-- So it is with one step after the other, and none of them starts from nothing. -/
theorem foldlM_step_of_fewer {follow follow' : Place → Path → Except Fault Place} {r : Place}
    (hr : root'.face r ≠ none)
    (hfollow : ∀ place target next, root'.face next ≠ none →
      follow' place target = .ok next → follow place target = .ok next)
    (pieces : List String) {start : Place}
    (h : pieces.foldlM (root'.step follow') start = .ok r) :
    root'.face start ≠ none ∧ pieces.foldlM (root.step follow) start = .ok r := by
  induction pieces generalizing start with
  | nil =>
    cases h
    exact ⟨hr, rfl⟩
  | cons piece pieces ih =>
    rw [List.foldlM_cons, bind_eq_ok_iff] at h
    obtain ⟨next, hnext, hrest⟩ := h
    obtain ⟨hthere, hrest⟩ := ih hrest
    have hstep := step_of_fewer hfaces (fun target => hfollow start target next hthere) hnext hthere
    refine ⟨fun hnone => ?_, ?_⟩
    · rw [step_eq, hnone] at hnext
      cases hnext
    · rw [List.foldlM_cons, bind_eq_ok_iff]
      exact ⟨next, hstep, hrest⟩

/-- **Paths lead where they led with more places**, if what they lead to is there. -/
theorem resolve_of_fewer {fuel : Nat} {place r : Place} {path : Path}
    (h : root'.resolve fuel place path = .ok r) (hr : root'.face r ≠ none) :
    root.resolve fuel place path = .ok r := by
  induction fuel generalizing place path r with
  | zero => cases h
  | succ fuel ih =>
    have hfollow : ∀ place target next, root'.face next ≠ none →
        root'.resolve fuel place target = .ok next → root.resolve fuel place target = .ok next :=
      fun place target next hthere hnext => ih hnext hthere
    exact (foldlM_step_of_fewer hfaces hr hfollow _ h).2

end FewerPlaces

/-- A path leads to the same place when a file is gone. -/
theorem resolve_erase {root : Node} {gone : Place} {f : File} (hne : gone ≠ [])
    (hgone : root.get? gone = some (file f)) (fuel : Nat) (place : Place) (path : Path)
    (r : Place) :
    (root.erase gone).resolve fuel place path = .ok r ↔ root.resolve fuel place path = .ok r := by
  refine resolve_of_faces (fun other => ?_) fuel place path r
  rw [face_erase_of_get? hne hgone fun es h => by cases h]
  split
  · rename_i hother
    rw [hother, face_eq_file_iff.2 hgone]
    exact .inr ⟨trivial, trivial⟩
  · exact .inl rfl

/-- A path leads to the same place when a file is set. -/
theorem resolve_put_entry {root : Node} {above : Place} {es : List (String × Node)}
    (habove : root.get? above = some (directory es)) {name : String}
    (hplain : ∀ node, Json.lookup name es = some node → ∃ g, node = file g) (f : File)
    (fuel : Nat) (place : Place) (path : Path) (r : Place) :
    (root.put (above ++ [name]) (file f)).resolve fuel place path = .ok r
      ↔ root.resolve fuel place path = .ok r := by
  refine resolve_of_faces (fun other => ?_) fuel place path r
  rw [face_put_entry habove name f hplain]
  split
  · rename_i hother
    rw [hother, face, get?_entry habove]
    refine .inr ⟨?_, trivial⟩
    cases hnode : Json.lookup name es with
    | none => trivial
    | some node =>
      obtain ⟨g, rfl⟩ := hplain node hnode
      trivial
  · exact .inl rfl

end Node

end PatternAudit.Files
