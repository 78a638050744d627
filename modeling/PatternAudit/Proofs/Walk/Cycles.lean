/-
Cutting cycles loses no pattern.

A description reaches its nodes by descents that may go through a reference as often as
they like. A walk enters no reference that it is inside of. What it leaves out in this
way it has found before: where a descent enters a reference again, the trail that
entered it first has come to the same node, since a reference names only one. The place
is the same, too, if no reference is used in two roles. So every descent can be cut
short to a trail that ends where it does (`trail_of_descent`), and a walk that meets no
limit comes to the end of every trail (`Trail.covered`).

A node that is a reference stands for another one. A pattern beside the reference is not
read, and so is not found (`pattern_beside_reference_not_found`).
-/
import PatternAudit.Proofs.Walk.Covered

set_option autoImplicit false

namespace PatternAudit.Walk

/-! ## Separate roles -/

/-- A document in which no reference is used at places of two kinds. -/
def SeparateRoles (doc : Json) : Prop :=
  ∀ segs p v segs' q u target, Descent doc segs p v → Descent doc segs' q u →
    p.refers = true → q.refers = true → target? v = some target → target? u = some target → p = q

/-- Without paths, a descent from the root stays among schemas. -/
theorem place_of_no_paths {doc : Json} (hpaths : doc.get? "paths" = none) {segs : List String}
    {p : Place} {v : Json} (h : Descent doc segs p v) :
    (p = .root ∧ v = doc) ∨ p ∈ [.components, .schemas, .schema, .properties, .branches] := by
  induction h with
  | root => exact Or.inl ⟨rfl, rfl⟩
  | hop _ hrefers _ _ ih =>
    rcases ih with ⟨rfl, -⟩ | hmem
    · cases hrefers
    · exact Or.inr hmem
  | @child segs p q v below key _ _ hchild ih =>
    refine Or.inr ?_
    have hplaces : ∀ {p : Place}, p ∈ [.components, .schema] →
        ∀ m ∈ p.members, m.2 ∈ [.components, .schemas, .schema, .properties, .branches] := by
      decide
    rcases ih with ⟨rfl, rfl⟩ | hmem
    · have hmember := hchild.mem_members rfl
      obtain ⟨-, hget⟩ := hchild.of_member hmember
      simp only [Place.members, List.mem_cons, List.not_mem_nil, or_false, Prod.mk.injEq] at hmember
      rcases hmember with ⟨rfl, rfl⟩ | ⟨rfl, rfl⟩ | ⟨rfl, rfl⟩
      · decide
      · decide
      · rw [hpaths] at hget
        cases hget
    · simp only [List.mem_cons, List.not_mem_nil, or_false] at hmem
      rcases hmem with rfl | rfl | rfl | rfl | rfl
      · exact hplaces (by decide) _ (hchild.mem_members rfl)
      · obtain ⟨rfl, -⟩ := hchild.of_entry rfl
        decide
      · rcases hchild.of_schema with hmember | ⟨-, -, ⟨rfl, -⟩ | ⟨rfl, -⟩⟩ | ⟨-, -, rfl, -⟩
        · exact hplaces (by decide) _ hmember
        · decide
        · decide
        · decide
      · obtain ⟨rfl, -⟩ := hchild.of_entry rfl
        decide
      · obtain ⟨rfl, -⟩ := hchild.of_element rfl
        decide

/-- Without paths, references are used by schemas only. -/
theorem separateRoles_of_no_paths {doc : Json} (hpaths : doc.get? "paths" = none) :
    SeparateRoles doc := by
  have hschema : ∀ {segs p v}, Descent doc segs p v → p.refers = true → p = .schema := by
    intro segs p v h hrefers
    rcases place_of_no_paths hpaths h with ⟨rfl, -⟩ | hmem
    · cases hrefers
    · simp only [List.mem_cons, List.not_mem_nil, or_false] at hmem
      rcases hmem with rfl | rfl | rfl | rfl | rfl <;> first | rfl | cases hrefers
  intro segs p v segs' q u target hp hq hprefers hqrefers _ _
  rw [hschema hp hprefers, hschema hq hqrefers]

/-! ## Cutting descents short -/

/-- Every descent can be cut short to a trail that ends where it does. -/
theorem trail_of_descent {w : Walker} (hroles : SeparateRoles w.root) (hunlimited : Unlimited w)
    {segs : List String} {p : Place} {v : Json} (h : Descent w.root segs p v) :
    ∃ segs' refs, Trail w segs' p v refs := by
  induction h with
  | root => exact ⟨[], [], .root⟩
  | @hop segs p v next target hdescent hrefers htarget hnext ih =>
    obtain ⟨segs', refs, htrail⟩ := ih
    by_cases hinside : target ∈ refs
    · -- the trail is inside of the reference, so it was entered on a trail before
      obtain ⟨segs₀, q, u, next', refs₀, hbefore, hq, hu, hnext', hentered⟩ :=
        htrail.of_mem_refs hinside
      have hplace : p = q :=
        hroles _ _ _ _ _ _ target hdescent hbefore.descent hrefers hq htarget hu
      have hsame : next' = next := Option.some.inj (hnext'.symm.trans hnext)
      rw [hplace, ← hsame]
      exact ⟨segs₀, target :: refs₀, hentered⟩
    · have hcovered := htrail.covered hunlimited
      obtain ⟨hbound, -⟩ := hcovered.hop hunlimited hrefers htarget hinside hnext
      exact ⟨segs', target :: refs, .hop htrail hrefers htarget hinside hbound hnext⟩
  | child _ hreads hchild ih =>
    obtain ⟨segs', refs, htrail⟩ := ih
    exact ⟨_, _, .child htrail hreads hchild⟩

/-- **An unlimited walk finds every pattern.** Where references have separate roles, the
pattern of every node that any descent comes to, and that is no reference itself, is
found at some location of the node. -/
theorem pattern_found_on_descent {w : Walker} (hroles : SeparateRoles w.root)
    (hunlimited : Unlimited w) {segs : List String} {p : Place} {v : Json}
    (h : Descent w.root segs p v) (hbears : p.bearsPattern = true) (hnode : target? v = none)
    {pattern : String} (hpattern : v.get? "pattern" = some (.str pattern)) :
    ∃ location, LeadsTo w.root location p v ∧ .pattern location pattern ∈ run w := by
  obtain ⟨segs', refs, htrail⟩ := trail_of_descent hroles hunlimited h
  have hreads : p.Reads v := fun _ => hnode
  have hfound := (htrail.covered hunlimited).pattern_mem_run hunlimited hreads hbears hpattern
  exact ⟨locate segs', ⟨segs', segments_locate segs', htrail.descent, hreads⟩, hfound⟩

/-- A schema with a name and a next one, which is the schema again. -/
def listNode : Json :=
  .obj [("properties", .obj [
    ("name", .obj [("pattern", .str "^[a-z]+$")]),
    ("next", .obj [("$ref", .str "#/definitions/Node")])])]

/-- A linked list. -/
def linkedList : Json :=
  .obj [("swagger", .str "2.0"), ("definitions", .obj [("Node", listNode)])]

theorem descent_properties {segs : List String} (h : Descent linkedList segs .schema listNode) :
    Descent linkedList (segs ++ ["properties"]) .properties (.obj [
      ("name", .obj [("pattern", .str "^[a-z]+$")]),
      ("next", .obj [("$ref", .str "#/definitions/Node")])]) := by
  have hmember : ("properties", Place.properties) ∈ Place.members .schema := by decide
  exact h.child (fun _ => rfl) (.member hmember rfl)

/-- A descent goes on to the next node, as often as it likes. -/
theorem descent_next {segs : List String} (h : Descent linkedList segs .schema listNode) :
    Descent linkedList (segs ++ ["properties"] ++ ["next"]) .schema listNode := by
  have hreference := (descent_properties h).child (Place.reads_of_not_refers rfl _)
    (.entry_of_ne rfl (List.mem_cons_of_mem _ (List.mem_singleton_self _)) (by decide))
  have hdecoded : Pointer.percentDecode "/definitions/Node" = "/definitions/Node" := by
    decide +kernel
  have hnode : Pointer.resolveRef? linkedList "#/definitions/Node" = some listNode := by
    show Pointer.resolve? linkedList (Pointer.percentDecode "/definitions/Node") = some listNode
    rw [hdecoded]
    rfl
  exact hreference.hop rfl rfl hnode

/-- The name of the third node is found, although the walk goes on to the second only. -/
theorem linkedList_pattern_found :
    SeparateRoles linkedList ∧ Unlimited ⟨linkedList, Limits.default⟩ ∧
      Descent linkedList ["definitions", "Node", "properties", "next", "properties", "next",
        "properties", "name"] .schema (.obj [("pattern", .str "^[a-z]+$")]) ∧
      ∃ location, LeadsTo linkedList location .schema (.obj [("pattern", .str "^[a-z]+$")]) ∧
        .pattern location "^[a-z]+$" ∈ run ⟨linkedList, Limits.default⟩ := by
  have hroles : SeparateRoles linkedList := separateRoles_of_no_paths rfl
  have hunlimited : Unlimited ⟨linkedList, Limits.default⟩ :=
    unlimited_of_test 10 (by decide +kernel)
  have hmember : ("definitions", Place.schemas) ∈ Place.members .root := by decide
  have hdefinitions : Descent linkedList ["definitions"] .schemas (.obj [("Node", listNode)]) :=
    Descent.root.child (Place.reads_of_not_refers rfl _) (.member hmember rfl)
  have hfirst : Descent linkedList ["definitions", "Node"] .schema listNode :=
    hdefinitions.child (Place.reads_of_not_refers rfl _)
      (.entry_of_ne rfl (List.mem_singleton_self _) (by decide))
  have hname := (descent_properties (descent_next (descent_next hfirst))).child
    (Place.reads_of_not_refers rfl _) (.entry_of_ne rfl (List.mem_cons_self ..) (by decide))
  exact ⟨hroles, hunlimited, hname, pattern_found_on_descent hroles hunlimited hname rfl rfl rfl⟩

/-- A schema that is a reference and has a pattern beside it. -/
def patternBesideReference : Json :=
  .obj [
    ("swagger", .str "2.0"),
    ("definitions", .obj [
      ("Id", .obj [("$ref", .str "#/definitions/Text"), ("pattern", .str "^[a-z]+$")]),
      ("Text", .obj [("type", .str "string")])])]

/-- A pattern beside a reference is not found, although no limit is met. -/
theorem pattern_beside_reference_not_found :
    SeparateRoles patternBesideReference ∧
      Unlimited ⟨patternBesideReference, Limits.default⟩ ∧
      (∃ segs p v, Descent patternBesideReference segs p v ∧ p.bearsPattern = true ∧
        v.get? "pattern" = some (.str "^[a-z]+$")) ∧
      ¬ ∃ location, .pattern location "^[a-z]+$"
        ∈ run ⟨patternBesideReference, Limits.default⟩ := by
  have hmember : ("definitions", Place.schemas) ∈ Place.members .root := by decide
  have hroot : Descent patternBesideReference [] .root patternBesideReference := .root
  have hdefinitions := hroot.child (Place.reads_of_not_refers rfl _) (.member hmember rfl)
  have hid := hdefinitions.child (Place.reads_of_not_refers rfl _)
    (.entry_of_ne rfl (List.mem_cons_self ..) (by decide))
  have hnone : patterns ⟨patternBesideReference, Limits.default⟩ = [] :=
    patterns_of_test 5 (by decide +kernel)
  refine ⟨separateRoles_of_no_paths rfl, unlimited_of_test 5 (by decide +kernel),
    ⟨_, _, _, hid, rfl, rfl⟩, ?_⟩
  rintro ⟨location, hfound⟩
  rw [← mem_patterns, hnone] at hfound
  cases hfound

end PatternAudit.Walk
