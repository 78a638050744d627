/-
Malformed values are diagnosed.

The failure policy of a walk: a malformed node is skipped with a diagnostic, and its siblings
are read. What is malformed is known from the places (`Malformed`), so the policy can be stated
without the walk. A walk that meets no limit keeps it at every position: the diagnostics of
values are those of malformed positions, and there is one for each (`malformed_diagnosed`).

The places do not ask anything of headers, and references to `true` and `false` are among what
is malformed. Both are as the walk has it, and neither goes with the policy
(`headers_undiagnosed`).
-/
import PatternAudit.Audit
import PatternAudit.Proofs.Walk.Misfits

set_option autoImplicit false

namespace PatternAudit.Walk

/-! ## One diagnostic for each -/

/-- Different keys are written differently. -/
theorem locate_injective : Function.Injective locate := by
  intro segs segs' h
  have hkeys := congrArg Pointer.segments h
  rw [segments_locate, segments_locate] at hkeys
  exact (List.cons.inj hkeys).2

/-- What an item says is wrong with the value at a location. -/
def Item.complaint? (location : String) : Item → Option Skip
  | .skipped here why => if here = location ∧ why.isMisfit = true then some why else none
  | _ => none

/-- What a walk says is wrong with the value at a location. -/
def complaints (w : Walker) (location : String) : List Skip :=
  (run w).filterMap (Item.complaint? location)

theorem mem_complaints {w : Walker} {location : String} {why : Skip} :
    why ∈ complaints w location ↔ .skipped location why ∈ run w ∧ why.isMisfit = true := by
  rw [complaints, List.mem_filterMap]
  constructor
  · rintro ⟨i, hi, hwhy⟩
    cases i with
    | skipped here why' =>
      rw [Item.complaint?, Option.ite_none_right_eq_some] at hwhy
      obtain ⟨⟨rfl, hmisfit⟩, heq⟩ := hwhy
      cases heq
      exact ⟨hi, hmisfit⟩
    | _ => cases hwhy
  · rintro ⟨hi, hmisfit⟩
    exact ⟨_, hi, if_pos ⟨rfl, hmisfit⟩⟩

/-- A walk complains of a value at most once. -/
theorem length_complaints_le {w : Walker} (hroot : w.root.keysDistinct = true)
    (hmethods : MethodsDistinct w.root) (location : String) :
    (complaints w location).length ≤ 1 := by
  refine Nat.le_trans ?_ (said_run_le (Pointer.segments location) hroot hmethods)
  rw [complaints, List.length_filterMap_eq_countP]
  refine List.countP_mono_left fun i _ hi => ?_
  obtain ⟨why, hwhy⟩ := Option.isSome_iff_exists.1 hi
  cases i with
  | skipped here why' =>
    rw [Item.complaint?, Option.ite_none_right_eq_some] at hwhy
    obtain ⟨⟨rfl, hmisfit⟩, -⟩ := hwhy
    simp [Item.isMisfit, hmisfit, Item.location]
  | _ => cases hwhy

/-- **Malformed values are diagnosed, and no others.** Whatever a description is, a walk over it
that meets no limit says of a value that it is wrong exactly where a position is malformed. If
each method of a path item has one key, so that no two positions share a location, then it says
so once for each of them, and it comes upon nothing at all where a schema is `true` or
`false`. -/
theorem malformed_diagnosed (d : Description) (l : Limits) (hunlimited : Unlimited ⟨d.root, l⟩) :
    (∀ location why, why.isMisfit = true →
      (.skipped location why ∈ run ⟨d.root, l⟩ ↔
        ∃ segs, location = locate segs ∧ Malformed ⟨d.root, l⟩ segs why)) ∧
      (MethodsDistinct d.root →
        (∀ segs why, Malformed ⟨d.root, l⟩ segs why →
          complaints ⟨d.root, l⟩ (locate segs) = [why]) ∧
        ∀ segs b refs, Written ⟨d.root, l⟩ segs .schema (.bool b) refs →
          ∀ i ∈ run ⟨d.root, l⟩, i.location ≠ locate segs) := by
  refine ⟨fun location why hmisfit => ⟨fun hi => ?_, ?_⟩, fun hmethods => ⟨?_, ?_⟩⟩
  · have hlimit := hunlimited _ hi
    exact (Item.explained_of_mem_run hi hlimit).malformed location why rfl hmisfit
  · rintro ⟨segs, rfl, hmalformed⟩
    exact hmalformed.mem_run hunlimited
  · intro segs why hmalformed
    have hmem : why ∈ complaints ⟨d.root, l⟩ (locate segs) :=
      mem_complaints.2 ⟨hmalformed.mem_run hunlimited, hmalformed.isMisfit⟩
    have hone := length_complaints_le (w := ⟨d.root, l⟩) d.distinct hmethods (locate segs)
    obtain ⟨first, hfirst⟩ := List.length_eq_one_iff.1
      (Nat.le_antisymm hone (List.length_pos_of_mem hmem))
    rw [hfirst] at hmem ⊢
    rw [List.mem_singleton.1 hmem]
  · intro segs b refs hwritten i hi hlocation
    obtain ⟨segs', p, v, refs', hplaced, htrail, hbool⟩ :=
      (Item.explained_of_mem_run hi (hunlimited i hi)).placed
    obtain rfl := locate_injective (hlocation.symm.trans hplaced)
    -- what else could be there is what references lead to from the schema
    obtain ⟨rfl, hleads⟩ := htrail.of_written d.distinct hmethods hwritten
    cases eq_of_leads_of_reads (fun _ => rfl) hleads
    exact hbool rfl b rfl

/-- A description in which much is malformed: a map of parameters, a pattern that is a number,
a list of media types, a schema that refers to `true`. -/
def malformedParts : Description where
  name := "parts.yaml"
  root := .obj [
    ("swagger", .str "2.0"),
    ("definitions", .obj [
      ("Any", .bool true),
      ("Count", .obj [("pattern", .num (.int 7))]),
      ("Other", .obj [("$ref", .str "#/definitions/Any")])]),
    ("paths", .obj [("/parts", .obj [("get", .obj [
      ("parameters", .obj []),
      ("requestBody", .obj [("content", .arr [])])])])])]
  source := ""
  distinct := by decide

theorem malformedParts_diagnosed :
    Unlimited ⟨malformedParts.root, Limits.default⟩ ∧ MethodsDistinct malformedParts.root ∧
      complaints ⟨malformedParts.root, Limits.default⟩ "#/definitions/Count" = [.patternNotString] ∧
      complaints ⟨malformedParts.root, Limits.default⟩ "#/paths/~1parts/get/requestBody/content"
        = [.expected "a map of media types"] ∧
      ∀ i ∈ run ⟨malformedParts.root, Limits.default⟩, i.location ≠ "#/definitions/Any" := by
  let w : Walker := ⟨malformedParts.root, Limits.default⟩
  have hunlimited : Unlimited w := unlimited_of_test 16 (by decide +kernel)
  have hmethods : MethodsDistinct malformedParts.root := by
    refine methodsDistinct_of_members malformedParts.distinct rfl (by decide) ?_
    intro m hm ms hms
    rw [List.mem_singleton.1 hm] at hms
    cases hms
    decide +kernel
  have hroot : Place.root.Reads w.root := Place.reads_of_not_refers rfl _
  have hschemas : Trail w ["definitions"] .schemas _ _ :=
    Trail.root.child hroot (.member (by decide) rfl)
  have hcount : Trail w ["definitions", "Count"] .schema _ _ :=
    hschemas.child (Place.reads_of_not_refers rfl _)
      (.entry_of_ne rfl (.tail _ (.head _)) (by decide))
  have hany : Written w ["definitions", "Any"] .schema (.bool true) _ :=
    .child hschemas (Place.reads_of_not_refers rfl _) (.entry_of_ne rfl (.head _) (by decide))
  have hpaths : Trail w ["paths"] .paths _ _ := Trail.root.child hroot (.member (by decide) rfl)
  have hitem : Trail w ["paths", "/parts"] .pathItem _ _ :=
    hpaths.child (Place.reads_of_not_refers rfl _) (.entry rfl (.head _) fun _ => by decide)
  have hget : Trail w ["paths", "/parts", "get"] .operation _ _ :=
    hitem.child (fun _ => rfl) (.method (.head _) (by decide) (by decide))
  have hbody : Trail w ["paths", "/parts", "get", "requestBody"] .requestBody _ _ :=
    hget.child (Place.reads_of_not_refers rfl _) (.member (by decide) rfl)
  have hcontent : Trail w ["paths", "/parts", "get", "requestBody", "content"] .content _ _ :=
    hbody.child (fun _ => rfl) (.member (by decide) rfl)
  obtain ⟨hone, hnone⟩ :=
    (malformed_diagnosed malformedParts Limits.default hunlimited).2 hmethods
  have hpattern := hone _ _ (.pattern hcount (fun _ => rfl) rfl rfl nofun)
  have hlist := hone _ _ (.misfit hcontent (Place.reads_of_not_refers rfl _) rfl nofun)
  have hquiet := hnone _ _ _ hany
  have hatCount : locate ["definitions", "Count"] = "#/definitions/Count" := by decide +kernel
  have hatContent : locate ["paths", "/parts", "get", "requestBody", "content"]
      = "#/paths/~1parts/get/requestBody/content" := by decide +kernel
  have hatAny : locate ["definitions", "Any"] = "#/definitions/Any" := by decide +kernel
  rw [hatCount] at hpattern
  rw [hatContent] at hlist
  rw [hatAny] at hquiet
  exact ⟨hunlimited, hmethods, hpattern, hlist, hquiet⟩

/-! ## Where the policy is not kept -/

/-- A description with a list of headers, a header that is a text, and a reference to a schema
that is `true`. -/
def silentHeaders : Description where
  name := "headers.yaml"
  root := .obj [
    ("swagger", .str "2.0"),
    ("definitions", .obj [
      ("Other", .obj [("$ref", .str "#/definitions/Any")]),
      ("Any", .bool true)]),
    ("paths", .obj [("/parts", .obj [("get", .obj [("responses", .obj [
      ("200", .obj [("headers", .arr [.str "X-Part"])]),
      ("404", .obj [("headers", .obj [("X-Part", .str "id")])])])])])])]
  source := ""
  distinct := by decide

/-- Nothing is said of the headers, though a walk comes to them and they are malformed; and
something is said of the schema, which is `true` where its reference leads. -/
theorem headers_undiagnosed :
    let w : Walker := ⟨silentHeaders.root, Limits.default⟩
    Unlimited w ∧
      (∃ refs, Trail w ["paths", "/parts", "get", "responses", "200", "headers"] .headers
        (.arr [.str "X-Part"]) refs) ∧
      (∃ refs, Trail w ["paths", "/parts", "get", "responses", "404", "headers", "X-Part"] .header
        (.str "id") refs) ∧
      (∃ refs, Trail w ["definitions", "Other"] .schema (.bool true) refs) ∧
      (run w).filterMap Item.diagnostic?
        = [⟨"#/definitions/Other", "expected a schema object, found boolean"⟩] := by
  intro w
  have hroot : Place.root.Reads w.root := Place.reads_of_not_refers rfl _
  have hschemas : Trail w ["definitions"] .schemas _ _ :=
    Trail.root.child hroot (.member (by decide) rfl)
  have hother : Trail w ["definitions", "Other"] .schema _ _ :=
    hschemas.child (Place.reads_of_not_refers rfl _) (.entry_of_ne rfl (.head _) (by decide))
  have hany : Pointer.resolveRef? w.root "#/definitions/Any" = some (.bool true) := by
    have hsegments : Pointer.segments? "#/definitions/Any"
        = some ["definitions".toList, "Any".toList] := by decide +kernel
    rw [Pointer.resolveRef?_eq, hsegments]
    rfl
  have hpaths : Trail w ["paths"] .paths _ _ := Trail.root.child hroot (.member (by decide) rfl)
  have hitem : Trail w ["paths", "/parts"] .pathItem _ _ :=
    hpaths.child (Place.reads_of_not_refers rfl _) (.entry rfl (.head _) fun _ => by decide)
  have hget : Trail w ["paths", "/parts", "get"] .operation _ _ :=
    hitem.child (fun _ => rfl) (.method (.head _) (by decide) (by decide))
  have hresponses : Trail w ["paths", "/parts", "get", "responses"] .responses _ _ :=
    hget.child (Place.reads_of_not_refers rfl _) (.member (by decide) rfl)
  have hfound : Trail w ["paths", "/parts", "get", "responses", "200"] .response _ _ :=
    hresponses.child (Place.reads_of_not_refers rfl _) (.entry_of_ne rfl (.head _) (by decide))
  have hmissing : Trail w ["paths", "/parts", "get", "responses", "404"] .response _ _ :=
    hresponses.child (Place.reads_of_not_refers rfl _)
      (.entry_of_ne rfl (.tail _ (.head _)) (by decide))
  have hmap : Trail w ["paths", "/parts", "get", "responses", "404", "headers"] .headers _ _ :=
    hmissing.child (fun _ => rfl) (.member (by decide) rfl)
  have htold : (run w).filterMap Item.diagnostic?
      = [⟨"#/definitions/Other", "expected a schema object, found boolean"⟩] :=
    of_decide_eq_true (@run_of_test w 12 (fun items => decide (items.filterMap Item.diagnostic? = _))
      (by decide +kernel))
  exact ⟨unlimited_of_test 12 (by decide +kernel),
    ⟨_, hfound.child (fun _ => rfl) (.member (by decide) rfl)⟩,
    ⟨_, hmap.child (Place.reads_of_not_refers rfl _) (.entry_of_ne rfl (.head _) (by decide))⟩,
    ⟨_, hother.hop rfl rfl (by decide) (by decide) hany⟩, htold⟩

end PatternAudit.Walk
