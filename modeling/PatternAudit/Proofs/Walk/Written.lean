/-
What is written at a position, and what its references lead to.

A trail ends where a step down leads, or where references lead from there. `Written` is the
first of the two: the node that the description has at a position, which may be a reference.
Every trail comes from what is written at its end by references alone (`Trail.from_written`).

Keys lead to one position only, if no key comes twice and no path item names a method twice
(`Written.unique`). The induction is on the keys from the right: the node above was read, so
references lead no further from it, and of the ways that references go there is one. So two
trails along the same keys meet, and a step down has one end for each key (`Child.unique`).
-/
import Mathlib.Logic.Relation
import PatternAudit.Proofs.Walk.Locations

set_option autoImplicit false

namespace PatternAudit.Walk

open Relation (ReflTransGen)

/-! ## Positions -/

/-- What is written at a position: where a step down leads, before any reference is followed. -/
inductive Written (w : Walker) : List String → Place → Json → List String → Prop where
  | root : Written w [] .root w.root []
  | child {segs : List String} {p q : Place} {v below : Json} {key : String} {refs : List String}
      (h : Trail w segs p v refs) (hreads : p.Reads v) (hchild : Child p v key q below) :
      Written w (segs ++ [key]) q below (p.carry refs)

theorem Written.of_nil {w : Walker} {p : Place} {u : Json} {rs : List String}
    (h : Written w [] p u rs) : p = .root ∧ u = w.root ∧ rs = [] := by
  generalize hsegs : ([] : List String) = segs at h
  cases h with
  | root => exact ⟨rfl, rfl, rfl⟩
  | child => simp at hsegs

theorem Written.of_append {w : Walker} {segs : List String} {key : String} {q : Place} {u : Json}
    {rs : List String} (h : Written w (segs ++ [key]) q u rs) :
    ∃ p v refs, Trail w segs p v refs ∧ p.Reads v ∧ Child p v key q u ∧ rs = p.carry refs := by
  generalize hsegs : segs ++ [key] = here at h
  cases h with
  | root => simp at hsegs
  | child h hreads hchild =>
    obtain ⟨rfl, hkey⟩ := List.append_inj' hsegs rfl
    cases List.singleton_inj.1 hkey
    exact ⟨_, _, _, h, hreads, hchild, rfl⟩

/-- A node at a place, with the references that led to it. -/
abbrev Stop := Json × List String

/-- One reference of a node at a place, followed. -/
def Leads (w : Walker) (p : Place) (a b : Stop) : Prop :=
  p.refers = true ∧ ∃ target next, target? a.1 = some target ∧
    Pointer.resolveRef? w.root target = some next ∧ b = (next, target :: a.2)

section Leads

variable {w : Walker} {p : Place} {a b c : Stop}

/-- A node refers to one other node at most. -/
theorem leads_rightUnique (w : Walker) (p : Place) : Relator.RightUnique (Leads w p) := by
  rintro a b c ⟨-, target, next, htarget, hnext, rfl⟩ ⟨-, target', next', htarget', hnext', rfl⟩
  rw [htarget] at htarget'
  cases htarget'
  rw [hnext] at hnext'
  cases hnext'
  rfl

/-- From a node that is read at its place, references lead nowhere. -/
theorem eq_of_leads_of_reads (hreads : p.Reads a.1) (h : ReflTransGen (Leads w p) a b) : b = a := by
  rcases h.cases_head with rfl | ⟨c, ⟨hrefers, target, next, htarget, -⟩, -⟩
  · rfl
  · rw [hreads hrefers] at htarget
    cases htarget

/-- Where references lead from a node to one that is read, there is only one such node. -/
theorem eq_of_leads (hb : p.Reads b.1) (hc : p.Reads c.1) (hab : ReflTransGen (Leads w p) a b)
    (hac : ReflTransGen (Leads w p) a c) : b = c := by
  rcases ReflTransGen.total_of_right_unique (leads_rightUnique w p) hab hac with hbc | hcb
  · exact (eq_of_leads_of_reads hb hbc).symm
  · exact eq_of_leads_of_reads hc hcb

end Leads

section Trails

variable {w : Walker} {segs : List String} {p q : Place} {u v : Json} {refs rs : List String}

/-- A trail comes from what is written at its end by references alone. -/
theorem Trail.from_written (h : Trail w segs p v refs) :
    ∃ u rs, Written w segs p u rs ∧ ReflTransGen (Leads w p) (u, rs) (v, refs) := by
  induction h with
  | root => exact ⟨_, _, .root, .refl⟩
  | hop _ hrefers htarget _ _ hnext ih =>
    obtain ⟨u, rs, hwritten, hleads⟩ := ih
    exact ⟨u, rs, hwritten, hleads.tail ⟨hrefers, _, _, htarget, hnext, rfl⟩⟩
  | child h hreads hchild => exact ⟨_, _, .child h hreads hchild, .refl⟩

/-- A step down has one end for each key, if no key comes twice and no method is named twice. -/
theorem Child.unique {below below' : Json} {key : String} (hkeys : v.keysDistinct = true)
    (hmethods : ∀ ms, p = .pathItem → v = .obj ms → (namedMethods ms).Nodup)
    (h : Child p v key q below) {q' : Place} (h' : Child p v key q' below') :
    q = q' ∧ below = below' := by
  have hget : ∀ {x y : Json}, v.get? key = some x → v.get? key = some y → x = y := by
    intro x y hx hy
    exact Option.some.inj (hx.symm.trans hy)
  cases h with
  | member hmember hv =>
    obtain ⟨hplace, hv'⟩ := h'.of_member hmember
    exact ⟨hplace.symm, hget hv hv'⟩
  | tuple hv =>
    rcases h'.of_schema with hmember | ⟨-, hv', hkind⟩ | ⟨hkey, -⟩
    · simp [Place.members] at hmember
    · cases hget hv hv'
      rcases hkind with ⟨rfl, -⟩ | ⟨-, hone⟩
      · exact ⟨rfl, rfl⟩
      · exact absurd rfl (hone _)
    · exact absurd hkey (by decide)
  | items hv hone =>
    rcases h'.of_schema with hmember | ⟨-, hv', hkind⟩ | ⟨hkey, -⟩
    · simp [Place.members] at hmember
    · cases hget hv hv'
      rcases hkind with ⟨-, vs, rfl⟩ | ⟨rfl, -⟩
      · exact absurd rfl (hone vs)
      · exact ⟨rfl, rfl⟩
    · exact absurd hkey (by decide)
  | additional hv =>
    rcases h'.of_schema with hmember | ⟨hkey, -⟩ | ⟨-, hv', rfl, -⟩
    · simp [Place.members] at hmember
    · exact absurd hkey (by decide)
    · exact ⟨rfl, hget hv hv'⟩
  | @method ms spelled _ _ hmem hmethod hspelled =>
    cases h' with
    | member hmember =>
      -- no method is spelled like the list of parameters
      cases List.mem_singleton.1 hmember
      exact absurd hmethod (by decide)
    | @method _ spelled' _ _ hmem' _ hspelled' =>
      have hname := methodOf?_eq_some_iff.2 ⟨hmethod, hspelled⟩
      have hname' := methodOf?_eq_some_iff.2 ⟨hmethod, hspelled'⟩
      have hnodup := (Json.keysDistinct_obj.1 hkeys).1
      have hsame : spelled = spelled' :=
        (nodup_namedMethods_iff hnodup).1 (hmethods ms rfl rfl) spelled
          (List.mem_map.2 ⟨_, hmem, rfl⟩) spelled' (List.mem_map.2 ⟨_, hmem', rfl⟩) key hname hname'
      cases List.inj_on_of_nodup_map hnodup hmem hmem' hsame
      exact ⟨rfl, rfl⟩
    | entry hentry => cases hentry
  | @entry _ _ ms _ _ hentry hmem =>
    obtain ⟨hplace, ms', heq, hmem', -⟩ := h'.of_entry hentry
    cases heq
    have hnodup := (Json.keysDistinct_obj.1 hkeys).1
    cases List.inj_on_of_nodup_map hnodup hmem hmem' rfl
    exact ⟨hplace.symm, rfl⟩
  | @element _ _ vs i _ helement hi =>
    obtain ⟨hplace, vs', j, heq, hkey, hj⟩ := h'.of_element helement
    cases heq
    rw [Nat.repr_injective hkey, hj] at hi
    exact ⟨hplace.symm, (Option.some.inj hi).symm⟩

/-- **Keys lead to one position.** -/
theorem Written.unique (hroot : w.root.keysDistinct = true) (hmethods : MethodsDistinct w.root)
    (h : Written w segs p u refs) {p' : Place} {u' : Json} {refs' : List String}
    (h' : Written w segs p' u' refs') : p = p' ∧ u = u' ∧ refs = refs' := by
  induction segs using List.reverseRecOn generalizing p u refs p' u' refs' with
  | nil =>
    obtain ⟨rfl, rfl, rfl⟩ := h.of_nil
    obtain ⟨rfl, rfl, rfl⟩ := h'.of_nil
    exact ⟨rfl, rfl, rfl⟩
  | append_singleton segs key ih =>
    obtain ⟨p₁, v₁, refs₁, habove, hreads, hchild, rfl⟩ := h.of_append
    obtain ⟨p₂, v₂, refs₂, habove', hreads', hchild', rfl⟩ := h'.of_append
    -- the nodes above come from what is written there, which is the same
    obtain ⟨a, as, ha, hleads⟩ := habove.from_written
    obtain ⟨b, bs, hb, hleads'⟩ := habove'.from_written
    obtain ⟨rfl, rfl, rfl⟩ := ih ha hb
    have hsame : ((v₁, refs₁) : Stop) = (v₂, refs₂) := eq_of_leads hreads hreads' hleads hleads'
    cases hsame
    have hdistinct := habove.keysDistinct hroot
    have hnamed : ∀ ms, p₁ = .pathItem → v₁ = .obj ms → (namedMethods ms).Nodup := by
      rintro ms rfl rfl
      exact (nodup_namedMethods_iff (Json.keysDistinct_obj.1 hdistinct).1).2
        (hmethods segs ms habove.descent hreads)
    obtain ⟨rfl, rfl⟩ := hchild.unique hdistinct hnamed hchild'
    exact ⟨rfl, rfl, rfl⟩

/-- Whatever else is at a position was led to by what is written there. -/
theorem Trail.of_written (hroot : w.root.keysDistinct = true) (hmethods : MethodsDistinct w.root)
    (h : Trail w segs p v refs) {p' : Place} (hwritten : Written w segs p' u rs) :
    p = p' ∧ ReflTransGen (Leads w p) (u, rs) (v, refs) := by
  obtain ⟨u', rs', hwritten', hleads⟩ := h.from_written
  obtain ⟨rfl, rfl, rfl⟩ := hwritten'.unique hroot hmethods hwritten
  exact ⟨rfl, hleads⟩

end Trails

end PatternAudit.Walk
