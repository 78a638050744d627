/-
The order in which entries leave the memory.

Entries in memory have no order of their own. What goes past the limit is found by the
stamps, the second and the sequence number of each entry. As long as the clock does not go
back, the order of the stamps is the order of the stores: `InOrder` says that a list holds the
entries in it, and `InOrder.keep` that keeping an entry puts it at the end of the list and
takes entries from the front. So an entry that is kept is never the one that goes.

`Recalls` compares a cache with a list of stored reports. The two agree on what is alive, and
that is all that is answered.
-/
import Mathlib.Data.List.Pairwise
import PatternAudit.Proofs.Cache.Recent

set_option autoImplicit false

namespace PatternAudit.Cache

open Files (Disk Path)

/-! ## Stamps -/

/-- Whether one entry was stored before another one. -/
def Precedes (a b : String × Entry) : Prop :=
  a.2.storedAt ≤ b.2.storedAt ∧ a.2.sequence < b.2.sequence

theorem isOlder_of_precedes {a b : String × Entry} (h : Precedes a b) :
    a.2.isOlder b.2 = true := by
  obtain ⟨hsecond, hsequence⟩ := h
  simp only [Entry.isOlder, Bool.or_eq_true, Bool.and_eq_true, decide_eq_true_eq, beq_iff_eq]
  omega

/-- The entry that comes later is not the older one. -/
theorem not_isOlder_of_precedes {a b : String × Entry} (h : Precedes a b) :
    b.2.isOlder a.2 = false := by
  obtain ⟨hsecond, hsequence⟩ := h
  simp only [Entry.isOlder, Bool.or_eq_false_iff, Bool.and_eq_false_iff, decide_eq_false_iff_not,
    beq_eq_false_iff_ne]
  omega

theorem isOlder_trans (a b c : String × Entry) (h : a.2.isOlder b.2 = true)
    (h' : b.2.isOlder c.2 = true) : a.2.isOlder c.2 = true := by
  simp only [Entry.isOlder, Bool.or_eq_true, Bool.and_eq_true, decide_eq_true_eq,
    beq_iff_eq] at h h' ⊢
  omega

theorem isOlder_total (a b : String × Entry) : (a.2.isOlder b.2 || b.2.isOlder a.2) = true := by
  simp only [Entry.isOlder, Bool.or_eq_true, Bool.and_eq_true, decide_eq_true_eq, beq_iff_eq]
  omega

/-- Entries in the order of their stores are sorted by their stamps. -/
theorem mergeSort_eq {kept es : List (String × Entry)} (hperm : kept.Perm es)
    (hes : es.Pairwise Precedes) : (kept.mergeSort fun a b => a.2.isOlder b.2) = es := by
  have hsorted := List.pairwise_mergeSort isOlder_trans isOlder_total kept
  have hsame := (List.mergeSort_perm kept fun a b => a.2.isOlder b.2).trans hperm
  refine List.Perm.eq_of_pairwise ?_ hsorted (hes.imp isOlder_of_precedes) hsame
  -- no two entries are each older than the other
  let Strict (a b : String × Entry) : Prop := ¬(a.2.isOlder b.2 = true ∧ b.2.isOlder a.2 = true)
  have hstrict : es.Pairwise Strict := by
    refine hes.imp fun hab hboth => ?_
    rw [not_isOlder_of_precedes hab] at hboth
    exact Bool.false_ne_true hboth.2
  have hsymm : Std.Symm Strict := ⟨fun a b h hboth => h hboth.symm⟩
  intro a b ha hb hab hba
  by_contra hne
  exact hstrict.forall (hsame.mem_iff.1 ha) hb hne ⟨hab, hba⟩

/-- Past the limit the entries go that were stored first. -/
theorem surplus_eq {kept es : List (String × Entry)} (hperm : kept.Perm es)
    (hes : es.Pairwise Precedes) (limit : Nat) :
    surplus limit kept = (es.take (es.length - limit)).map Prod.fst := by
  rw [surplus, mergeSort_eq hperm hes, hperm.length_eq]

/-! ## Entries in the order of their stores -/

/-- The entries in memory, in the order in which they were stored up to a second. -/
structure InOrder (c : Cache) (es : List (String × Entry)) (second : Nat) : Prop where
  perm : c.kept.Perm es
  nodup : (es.map Prod.fst).Nodup
  ordered : es.Pairwise Precedes
  past : ∀ x ∈ es, x.2.storedAt ≤ second ∧ x.2.sequence < c.next

/-- Setting an entry drops the one that the id had. -/
theorem putKept_perm (id : String) (e : Entry) {kept : List (String × Entry)}
    (h : (kept.map Prod.fst).Nodup) : (putKept id e kept).Perm (dropKept id kept ++ [(id, e)]) := by
  induction kept with
  | nil => exact List.Perm.refl _
  | cons x kept ih =>
    obtain ⟨k, v⟩ := x
    obtain ⟨hfirst, hrest⟩ := List.nodup_cons.1 h
    rw [putKept]
    by_cases hk : k = id
    · -- the id stands nowhere else
      have hothers : dropKept id ((k, v) :: kept) = kept := by
        rw [dropKept, List.filter_cons_of_neg (by simp [hk])]
        refine List.filter_eq_self.2 fun y hy => ?_
        have hne : y.1 ≠ id := fun hy' => hfirst (List.mem_map.2 ⟨y, hy, hy'.trans hk.symm⟩)
        simpa using hne
      rw [if_pos hk, hothers, hk]
      exact (List.perm_append_singleton _ _).symm
    · rw [if_neg hk, dropKept, List.filter_cons_of_pos (by simpa using hk)]
      exact (ih hrest).cons (k, v)

/-- Where ids are dropped that stand in front, the rest is left. -/
theorem filter_take_eq_drop {es : List (String × Entry)} (h : (es.map Prod.fst).Nodup) (n : Nat) :
    (es.filter fun x => decide (x.1 ∉ (es.take n).map Prod.fst)) = es.drop n := by
  have hsplit : es.take n ++ es.drop n = es := List.take_append_drop n es
  have hfront := filter_not_mem_keys Prod.fst (es.take n)
  have hrest : ((es.drop n).filter fun x => decide (x.1 ∉ (es.take n).map Prod.fst))
      = es.drop n := by
    refine List.filter_eq_self.2 fun x hx => decide_eq_true fun hmem => ?_
    rw [← hsplit, List.map_append] at h
    exact (List.nodup_append.1 h).2.2 x.1 hmem x.1 (List.mem_map_of_mem hx) rfl
  calc (es.filter fun x => decide (x.1 ∉ (es.take n).map Prod.fst))
      = ((es.take n ++ es.drop n).filter fun x => decide (x.1 ∉ (es.take n).map Prod.fst)) := by
        rw [hsplit]
    _ = es.drop n := by rw [List.filter_append, hfront, hrest, List.nil_append]

section InOrder

variable {c : Cache} {es : List (String × Entry)} {second : Nat}

theorem InOrder.mono (h : c.InOrder es second) {later : Nat} (hle : second ≤ later) :
    c.InOrder es later :=
  ⟨h.perm, h.nodup, h.ordered, fun x hx => ⟨Nat.le_trans (h.past x hx).1 hle, (h.past x hx).2⟩⟩

theorem inOrder_empty (directory : Option Path) (lifetime limit next : Nat) :
    (empty directory lifetime limit next).InOrder [] 0 :=
  ⟨List.Perm.refl _, List.nodup_nil, List.Pairwise.nil, fun _ h => absurd h List.not_mem_nil⟩

theorem InOrder.lookup_eq (h : c.InOrder es second) (id : String) :
    Json.lookup id c.kept = Json.lookup id es := by
  have hkept : (c.kept.map Prod.fst).Nodup := (h.perm.map _).nodup_iff.2 h.nodup
  refine Option.ext fun e => ?_
  rw [Json.lookup_eq_some_iff hkept, Json.lookup_eq_some_iff h.nodup, h.perm.mem_iff]

theorem InOrder.remove (h : c.InOrder es second) (d : Disk) (id : String) :
    (c.remove d id).1.InOrder (dropKept id es) second where
  perm := h.perm.filter _
  nodup := h.nodup.sublist (List.filter_sublist.map _)
  ordered := h.ordered.sublist List.filter_sublist
  past x hx := h.past x (List.mem_filter.1 hx).1

/-- The entries with that of an id at their end. -/
def toBack (es : List (String × Entry)) (id : String) (e : Entry) : List (String × Entry) :=
  dropKept id es ++ [(id, e)]

variable {now : Nat} {id : String} {report : Report}

theorem nodup_toBack (h : (es.map Prod.fst).Nodup) (id : String) (e : Entry) :
    ((toBack es id e).map Prod.fst).Nodup := nodup_filter_ne_append Prod.fst h (id, e)

/-- An entry of now comes after all others. -/
theorem InOrder.toBack (h : c.InOrder es (seconds now)) (id : String) (report : Report) :
    (Cache.toBack es id (c.entryAt now report)).Pairwise Precedes := by
  rw [Cache.toBack, List.pairwise_append]
  refine ⟨h.ordered.sublist List.filter_sublist, List.pairwise_singleton _ _, ?_⟩
  intro a ha b hb
  rw [List.mem_singleton.1 hb]
  exact h.past a (List.mem_filter.1 ha).1

theorem InOrder.putKept_perm (h : c.InOrder es second) (id : String) (e : Entry) :
    (putKept id e c.kept).Perm (Cache.toBack es id e) := by
  have hkept : (c.kept.map Prod.fst).Nodup := (h.perm.map _).nodup_iff.2 h.nodup
  exact (Cache.putKept_perm id e hkept).trans ((h.perm.filter _).append_right _)

/-- What goes when an entry of now is kept stands in front. -/
theorem InOrder.evicted_eq (h : c.InOrder es (seconds now)) (id : String) (report : Report) :
    c.evicted id (c.entryAt now report)
      = ((Cache.toBack es id (c.entryAt now report)).take
          ((Cache.toBack es id (c.entryAt now report)).length - c.limit)).map Prod.fst :=
  surplus_eq (h.putKept_perm id _) (h.toBack id report) c.limit

/-- **Keeping an entry** puts it at the end and takes entries from the front. -/
theorem InOrder.keep (h : c.InOrder es (seconds now)) (d : Disk) (id : String)
    (report : Report) :
    (c.keep d id (c.entryAt now report)).1.InOrder
      ((Cache.toBack es id (c.entryAt now report)).drop
        ((Cache.toBack es id (c.entryAt now report)).length - c.limit)) (seconds now) := by
  generalize hlonger : Cache.toBack es id (c.entryAt now report) = longer
  have hnodup : (longer.map Prod.fst).Nodup := hlonger ▸ nodup_toBack h.nodup id _
  have hsub := List.drop_sublist (longer.length - c.limit) longer
  refine ⟨?_, hnodup.sublist (hsub.map _), (hlonger ▸ h.toBack id report).sublist hsub, ?_⟩
  · have hperm := hlonger ▸ h.putKept_perm id (c.entryAt now report)
    rw [kept_keep, h.evicted_eq, hlonger, ← filter_take_eq_drop hnodup]
    exact hperm.filter _
  · intro x hx
    have hmem : x ∈ Cache.toBack es id (c.entryAt now report) := hlonger ▸ hsub.subset hx
    rcases List.mem_append.1 hmem with hold | hnew
    · obtain ⟨hsecond, hsequence⟩ := h.past x (List.mem_filter.1 hold).1
      exact ⟨hsecond, Nat.lt_succ_of_lt hsequence⟩
    · rw [List.mem_singleton.1 hnew]
      exact ⟨Nat.le_refl _, Nat.lt_succ_self _⟩

/-- An entry that is kept is not one of those that go. -/
theorem InOrder.not_mem_evicted (h : c.InOrder es (seconds now)) (id : String)
    (report : Report) : id ∉ c.evicted id (c.entryAt now report) := by
  have hnodup := nodup_toBack h.nodup id (c.entryAt now report)
  rw [h.evicted_eq]
  generalize hn : (Cache.toBack es id (c.entryAt now report)).length - c.limit = n
  have hlength : (Cache.toBack es id (c.entryAt now report)).length = (dropKept id es).length + 1 := by
    rw [Cache.toBack, List.length_append, List.length_singleton]
  -- the limit is at least one, so the last entry is not among the first `n`
  have hlimit := c.limit_pos
  have hfront : (Cache.toBack es id (c.entryAt now report)).take n = (dropKept id es).take n :=
    List.take_append_of_le_length (by omega)
  rw [hfront]
  intro hmem
  obtain ⟨x, hx, rfl⟩ := List.mem_map.1 hmem
  exact of_decide_eq_true (List.mem_filter.1 (List.mem_of_mem_take hx)).2 rfl

end InOrder

/-! ## What a cache recalls -/

/-- The stored report that an entry stands for. -/
def recent (x : String × Entry) : Recent := ⟨x.1, x.2.report, x.2.storedAt⟩

/-- Whether a cache and a list of stored reports agree on what is alive. -/
structure Recalls (c : Cache) (rs : List Recent) (second : Nat) : Prop where
  tidy : Recent.Tidy rs second
  inOrder : ∃ es, c.InOrder es second ∧
    Recent.alive c.lifetime second (es.map recent) = Recent.alive c.lifetime second rs

theorem map_recent_dropKept (id : String) (es : List (String × Entry)) :
    (dropKept id es).map recent = Recent.without id (es.map recent) := by
  rw [dropKept, Recent.without, List.filter_map]
  rfl

theorem find?_recent (id : String) (es : List (String × Entry)) :
    ((es.map recent).find? fun r => r.id = id) = (Json.lookup id es).map fun e => recent (id, e) := by
  induction es with
  | nil => rfl
  | cons x es ih =>
    obtain ⟨k, e⟩ := x
    have hid : (recent (k, e)).id = k := rfl
    rw [List.map_cons, Json.lookup, List.find?_cons, hid]
    by_cases hk : k = id
    · rw [if_pos hk, decide_eq_true hk, hk, Option.map_some]
    · rw [if_neg hk, decide_eq_false hk, ih]

theorem InOrder.tidy {c : Cache} {es : List (String × Entry)} {second : Nat}
    (h : c.InOrder es second) : Recent.Tidy (es.map recent) second where
  nodup := by
    rw [List.map_map]
    exact h.nodup
  ordered := h.ordered.map recent fun _ _ hab => hab.1
  past r hr := by
    obtain ⟨x, hx, rfl⟩ := List.mem_map.1 hr
    exact (h.past x hx).1

theorem recalls_empty (directory : Option Path) (lifetime limit next : Nat) :
    (empty directory lifetime limit next).Recalls [] 0 :=
  ⟨⟨List.nodup_nil, List.Pairwise.nil, fun _ h => absurd h List.not_mem_nil⟩,
    [], inOrder_empty .., rfl⟩

section Recalls

variable {c : Cache} {rs : List Recent} {second now : Nat}

theorem Recalls.mono (h : c.Recalls rs second) {later : Nat} (hle : second ≤ later) :
    c.Recalls rs later := by
  obtain ⟨es, hes, halive⟩ := h.inOrder
  refine ⟨h.tidy.mono hle, es, hes.mono hle, ?_⟩
  rw [← Recent.alive_alive hle (es.map recent), ← Recent.alive_alive hle rs, halive]

theorem Recalls.keep (h : c.Recalls rs (seconds now)) (d : Disk) (id : String)
    (report : Report) :
    (c.keep d id (c.entryAt now report)).1.Recalls
      (Recent.store c.limit rs (seconds now) id report) (seconds now) := by
  obtain ⟨es, hes, halive⟩ := h.inOrder
  refine ⟨h.tidy.store c.limit id report, _, hes.keep d id report, ?_⟩
  have hstore : ((toBack es id (c.entryAt now report)).drop
        ((toBack es id (c.entryAt now report)).length - c.limit)).map recent
      = Recent.store c.limit (es.map recent) (seconds now) id report := by
    have hback : (toBack es id (c.entryAt now report)).map recent
        = Recent.without id (es.map recent) ++ [⟨id, report, seconds now⟩] := by
      rw [toBack, List.map_append, map_recent_dropKept]
      rfl
    rw [List.map_drop, Recent.store, ← hback, List.length_map]
  rw [hstore]
  exact Recent.alive_store hes.tidy h.tidy halive c.limit id report

theorem Recalls.remove (h : c.Recalls rs second) (d : Disk) (id : String) :
    (c.remove d id).1.Recalls (Recent.without id rs) second := by
  obtain ⟨es, hes, halive⟩ := h.inOrder
  refine ⟨h.tidy.without id, _, hes.remove d id, ?_⟩
  rw [map_recent_dropKept, Recent.alive_without, Recent.alive_without]
  exact congrArg (Recent.without id) halive

/-- An entry may be dropped when its lifetime is over. -/
theorem Recalls.forget (h : c.Recalls rs (seconds now)) (d : Disk) {id : String}
    (hover : c.heldFresh? now id = none) : (c.remove d id).1.Recalls rs (seconds now) := by
  obtain ⟨es, hes, halive⟩ := h.inOrder
  refine ⟨h.tidy, _, hes.remove d id, ?_⟩
  show Recent.alive c.lifetime (seconds now) ((dropKept id es).map recent)
    = Recent.alive c.lifetime (seconds now) rs
  rw [map_recent_dropKept, Recent.alive_without, ← halive]
  refine List.filter_eq_self.2 fun r hr => decide_eq_true fun hid => ?_
  obtain ⟨hmem, hfresh⟩ := List.mem_filter.1 hr
  obtain ⟨⟨k, e⟩, he, rfl⟩ := List.mem_map.1 hmem
  -- an entry of the id that is alive would have been found
  have hlookup : Json.lookup id c.kept = some e := by
    rw [hes.lookup_eq, Json.lookup_eq_some_iff hes.nodup, ← hid]
    exact he
  rw [heldFresh?, hlookup, Option.filter_eq_none_iff] at hover
  exact hover e rfl hfresh

/-- **What is answered from memory** is what the list answers. -/
theorem Recalls.get (h : c.Recalls rs (seconds now)) (id : String) :
    (c.heldFresh? now id).map Entry.report = Recent.get c.lifetime rs (seconds now) id := by
  obtain ⟨es, hes, halive⟩ := h.inOrder
  rw [Recent.get_eq h.tidy.nodup, ← halive, ← Recent.get_eq hes.tidy.nodup, heldFresh?,
    hes.lookup_eq, Recent.get, find?_recent]
  cases Json.lookup id es with
  | none => rfl
  | some e =>
    have hsame : Recent.isAlive c.lifetime (seconds now) (recent (id, e))
        = e.isFresh c.lifetime (seconds now) := rfl
    rw [Option.map_some, Option.filter_some, Option.filter_some, hsame]
    split <;> rfl

end Recalls

/-! ## Calls -/

/-- Storing under an id keeps the entry, whatever becomes of its file. -/
theorem store_cache {id : String} (hid : isId id = true) (c : Cache) (d : Disk) (now : Nat)
    (report : Report) :
    (left (c.store d now id report)).1 = (c.keep d id (c.entryAt now report)).1 := by
  have h := c.stored d now id report
  generalize c.store d now id report = outcome at h ⊢
  cases h with
  | noId hno => rw [hid] at hno; cases hno
  | unwritten => rfl
  | written => rfl

/-- Calls that store or drop something do the same to a cache and to the list. -/
theorem Recalls.perform {c : Cache} {rs : List Recent} {now : Nat}
    (h : c.Recalls rs (seconds now)) (d : Disk) {call : Call} (hid : isId (call.id now) = true)
    (hasked : call.asked? = none) :
    (c.perform d now call).1.Recalls (Recent.perform c.limit rs now call) (seconds now) := by
  cases call with
  | store id report =>
    have hid : isId id = true := hid
    rw [Cache.perform, store_cache hid]
    exact h.keep d id report
  | insert made report =>
    rw [perform_insert, Cache.perform, store_cache (isId_mintId now made)]
    exact h.keep d (mintId now made) report
  | get id => cases hasked
  | remove id => exact h.remove d id

/-- Caches that keep up with a list of stored reports, as long as something fits what there
is to the calls to come. Only what a call that asks for a report does is left to show. -/
structure KeepsUp (Fits : Cache → Disk → List (Nat × Call) → Prop) : Prop where
  id : ∀ {c d now call rest}, Fits c d ((now, call) :: rest) → isId (call.id now) = true
  rest : ∀ {c d now call rest}, Fits c d ((now, call) :: rest) →
    ∀ rs, c.Recalls rs (seconds now) →
      Fits (c.perform d now call).1 (c.perform d now call).2 rest
  get : ∀ {c d now id rest}, Fits c d ((now, .get id) :: rest) →
    ∀ rs, c.Recalls rs (seconds now) →
      (c.get d now id).1 = Recent.get c.lifetime rs (seconds now) id ∧
        (c.perform d now (.get id)).1.Recalls rs (seconds now)

section KeepsUp

variable {Fits : Cache → Disk → List (Nat × Call) → Prop} (hfits : KeepsUp Fits)

include hfits

theorem KeepsUp.recalls {c : Cache} {d : Disk} {now : Nat} {call : Call}
    {rest : List (Nat × Call)} (h : Fits c d ((now, call) :: rest)) {rs : List Recent}
    (hrecalls : c.Recalls rs (seconds now)) :
    (c.perform d now call).1.Recalls (Recent.perform c.limit rs now call) (seconds now) := by
  cases call with
  | get id => exact (hfits.get h rs hrecalls).2
  | store id report => exact hrecalls.perform d (hfits.id h) rfl
  | insert made report => exact hrecalls.perform d (hfits.id h) rfl
  | remove id => exact hrecalls.perform d (hfits.id h) rfl

/-- **Keeping up, call after call.** All answers are those of the list, and in the end what
is alive is the same. -/
theorem KeepsUp.run (calls : List (Nat × Call)) {c : Cache} {d : Disk} (h : Fits c d calls)
    (hclock : (calls.map Prod.fst).Pairwise (· ≤ ·)) {rs : List Recent} {second : Nat}
    (hrecalls : c.Recalls rs second) (hsecond : ∀ x ∈ calls, second ≤ seconds x.1) :
    c.answers d calls = Recent.answers c.limit c.lifetime rs calls ∧
      ∀ last, second ≤ last → (∀ x ∈ calls, seconds x.1 ≤ last) →
        (c.run d calls).1.Recalls (Recent.run c.limit rs calls) last := by
  -- cache and list are carried along the calls, and agree at the time of the next one
  induction calls generalizing c d rs second with
  | nil => exact ⟨rfl, fun last hlast _ => hrecalls.mono hlast⟩
  | cons x calls ih =>
    obtain ⟨now, call⟩ := x
    obtain ⟨hfirst, hrest⟩ := List.pairwise_cons.1 hclock
    have hnow : c.Recalls rs (seconds now) :=
      hrecalls.mono (hsecond (now, call) List.mem_cons_self)
    have hsettings := c.sameSettings_perform d now call
    have hlater : ∀ x ∈ calls, seconds now ≤ seconds x.1 := fun x hx =>
      Nat.div_le_div_right (hfirst x.1 (List.mem_map_of_mem hx))
    obtain ⟨hanswers, hend⟩ := ih (hfits.rest h rs hnow) hrest (hfits.recalls h hnow) hlater
    rw [hsettings.limit] at hanswers hend
    rw [hsettings.lifetime] at hanswers
    constructor
    · rw [answers, Recent.answers, hanswers]
      cases call with
      | get id => rw [Call.asked?, Option.map_some, Option.map_some, (hfits.get h rs hnow).1]
      | _ => rfl
    · intro last _ hcalls
      exact hend last (hcalls (now, call) List.mem_cons_self) fun x hx =>
        hcalls x (List.mem_cons_of_mem _ hx)

end KeepsUp

end PatternAudit.Cache
