/-
A fault stays where it is.

Two documents are alike but for the value at one position. If no reference leads to the value,
or into it, or to something around it, then walks over both find the same outside of the
position (`faults_isolated`), whatever the value is: a schema, a node of another kind, or
nothing that could be read at all.

The two walks do not read the same nodes in the same turns, as what the value holds comes in
between. They are compared task by task: of the tasks that each has before it, those outside of
the position match (`Matches`), and a step at matching tasks keeps it so (`expand_agree`). What
else a walk could hand on from one node to another is the count of followed references. It
matters only once the budget is spent, so neither walk may come to that.
-/
import PatternAudit.Proofs.Walk.Alike
import PatternAudit.Proofs.Walk.Behind

set_option autoImplicit false

namespace PatternAudit.Walk

/-! ## References -/

/-- Walks with the same limits over documents whose common references name the same nodes. -/
structure Comparable (w w' : Walker) : Prop where
  limits : w'.limits = w.limits
  references : SameReferences w.root w'.root

section Comparable

variable {w w' : Walker} {here location : String} {p : Place} {n n' : Nat}

/-- A reference that both documents have meets the same end. -/
theorem hop_same (hpair : Comparable w w') {refs : List String} {target : String}
    (hmem : target ∈ references w.root) (hmem' : target ∈ references w'.root)
    (h : ∀ why, hop w n refs target = .error why → why.isSpent = false)
    (h' : ∀ why, hop w' n' refs target = .error why → why.isSpent = false) :
    hop w' n' refs target = hop w n refs target := by
  rw [hop, hpair.limits] at h'
  rw [hop] at h
  rw [hop, hop, hpair.limits, hpair.references target hmem hmem']
  by_cases hcycle : target ∈ refs
  · rw [if_pos hcycle, if_pos hcycle]
  by_cases hlong : w.limits.maxDepth ≤ refs.length
  · rw [if_neg hcycle, if_neg hcycle, if_pos hlong, if_pos hlong]
  rw [if_neg hcycle, if_neg hlong] at h h' ⊢
  rw [if_neg hcycle, if_neg hlong]
  -- neither walk has spent its budget, or it would say so
  have hleft : ¬ w.limits.budget ≤ n := by
    intro hspent
    have hsays := h _ (if_pos hspent)
    cases hsays
  have hleft' : ¬ w.limits.budget ≤ n' := by
    intro hspent
    have hsays := h' _ (if_pos hspent)
    cases hsays
  rw [if_neg hleft, if_neg hleft']

/-- Where two walks come to from alike nodes: they are stopped for the same reason, or land at
alike nodes again. -/
inductive LandAlike (here : String) (w w' : Walker) (p : Place) (location : String) :
    Except Skip (Json × List String) → Except Skip (Json × List String) → Prop where
  | stopped (why : Skip) : LandAlike here w w' p location (.error why) (.error why)
  | landed {v v' : Json} (refs : List String) (h : Alike here p location v v')
      (hv : w.root.Has v) (hv' : w'.root.Has v') :
      LandAlike here w w' p location (.ok (v, refs)) (.ok (v', refs))

/-- Following the references of a node that both documents have. -/
theorem follow_same (hpair : Comparable w w') {v : Json} {refs : List String}
    (hv : w.root.Has v) (hv' : w'.root.Has v) (h : (follow w n v refs).Unspent)
    (h' : (follow w' n' v refs).Unspent) :
    LandAlike here w w' p location (follow w n v refs).1 (follow w' n' v refs).1 := by
  fun_induction follow w n v refs generalizing n' with
  | case1 n v refs htarget =>
    rw [follow_of_none htarget]
    exact .landed refs (Or.inl rfl) hv hv'
  | case2 n v refs target htarget why hstop =>
    have hsame : hop w' n' refs target = hop w n refs target := by
      refine hop_same hpair (mem_references hv htarget) (mem_references hv' htarget) ?_ ?_
      · intro why' hwhy'
        rw [hstop] at hwhy'
        cases hwhy'
        exact h why rfl
      · exact fun why' hwhy' => h' why' (by rw [follow_of_error htarget hwhy'])
    rw [follow_of_error htarget (hsame.trans hstop)]
    exact .stopped why
  | case3 n v refs target htarget next hnext ih =>
    have hsame : hop w' n' refs target = hop w n refs target := by
      refine hop_same hpair (mem_references hv htarget) (mem_references hv' htarget) ?_ ?_
      · intro why' hwhy'
        rw [hnext] at hwhy'
        cases hwhy'
      · exact fun why' hwhy' => h' why' (by rw [follow_of_error htarget hwhy'])
    have hnext' := hsame.trans hnext
    rw [follow_of_ok htarget hnext'] at h' ⊢
    exact ih (Pointer.has_of_resolveRef? (hop_eq_ok_iff.1 hnext).2.2.2)
      (Pointer.has_of_resolveRef? (hop_eq_ok_iff.1 hnext').2.2.2) h h'

/-- Following the references of alike nodes above the position. -/
theorem follow_alike (hpair : Comparable w w') {v v' : Json} {refs : List String}
    (halike : Alike here p location v v') (hne : location ≠ here) (hrefers : p.refers = true)
    (hv : w.root.Has v) (hv' : w'.root.Has v') (h : (follow w n v refs).Unspent)
    (h' : (follow w' n' v' refs).Unspent) :
    LandAlike here w w' p location (follow w n v refs).1 (follow w' n' v' refs).1 := by
  have hrecord := Place.isRecord_of_refers hrefers
  rcases halike.cases_obj hne (Place.isRecord_iff.1 hrecord).2 with
    rfl | ⟨ms, ms', rfl, rfl, hreads, hmembers⟩
  · exact follow_same hpair hv hv' h h'
  · -- a position lies below, and so the node is no reference in either document
    have htarget := hreads hrefers
    have htarget' : target? (.obj ms') = none := by
      have hsame : Json.get? "$ref" (.obj ms') = Json.get? "$ref" (.obj ms) :=
        lookup_silent hmembers hrecord (by decide)
      rw [target?, hsame]
      exact htarget
    rw [follow_of_none htarget, follow_of_none htarget']
    exact .landed refs halike hv hv'

/-! ## Headers -/

theorem headerYield_agree {a b : Except Skip (Json × List String)}
    (h : LandAlike here w w' .header location a b) (hne : location ≠ here) :
    Agree here (headerYield location a) (headerYield location b) := by
  cases h with
  | stopped => exact .refl ..
  | landed refs halike =>
    rcases halike.cases_obj hne rfl with rfl | ⟨ms, ms', rfl, rfl, -, hmembers⟩
    · exact .refl ..
    · have hpattern := lookup_silent hmembers rfl (show "pattern" ∈ silent by decide)
      have hmember : ("schema", Place.schema) ∈ Place.members .header := List.mem_singleton_self _
      have hschema := lookup_member_alike hmembers hmember
      rw [belowKey_of_plain (by decide)] at hschema
      simp only [headerYield, Json.get?, hpattern]
      generalize Json.lookup "schema" ms = found, Json.lookup "schema" ms' = found' at hschema ⊢
      cases hschema with
      | none => exact .refl ..
      | some hschema => exact ⟨rfl, (Agree.task hschema).tasks⟩

theorem headers_agree (hpair : Comparable w w') {refs : List String}
    {hs hs' : List (String × Json)}
    (h : List.Forall₂ (fun m m' => m.1 = m'.1 ∧
      Alike here .header (belowKey location m.1) m.2 m'.2) hs hs')
    (hhas : ∀ m ∈ hs, w.root.Has m.2) (hhas' : ∀ m ∈ hs', w'.root.Has m.2)
    (hunspent : Unspent (headers w location refs n hs).items)
    (hunspent' : Unspent (headers w' location refs n' hs').items) :
    Agree here (headers w location refs n hs).yield (headers w' location refs n' hs').yield := by
  induction h generalizing n n' with
  | nil => exact .refl ..
  | @cons m m' hs hs' hm _ ih =>
    obtain ⟨name, header⟩ := m
    obtain ⟨name', header'⟩ := m'
    obtain ⟨hname, halike⟩ := hm
    dsimp only at hname halike
    subst hname
    obtain ⟨hheader, hhas⟩ := List.forall_mem_cons.1 hhas
    obtain ⟨hheader', hhas'⟩ := List.forall_mem_cons.1 hhas'
    obtain ⟨hfirst, hothers⟩ := hunspent.append
    obtain ⟨hfirst', hothers'⟩ := hunspent'.append
    refine Agree.append ?_ (ih hhas hhas' hothers hothers')
    refine .of_ne (headerYield_allWithin ..) (headerYield_allWithin ..) fun hne => ?_
    have hland := follow_alike hpair halike hne rfl hheader hheader'
      (Landing.unspent_of_headerYield hfirst) (Landing.unspent_of_headerYield hfirst')
    exact headerYield_agree hland hne

theorem Role.headers_agree (hpair : Comparable w w') {role : Role} {refs : List String} {v : Json}
    {ms ms' : List (String × Json)}
    (h : List.Forall₂ (AlikeMember here role.place location v) ms ms')
    (hv : w.root.Has (.obj ms)) (hv' : w'.root.Has (.obj ms'))
    (hunspent : Unspent (role.headers w location ms refs n).items)
    (hunspent' : Unspent (role.headers w' location ms' refs n').items) :
    Agree here (role.headers w location ms refs n).yield
      (role.headers w' location ms' refs n').yield := by
  cases role with
  | response =>
    have hmember : ("headers", Place.headers) ∈ Place.members .response := by decide
    have hfound := lookup_member_alike h hmember
    rw [belowKey_of_plain (by decide)] at hfound
    refine .of_ne (headers_allWithin ..) (headers_allWithin ..) fun hne => ?_
    unfold Role.headers at hunspent hunspent' ⊢
    have hhas : ∀ hs, Json.lookup "headers" ms = some (.obj hs) → ∀ m ∈ hs, w.root.Has m.2 :=
      fun hs hlookup m hm => (hv.get? hlookup).member hm
    have hhas' : ∀ hs, Json.lookup "headers" ms' = some (.obj hs) → ∀ m ∈ hs, w'.root.Has m.2 :=
      fun hs hlookup m hm => (hv'.get? hlookup).member hm
    generalize Json.lookup "headers" ms = found, Json.lookup "headers" ms' = found'
      at hfound hunspent hunspent' hhas hhas' ⊢
    cases hfound with
    | none => exact .refl ..
    | @some u u' halike =>
      rcases halike.cases_obj hne rfl with rfl | ⟨hs, hs', rfl, rfl, -, hmembers⟩
      · cases u with
        | obj hs =>
          refine Walk.headers_agree hpair ?_ (hhas hs rfl) (hhas' hs rfl) hunspent hunspent'
          exact List.forall₂_same.2 fun m _ => ⟨rfl, Or.inl rfl⟩
        | _ => exact .refl ..
      · exact Walk.headers_agree hpair (entries_alike hmembers rfl) (hhas hs rfl) (hhas' hs' rfl)
          hunspent hunspent'
  | _ => exact .refl ..

/-! ## Steps -/

theorem landing_alike (hpair : Comparable w w') {t t' : Task} (h : Matches here t t')
    (hne : t.location ≠ here) (ht : w.root.Has t.node) (ht' : w'.root.Has t'.node)
    (hunspent : (landing w n t).Unspent) (hunspent' : (landing w' n' t').Unspent) :
    LandAlike here w w' t.role.place t.location (landing w n t).1 (landing w' n' t').1 := by
  unfold landing at hunspent hunspent' ⊢
  rw [h.role] at hunspent' ⊢
  by_cases hrefers : t.role.refers = true
  · simp only [if_pos hrefers] at hunspent hunspent' ⊢
    exact follow_alike hpair h.node hne ((Role.refers_place _).trans hrefers) ht ht' hunspent
      hunspent'
  · simp only [if_neg hrefers]
    exact .landed [] h.node ht ht'

theorem arrive_agree (hpair : Comparable w w') {role : Role} {a b : Landing}
    (h : LandAlike here w w' role.place location a.1 b.1) (hne : location ≠ here)
    (hunspent : Unspent (a.arrive w role location).items)
    (hunspent' : Unspent (b.arrive w' role location).items) :
    Agree here (a.arrive w role location).yield (b.arrive w' role location).yield := by
  obtain ⟨result, n⟩ := a
  obtain ⟨result', n'⟩ := b
  dsimp only at h
  cases h with
  | stopped why => exact .refl ..
  | @landed v v' refs halike hv hv' =>
    have hobjects : ∀ ms ms', v = .obj ms → v' = .obj ms' →
        List.Forall₂ (AlikeMember here role.place location v) ms ms' →
        Agree here (Landing.arrive w role location (.ok (v, refs), n)).yield
          (Landing.arrive w' role location (.ok (v', refs), n')).yield := by
      rintro ms ms' rfl rfl hmembers
      exact (yield_agree hmembers).append
        (Role.headers_agree hpair hmembers hv hv' hunspent.append.2 hunspent'.append.2)
    rcases halike.cases_obj hne (Role.element?_place role) with
      rfl | ⟨ms, ms', hms, hms', -, hmembers⟩
    · cases v with
      | obj ms => exact hobjects ms ms rfl rfl (List.forall₂_same.2 fun m _ => .refl m)
      | _ => exact .refl ..
    · exact hobjects ms ms' hms hms' hmembers

/-- Alike nodes are gone into alike. -/
theorem barred?_alike (hpair : Comparable w w') {t t' : Task} (h : Matches here t t')
    (hne : t.location ≠ here) : barred? w' t' = barred? w t := by
  obtain ⟨role, v, location⟩ := t
  obtain ⟨role', v', location'⟩ := t'
  obtain ⟨hrole, hlocation, halike⟩ := h
  dsimp only at hrole hlocation halike hne
  subst hrole hlocation
  unfold barred?
  rw [hpair.limits]
  rcases halike.cases_obj hne (Role.element?_place role') with rfl | ⟨ms, ms', rfl, rfl, -, -⟩
  · rfl
  · rfl

/-- **A step agrees outside of the position.** -/
theorem expand_agree (hpair : Comparable w w') {t t' : Task} (h : Matches here t t')
    (hne : t.location ≠ here) (ht : w.root.Has t.node) (ht' : w'.root.Has t'.node)
    (hunspent : Unspent (expand w n t).items) (hunspent' : Unspent (expand w' n' t').items) :
    Agree here (expand w n t).yield (expand w' n' t').yield := by
  have hbarred := barred?_alike hpair h hne
  rw [expand] at hunspent ⊢
  rw [expand, hbarred] at hunspent' ⊢
  cases hfound : barred? w t with
  | some y => exact .refl here y
  | none =>
    simp only [hfound, h.role, h.location] at hunspent hunspent' ⊢
    have hland := landing_alike hpair h hne ht ht' (Landing.unspent_of_arrive hunspent)
      (Landing.unspent_of_arrive hunspent')
    exact arrive_agree hpair hland hne hunspent hunspent'

/-! ## Walks -/

theorem Task.OnTrail.has {t : Task} (h : t.OnTrail w) : w.root.Has t.node := by
  obtain ⟨segs, -, htrail⟩ := h
  exact htrail.has

theorem tasksOutside_cons_of_within {t : Task} {ts : List Task}
    (h : isWithin here t.location = true) : tasksOutside here (t :: ts) = tasksOutside here ts :=
  List.filter_cons_of_neg (by simp [isOutside, h])

theorem tasksOutside_cons_of_not_within {t : Task} {ts : List Task}
    (h : ¬ isWithin here t.location = true) :
    tasksOutside here (t :: ts) = t :: tasksOutside here ts :=
  List.filter_cons_of_pos (by simp [isOutside, h])

/-- A visit of tasks that lie inside finds nothing outside. -/
theorem itemsOutside_visitNodes_of_within {ts : List Task}
    (h : ∀ t ∈ ts, ¬ isOutside here t.location = true) :
    itemsOutside here (visitNodes w n ts).1.items = [] :=
  itemsOutside_eq_nil (isWithin_visitNodes n fun t ht => by simpa [isOutside] using h t ht)

/-- **Walks from matching tasks find the same outside.** -/
theorem visitNodes_isolated (hpair : Comparable w w') {ts ts' : List Task}
    (hmatch : List.Forall₂ (Matches here) (tasksOutside here ts) (tasksOutside here ts'))
    (htrail : ∀ t ∈ ts, t.OnTrail w) (htrail' : ∀ t ∈ ts', t.OnTrail w')
    (hunspent : Unspent (visitNodes w n ts).1.items)
    (hunspent' : Unspent (visitNodes w' n' ts').1.items) :
    itemsOutside here (visitNodes w' n' ts').1.items
      = itemsOutside here (visitNodes w n ts).1.items := by
  -- the recursion is that of one walk; the other one is taken apart where it reads the match
  induction n, ts using visitNodes_induction (w := w) generalizing n' ts' with
  | nil n =>
    have hnone : tasksOutside here ts' = [] := List.forall₂_nil_left_iff.1 hmatch
    rw [visitNodes_nil, itemsOutside_visitNodes_of_within (List.filter_eq_nil_iff.1 hnone)]
    rfl
  | cons n t rest ihbelow ihothers =>
    obtain ⟨ht, hrest⟩ := List.forall_mem_cons.1 htrail
    rw [visitNodes_cons] at hunspent ⊢
    obtain ⟨hfirst, hothers⟩ := hunspent.append
    obtain ⟨hown, hbelow⟩ := hfirst.append
    dsimp only
    rw [itemsOutside_append, itemsOutside_append]
    by_cases hinside : isWithin here t.location = true
    · -- what comes of the node lies inside, and is not compared
      have hstep := (expand_allWithin w n t).mono hinside
      have hnone : itemsOutside here (expand w n t).items = [] := itemsOutside_eq_nil hstep.items
      have hnone' : itemsOutside here (visitNodes w (expand w n t).resolved
          (expand w n t).tasks).1.items = [] :=
        itemsOutside_eq_nil (isWithin_visitNodes _ hstep.tasks)
      rw [tasksOutside_cons_of_within hinside] at hmatch
      rw [hnone, hnone', List.append_nil, List.nil_append]
      exact ihothers hmatch hrest htrail' hothers hunspent'
    · have hne : t.location ≠ here := by
        rintro rfl
        exact hinside (isWithin_self _)
      rw [tasksOutside_cons_of_not_within hinside] at hmatch
      obtain ⟨t', outside', hhead, hmatch, hts'⟩ := List.forall₂_cons_left_iff.1 hmatch
      obtain ⟨before, rest', rfl, hbefore, -, rfl⟩ := List.filter_eq_cons_iff.1 hts'
      obtain ⟨-, htrail'⟩ := List.forall_mem_append.1 htrail'
      obtain ⟨ht', hrest'⟩ := List.forall_mem_cons.1 htrail'
      rw [visitNodes_append] at hunspent' ⊢
      obtain ⟨-, hunspent'⟩ := hunspent'.append
      dsimp only at hunspent' ⊢
      rw [visitNodes_cons] at hunspent' ⊢
      obtain ⟨hfirst', hothers'⟩ := hunspent'.append
      obtain ⟨hown', hbelow'⟩ := hfirst'.append
      dsimp only
      rw [itemsOutside_append, itemsOutside_append, itemsOutside_append,
        itemsOutside_visitNodes_of_within hbefore, List.nil_append]
      have hstep := expand_agree hpair hhead hne ht.has ht'.has hown hown'
      have hunder := ihbelow hstep.tasks (expand_keeps n ht).onTrail (expand_keeps _ ht').onTrail
        hbelow hbelow'
      have hafter := ihothers hmatch hrest hrest' hothers hothers'
      exact congrArg₂ _ (congrArg₂ _ hstep.items hunder) hafter

end Comparable

/-! ## Descriptions -/

section Roots

variable {here : String}

theorem rootTask_agree (role : Role) {location : String} {v v' : Option Json}
    (h : Option.Rel (Alike here role.place location) v v') :
    Agree here ⟨[], rootTask role location v⟩ ⟨[], rootTask role location v'⟩ := by
  cases h with
  | none => exact .refl ..
  | some halike => exact .task halike

/-- The task of the named schemas, which are a member of a member of the root. -/
theorem namedSchemas_agree {location : String} {v v' : Option Json}
    (h : Option.Rel (Alike here .components location) v v') :
    Agree here ⟨[], rootTask .definitions (belowKey location "schemas") (v.bind (·.get? "schemas"))⟩
      ⟨[], rootTask .definitions (belowKey location "schemas") (v'.bind (·.get? "schemas"))⟩ := by
  cases h with
  | none => exact .refl ..
  | some halike =>
    have hwithin : ∀ v, AllWithin location
        ⟨[], rootTask .definitions (belowKey location "schemas") v⟩ := by
      refine fun v => .of_tasks fun t ht => ?_
      obtain ⟨node, -, rfl⟩ := mem_rootTask.1 ht
      exact isWithin_belowKey location "schemas"
    refine .of_ne (hwithin _) (hwithin _) fun hne => ?_
    rcases halike.cases_obj hne rfl with rfl | ⟨ms, ms', rfl, rfl, -, hmembers⟩
    · exact .refl ..
    · exact rootTask_agree .definitions (lookup_member_alike hmembers (List.mem_singleton_self _))

theorem rootTasks_allWithin (w : Walker) : AllWithin "#" ⟨[], rootTasks w⟩ := by
  refine .of_tasks fun t ht => ?_
  rcases mem_rootTasks.1 ht with ⟨_, _, -, -, rfl⟩ | ⟨_, -, rfl⟩ | ⟨_, -, rfl⟩ <;>
    exact isWithin_foldl "#" _

/-- Walks over alike documents set out with matching tasks. -/
theorem rootTasks_agree {w w' : Walker} (h : Alike here .root "#" w.root w'.root) :
    Agree here ⟨[], rootTasks w⟩ ⟨[], rootTasks w'⟩ := by
  refine .of_ne (rootTasks_allWithin w) (rootTasks_allWithin w') fun hne => ?_
  rcases h.cases_obj hne rfl with hsame | ⟨ms, ms', hroot, hroot', -, hmembers⟩
  · rw [rootTasks, rootTasks, ← hsame]
    exact .refl ..
  have hatSchemas : "#/components/schemas" = belowKey (belowKey "#" "components") "schemas" := by
    decide +kernel
  have hatDefinitions : "#/definitions" = belowKey "#" "definitions" := by decide +kernel
  have hatPaths : "#/paths" = belowKey "#" "paths" := by decide +kernel
  rw [rootTasks, rootTasks, hroot, hroot', hatSchemas, hatDefinitions, hatPaths]
  have hall : [("components", Place.components), ("definitions", .schemas), ("paths", .paths)]
      ⊆ Place.members .root := by decide
  simp only [List.cons_subset] at hall
  have hcomponents := lookup_member_alike hmembers hall.1
  have hdefinitions := lookup_member_alike hmembers hall.2.1
  have hpaths := lookup_member_alike hmembers hall.2.2.1
  exact ((namedSchemas_agree hcomponents).append (rootTask_agree .definitions hdefinitions)).append
    (rootTask_agree .paths hpaths)

end Roots

/-- **A fault stays where it is.** Whatever the value at a position is replaced by, the walks
before and after find the same items in the same order, apart from those located at the
position or below. No reference may lead to the value, into it, or to something around it, and
neither walk may spend its budget, which all nodes share. -/
theorem faults_isolated (doc new : Json) (l : Limits) {keys : List String} {q : Json.Address}
    (hposition : Position .root doc keys q) (hrefs : RefsApart doc q)
    (hrefs' : RefsApart (doc.replaceAt q new) q) (hunspent : Unspent (run ⟨doc, l⟩))
    (hunspent' : Unspent (run ⟨doc.replaceAt q new, l⟩)) :
    itemsOutside (locate keys) (run ⟨doc.replaceAt q new, l⟩)
      = itemsOutside (locate keys) (run ⟨doc, l⟩) := by
  obtain ⟨old, hold⟩ := hposition.exists_nodeAt?
  have hpair : Comparable ⟨doc, l⟩ ⟨doc.replaceAt q new, l⟩ :=
    ⟨rfl, sameReferences_replaceAt hold new hrefs hrefs'⟩
  have halike : Alike (locate keys) .root "#" doc (doc.replaceAt q new) :=
    Or.inr ⟨keys, q, new, hposition, rfl, rfl⟩
  rw [run_eq_visit] at hunspent hunspent'
  rw [run_eq_visit, run_eq_visit]
  exact visitNodes_isolated hpair (rootTasks_agree halike).tasks (rootTasks_onTrail _)
    (rootTasks_onTrail _) hunspent hunspent'

/-- Orders, and users whose schema is a named one. -/
def shop : Json :=
  .obj [
    ("openapi", .str "3.0.3"),
    ("components", .obj [("schemas", .obj [("Id", .obj [("pattern", .str "^[0-9]+$")])])]),
    ("paths", .obj [
      ("/orders", .obj [("GET", .obj [("parameters", .arr [.obj [("pattern", .str "^o")]])])]),
      ("/users", .obj [("get", .obj [("parameters", .arr [
        .obj [("schema", .obj [("$ref", .str "#/components/schemas/Id")])]])])])])]

/-- The orders may be replaced by a text, which is no path item. -/
theorem shop_orders_isolated :
    (Position .root shop ["paths", "/orders"] [2, 0] ∧ RefsApart shop [2, 0] ∧
        RefsApart (shop.replaceAt [2, 0] (.str "soon")) [2, 0] ∧
        Unspent (run ⟨shop, Limits.default⟩) ∧
        Unspent (run ⟨shop.replaceAt [2, 0] (.str "soon"), Limits.default⟩)) ∧
      patterns ⟨shop, Limits.default⟩
        = [("#/components/schemas/Id", "^[0-9]+$"), ("#/paths/~1orders/get/parameters/0", "^o"),
          ("#/paths/~1users/get/parameters/0/schema", "^[0-9]+$")] ∧
      patterns ⟨shop.replaceAt [2, 0] (.str "soon"), Limits.default⟩
        = [("#/components/schemas/Id", "^[0-9]+$"),
          ("#/paths/~1users/get/parameters/0/schema", "^[0-9]+$")] ∧
      itemsOutside "#/paths/~1orders"
          (run ⟨shop.replaceAt [2, 0] (.str "soon"), Limits.default⟩)
        = itemsOutside "#/paths/~1orders" (run ⟨shop, Limits.default⟩) := by
  have hmember : ("paths", Place.paths) ∈ Place.members .root := by decide
  have hposition : Position .root shop ["paths", "/orders"] [2, 0] :=
    .member (i := 2) (q := .paths) (Place.reads_of_not_refers rfl _) rfl (.member hmember rfl)
      (.member (i := 0) (q := .pathItem) (Place.reads_of_not_refers rfl _) rfl
        (.entry rfl (List.mem_cons_self ..) (by decide)) (.here ..))
  have hrefs : RefsApart shop [2, 0] := by decide +kernel
  have hrefs' : RefsApart (shop.replaceAt [2, 0] (.str "soon")) [2, 0] := by decide +kernel
  have hunspent : Unspent (run ⟨shop, Limits.default⟩) := unspent_of_test 18 (by decide +kernel)
  have hunspent' : Unspent (run ⟨shop.replaceAt [2, 0] (.str "soon"), Limits.default⟩) :=
    unspent_of_test 15 (by decide +kernel)
  have hlocation : locate ["paths", "/orders"] = "#/paths/~1orders" := by decide +kernel
  have hisolated := faults_isolated shop (.str "soon") Limits.default hposition hrefs hrefs'
    hunspent hunspent'
  rw [hlocation] at hisolated
  exact ⟨⟨hposition, hrefs, hrefs', hunspent, hunspent'⟩, patterns_of_test 18 (by decide +kernel),
    patterns_of_test 15 (by decide +kernel), hisolated⟩

end PatternAudit.Walk
