/-
What tallies hold, and why the order of findings does not matter to a summary.

A tally is built by counting names one after the other, each in its place. What comes out
depends on the counts alone (`tells_ofNames`): a tally tells of each name how often it was
counted, names it did not count are not in it, and the names ascend. There is one tally that
tells a given count (`Tells.unique`), so names in another order give the same.

Groups are less than that: their order, and the order inside of them, is that of the findings.
But another order of the findings has the same keys, and rearranges what lies under each; so
any test on groups that does not look at orders is passed by as many of them
(`countP_ofFindings_perm`). A summary is made of such numbers and of tallies.
-/
import Mathlib.Data.Finset.Card
import PatternAudit.Proofs.Lists
import PatternAudit.Proofs.Report.Figures
import PatternAudit.Proofs.Report.Grouping

set_option autoImplicit false

namespace PatternAudit

/-! ## Tallies -/

namespace Tally

/-- The count under a name; 0 for a name that is not there. -/
def under (name : String) (t : Tally) : Nat := (t.lookup name).getD 0

/-- Whether the names of a tally ascend, so that each is there once. -/
def Ascending (t : Tally) : Prop := t.Pairwise fun a b => a.1 < b.1

/-- Whether a tally has exactly the counts that are not zero. -/
structure Tells (t : Tally) (count : String → Nat) : Prop where
  ascending : t.Ascending
  mem_iff : ∀ name n, (name, n) ∈ t ↔ 0 < n ∧ n = count name

variable {t : Tally} {name : String}

/-- A name that comes before all others is not there. -/
theorem under_of_lt (h : ∀ e ∈ t, name < e.1) : t.under name = 0 := by
  have hnone : t.lookup name = none := by
    rw [List.lookup_eq_none_iff]
    intro e he
    exact bne_iff_ne.2 fun hsame => String.lt_irrefl name (hsame ▸ h e he)
  rw [under, hnone]
  rfl

theorem under_cons_self (name : String) (n : Nat) (t : Tally) : under name ((name, n) :: t) = n := by
  rw [under, List.lookup_cons_self]
  rfl

theorem under_cons_of_ne {k : String} (h : k ≠ name) (n : Nat) (t : Tally) :
    under name ((k, n) :: t) = t.under name := by
  rw [under, List.lookup_cons, beq_false_of_ne (Ne.symm h)]
  rfl

/-- Counting a name replaces its entry, and leaves the others. -/
theorem mem_add (h : t.Ascending) {e : String × Nat} :
    e ∈ add name t ↔ (e ∈ t ∧ e.1 ≠ name) ∨ e = (name, t.under name + 1) := by
  induction t with
  | nil => simp [add, under]
  | cons entry rest ih =>
    obtain ⟨k, n⟩ := entry
    obtain ⟨hfirst, hrest⟩ := List.pairwise_cons.1 h
    rw [add]
    split
    · rename_i hsame
      -- the names behind are greater, so none of them is this one
      have hothers : ∀ e ∈ rest, e.1 ≠ name := by
        intro e he heq
        exact String.lt_irrefl k (heq.trans hsame.symm ▸ hfirst e he)
      rw [hsame, under_cons_self, List.mem_cons, List.mem_cons]
      constructor
      · rintro (rfl | he)
        · exact Or.inr rfl
        · exact Or.inl ⟨Or.inr he, hothers e he⟩
      · rintro (⟨rfl | he, hne⟩ | rfl)
        · exact absurd rfl hne
        · exact Or.inr he
        · exact Or.inl rfl
    · rename_i hne
      split
      · rename_i hbefore
        have hall : ∀ e ∈ (k, n) :: rest, name < e.1 :=
          List.forall_mem_cons.2 ⟨hbefore, fun e he => String.lt_trans hbefore (hfirst e he)⟩
        rw [under_of_lt hall, List.mem_cons, or_comm]
        refine or_congr_left (iff_self_and.2 fun he heq => ?_)
        exact String.lt_irrefl name (heq ▸ hall e he)
      · rw [List.mem_cons, ih hrest, under_cons_of_ne hne, List.mem_cons]
        constructor
        · rintro (rfl | ⟨he, hother⟩ | he)
          · exact Or.inl ⟨Or.inl rfl, hne⟩
          · exact Or.inl ⟨Or.inr he, hother⟩
          · exact Or.inr he
        · rintro (⟨he | he, hother⟩ | he)
          · exact Or.inl he
          · exact Or.inr (Or.inl ⟨he, hother⟩)
          · exact Or.inr (Or.inr he)

/-- The names still ascend after a name was counted. -/
theorem Ascending.add (h : t.Ascending) (name : String) : (add name t).Ascending := by
  induction t with
  | nil => exact List.pairwise_singleton _ _
  | cons entry rest ih =>
    obtain ⟨k, n⟩ := entry
    obtain ⟨hfirst, hrest⟩ := List.pairwise_cons.1 h
    rw [Tally.add]
    split
    · exact List.pairwise_cons.2 ⟨hfirst, hrest⟩
    · rename_i hne
      split
      · rename_i hbefore
        refine List.pairwise_cons.2 ⟨?_, h⟩
        exact List.forall_mem_cons.2 ⟨hbefore, fun e he => String.lt_trans hbefore (hfirst e he)⟩
      · rename_i hnot
        refine List.pairwise_cons.2 ⟨fun e he => ?_, ih hrest⟩
        -- what stands behind was there, or is the name that was counted
        rcases (mem_add hrest).1 he with ⟨he, -⟩ | rfl
        · exact hfirst e he
        · exact Std.lt_of_le_of_ne (String.not_lt.1 hnot) hne

/-! ### Counts -/

variable {count : String → Nat}

/-- What a tally tells of a name is its count. -/
theorem Tells.under_eq (h : t.Tells count) (name : String) : t.under name = count name := by
  cases hlookup : t.lookup name with
  | none =>
    rw [under, hlookup, Option.getD_none]
    by_contra hcount
    have hmem := (h.mem_iff name (count name)).2 ⟨Nat.pos_of_ne_zero (Ne.symm hcount), rfl⟩
    exact bne_iff_ne.1 (List.lookup_eq_none_iff.1 hlookup _ hmem) rfl
  | some n =>
    obtain ⟨before, after, rfl, -⟩ := List.lookup_eq_some_iff.1 hlookup
    rw [under, hlookup, Option.getD_some]
    exact ((h.mem_iff name n).1 (List.mem_append_right _ List.mem_cons_self)).2

/-- Nothing is told of nothing. -/
theorem tells_nil : Tells [] fun _ => 0 where
  ascending := List.Pairwise.nil
  mem_iff name n := by
    simp only [List.not_mem_nil, false_iff, not_and]
    exact fun hpos => Nat.ne_of_gt hpos

/-- Counting a name adds one to what is told of it. -/
theorem Tells.add (h : t.Tells count) (name : String) :
    (add name t).Tells fun k => count k + if k = name then 1 else 0 where
  ascending := h.ascending.add name
  mem_iff k n := by
    rw [mem_add h.ascending, h.mem_iff, h.under_eq]
    by_cases hk : k = name
    · simp [hk]
      omega
    · simp [hk]

/-- A tally of names tells how often each of them occurs. -/
theorem tells_ofNames (names : List String) : (ofNames names).Tells fun k => names.count k := by
  induction names using List.reverseRecOn with
  | nil => exact tells_nil
  | append_singleton names name ih =>
    have hadd := ih.add name
    have hcount : ∀ k, names.count k + (if k = name then 1 else 0) = (names ++ [name]).count k := by
      intro k
      rw [List.count_append, List.count_singleton]
      by_cases hk : k = name
      · simp [hk]
      · simp [hk, Ne.symm hk]
    simp only [hcount] at hadd
    rw [ofNames, List.foldl_append]
    exact hadd

/-- One tally tells a count. -/
theorem Tells.unique {u : Tally} (ht : t.Tells count) (hu : u.Tells count) : t = u := by
  refine eq_of_ascending Prod.fst ht.ascending hu.ascending ?_
  rintro ⟨name, n⟩
  rw [ht.mem_iff, hu.mem_iff]

/-- Names in another order are counted alike. -/
theorem ofNames_perm {names names' : List String} (h : names.Perm names') :
    ofNames names = ofNames names' := by
  have htells := tells_ofNames names
  simp only [h.count_eq] at htells
  exact htells.unique (tells_ofNames names')

end Tally

/-! ## Groups of findings in another order -/

namespace Groups

variable {fs gs : List Finding}

/-- All that is pushed is pushed. -/
theorem filterMap_finding?_pushing (fs : List Finding) :
    (fs.map Grouper.Step.pushing).filterMap Grouper.Step.finding? = fs := by
  rw [List.filterMap_map]
  exact List.filterMap_some

/-- The groups of findings: one for each key, in the order of first occurrence, with what has
the key. -/
theorem ofFindings_eq (fs : List Finding) :
    ofFindings fs = (fs.map Finding.key).eraseDups.map
      fun key => ⟨key.1, key.2, fs.filter fun f => f.key = key⟩ := by
  have hkeys : (fs.map Grouper.Step.pushing).map Grouper.Step.key = fs.map Finding.key :=
    List.map_map
  rw [ofFindings, ← Grouper.after_pushing, Grouper.finish_after, hkeys]
  refine List.map_congr_left fun key _ => ?_
  rw [Grouper.groupOf, filterMap_finding?_pushing]

/-- No finding is lost in the groups. -/
theorem findings_ofFindings_perm (fs : List Finding) :
    ((ofFindings fs).flatMap (·.findings)).Perm fs := by
  have hperm := Grouper.findings_after_perm (fs.map .pushing)
  rwa [Grouper.after_pushing, filterMap_finding?_pushing] at hperm

/-- There are as many groups as there are keys. -/
theorem length_ofFindings (fs : List Finding) :
    (ofFindings fs).length = (fs.map Finding.key).toFinset.card := by
  have hset : (fs.map Finding.key).eraseDups.toFinset = (fs.map Finding.key).toFinset := by
    ext key
    rw [List.mem_toFinset, List.mem_toFinset, List.mem_eraseDups]
  rw [ofFindings_eq, List.length_map, ← hset, List.toFinset_card_of_nodup (nodup_eraseDups _)]

/-- A test that does not look at the order of findings is passed by as many groups, whatever
the order of the findings. -/
theorem countP_ofFindings_perm (h : fs.Perm gs) (test : Group → Bool)
    (htest : ∀ {g g' : Group}, g.findings.Perm g'.findings → test g = test g') :
    (ofFindings fs).countP test = (ofFindings gs).countP test := by
  have hkeys : (fs.map Finding.key).eraseDups.Perm (gs.map Finding.key).eraseDups := by
    rw [List.perm_ext_iff_of_nodup (nodup_eraseDups _) (nodup_eraseDups _)]
    intro key
    rw [List.mem_eraseDups, List.mem_eraseDups, (h.map Finding.key).mem_iff]
  rw [ofFindings_eq, ofFindings_eq, List.countP_map, List.countP_map, hkeys.countP_eq]
  refine List.countP_congr fun key _ => ?_
  exact Bool.eq_iff_iff.1 (htest (h.filter _))

end Groups

/-! ## Summaries -/

namespace Summary

variable {fs gs : List Finding}

/-- No two dialects are counted under one name. -/
theorem displayName_injective {d d' : Dialect} (h : d.displayName = d'.displayName) : d = d' := by
  cases d <;> cases d' <;> first | rfl | exact absurd h (by decide)

/-- What an error is counted under is the name of its dialect. -/
theorem errorName?_eq_some_iff {f : Finding} {name : String} :
    errorName? f = some name ↔
      f.severity = .error ∧ ∃ d, f.dialect? = some d ∧ d.displayName = name := by
  rw [errorName?]
  split
  · rename_i herror
    rw [Option.map_eq_some_iff, and_iff_right herror]
  · rename_i herror
    simp [herror]

/-- A finding is counted under the name of a dialect if it is an error of this dialect. -/
theorem errorName?_eq_displayName_iff {f : Finding} {d : Dialect} :
    errorName? f = some d.displayName ↔ f.severity = .error ∧ f.dialect? = some d := by
  rw [errorName?_eq_some_iff]
  refine and_congr_right fun _ => ⟨?_, fun hd => ⟨d, hd, rfl⟩⟩
  rintro ⟨d', hd, hname⟩
  rwa [← displayName_injective hname]

/-- A finding is counted under a message if it is a warning with this message. -/
theorem warningName?_eq_some_iff {f : Finding} {message : String} :
    warningName? f = some message ↔ f.severity = .warning ∧ f.message = message := by
  rw [warningName?]
  split
  · rename_i hwarning
    rw [Option.some_inj, and_iff_right hwarning]
  · rename_i hwarning
    simp [hwarning]

/-- A tally over groups tells of a name how many findings are counted under it. -/
theorem tells_ofFindings (name? : Finding → Option String) (fs : List Finding) :
    (Tally.ofNames (((Groups.ofFindings fs).flatMap (·.findings)).filterMap name?)).Tells
      fun name => fs.countP fun f => name? f = some name := by
  have htells := Tally.tells_ofNames
    (((Groups.ofFindings fs).flatMap (·.findings)).filterMap name?)
  have hcount : ∀ name, (((Groups.ofFindings fs).flatMap (·.findings)).filterMap name?).count name
      = fs.countP fun f => name? f = some name := by
    intro name
    rw [((Groups.findings_ofFindings_perm fs).filterMap name?).count_eq, List.count,
      List.countP_filterMap]
    refine List.countP_congr fun f _ => ?_
    cases name? f with
    | none => simp
    | some name' => simp
  simpa only [hcount] using htells

/-- What the groups of findings come to does not depend on the order of the findings. -/
theorem ofGroups_perm (h : fs.Perm gs) :
    ofGroups (Groups.ofFindings fs) = ofGroups (Groups.ofFindings gs) := by
  have herror : ∀ {g g' : Group}, g.findings.Perm g'.findings → g.hasError = g'.hasError :=
    fun hperm => hperm.any_eq
  have hwarning : ∀ {g g' : Group}, g.findings.Perm g'.findings → g.hasWarning = g'.hasWarning :=
    fun hperm => hperm.any_eq
  have hlocations : (Groups.ofFindings fs).length = (Groups.ofFindings gs).length := by
    rw [Groups.length_ofFindings, Groups.length_ofFindings,
      List.toFinset_eq_of_perm _ _ (h.map Finding.key)]
  have hclean := Groups.countP_ofFindings_perm h (fun g => g.isClean) fun hperm => by
    rw [Group.isClean, Group.isClean, herror hperm, hwarning hperm]
  have hwithError := Groups.countP_ofFindings_perm h (fun g => g.hasError) herror
  have hwarningOnly := Groups.countP_ofFindings_perm h (fun g => !g.hasError && g.hasWarning)
    fun hperm => by rw [herror hperm, hwarning hperm]
  have hfindings : ((Groups.ofFindings fs).flatMap (·.findings)).Perm
      ((Groups.ofFindings gs).flatMap (·.findings)) :=
    (Groups.findings_ofFindings_perm fs).trans
      (h.trans (Groups.findings_ofFindings_perm gs).symm)
  simp only [ofGroups, hlocations, hclean, hwithError, hwarningOnly,
    Tally.ofNames_perm (hfindings.filterMap errorName?),
    Tally.ofNames_perm (hfindings.filterMap warningName?)]

/-- **The order of findings does not matter to a summary.** Findings in another order have the
same summary. In it, the groups that are clean, with an error or with warnings only are all the
groups, one for each place and pattern that a finding is about. Errors are counted for each
dialect and warnings for each message; what does not occur is not listed, and the names ascend. -/
theorem summary_ignores_order {fs gs : List Finding} (h : fs.Perm gs) :
    let s := ofGroups (Groups.ofFindings fs)
    s = ofGroups (Groups.ofFindings gs) ∧
      s.clean + s.withError + s.warningOnly = s.locations ∧
      s.locations = (fs.map Finding.key).toFinset.card ∧
      s.errorsByDialect.Ascending ∧
      (∀ name n, (name, n) ∈ s.errorsByDialect ↔ ∃ d : Dialect, name = d.displayName ∧ 0 < n ∧
        n = fs.countP fun f => f.severity = .error ∧ f.dialect? = some d) ∧
      s.warningsByMessage.Ascending ∧
      (∀ message n, (message, n) ∈ s.warningsByMessage ↔ 0 < n ∧
        n = fs.countP fun f => f.severity = .warning ∧ f.message = message) := by
  intro s
  have herrors : s.errorsByDialect.Tells _ := tells_ofFindings errorName? fs
  have hwarnings : s.warningsByMessage.Tells _ := tells_ofFindings warningName? fs
  refine ⟨ofGroups_perm h, ?_, Groups.length_ofFindings fs, herrors.ascending, ?_,
    hwarnings.ascending, ?_⟩
  · have hsum : s.withError + s.warningOnly + s.clean = s.locations := locations_ofGroups _
    omega
  · intro name n
    rw [herrors.mem_iff]
    constructor
    · rintro ⟨hpos, hn⟩
      -- something is counted under the name, so it is the name of a dialect
      obtain ⟨f, -, hf⟩ := List.countP_pos_iff.1 (hn ▸ hpos)
      obtain ⟨-, d, -, rfl⟩ := errorName?_eq_some_iff.1 (of_decide_eq_true hf)
      simp only [errorName?_eq_displayName_iff] at hn
      exact ⟨d, rfl, hpos, hn⟩
    · rintro ⟨d, rfl, hpos, hn⟩
      simp only [errorName?_eq_displayName_iff]
      exact ⟨hpos, hn⟩
  · intro message n
    rw [hwarnings.mem_iff]
    simp only [warningName?_eq_some_iff]

/-- Findings on three patterns, of which one is broken and one is not anchored. -/
def threePatterns : List Finding := [
  .valid "#/b" "b" .pcre,
  .error "#/a" "[a" .pcre .dialectSyntax "unclosed class" "Close it." none,
  .error "#/a" "[a" .re2 .dialectSyntax "missing ]" "Close it." none,
  .warning "#/a" "[a" .missingAnchors "missing anchors" "Add them." none,
  .valid "#/c" "^c$" .pcre,
  .warning "#/b" "b" .missingAnchors "missing anchors" "Add them." none]

/-- Read backwards, they have the same summary: three places, one error of each of two
dialects, and one message twice. -/
theorem threePatterns_reversed :
    let s := ofGroups (Groups.ofFindings threePatterns)
    threePatterns.Perm threePatterns.reverse ∧
      s = ofGroups (Groups.ofFindings threePatterns.reverse) ∧ s.locations = 3 ∧
      ("PCRE", 1) ∈ s.errorsByDialect ∧ ("RE2", 1) ∈ s.errorsByDialect ∧
      ("missing anchors", 2) ∈ s.warningsByMessage := by
  intro s
  have hperm : threePatterns.Perm threePatterns.reverse := (List.reverse_perm _).symm
  obtain ⟨hsame, -, hkeys, -, herrors, -, hwarnings⟩ := summary_ignores_order hperm
  refine ⟨hperm, hsame, hkeys.trans (by decide), ?_, ?_, ?_⟩
  · exact (herrors "PCRE" 1).2 ⟨.pcre, rfl, by decide, by decide⟩
  · exact (herrors "RE2" 1).2 ⟨.re2, rfl, by decide, by decide⟩
  · exact (hwarnings "missing anchors" 2).2 ⟨by decide, by decide⟩

end Summary

end PatternAudit
