/-
Reports that are written and read again.

A report in good form comes back from its text as it was (`Report.reread_toJson`). Good form
is what the types of a stored report promise: counts fit 64 bits, and tallies list each name
once, in ascending order.

For each type there are two lemmas. One says that the text of a value is read as the tree
that was written, the other that the value is taken out of that tree.
-/
import Mathlib.Data.List.Basic
import PatternAudit.Proofs.Json.RoundTrip
import PatternAudit.Report.Form

set_option autoImplicit false

namespace PatternAudit

open Json.Read (Fills Layout Reads reads_boolean reads_mapping reads_natural reads_record
  reads_refined reads_sequence reads_string reads_variant reread)

/-! ## Good form -/

/-- Counts of 64 bits, with their names in ascending order. -/
structure Tally.GoodForm (t : Tally) : Prop where
  ascending : t.Pairwise fun a b => a.1 < b.1
  fits : ∀ e ∈ t, Word.fits 64 e.2 = true

/-- Figures of 64 bits. -/
structure Summary.GoodForm (s : Summary) : Prop where
  locations : Word.fits 64 s.locations = true
  clean : Word.fits 64 s.clean = true
  withError : Word.fits 64 s.withError = true
  warningOnly : Word.fits 64 s.warningOnly = true
  errorsByDialect : s.errorsByDialect.GoodForm
  warningsByMessage : s.warningsByMessage.GoodForm

/-- A report whose figures and line numbers are in good form. -/
structure Report.GoodForm (r : Report) : Prop where
  lines : ∀ g ∈ r.groups, ∀ f ∈ g.findings, Word.fits 64 f.line = true
  summary : r.summary.GoodForm

/-- A report without groups and figures is in good form. -/
theorem Report.goodForm_default (document : String) :
    Report.GoodForm { (default : Report) with document } := by
  have hzero : Word.fits 64 0 = true := by decide +kernel
  have hnone : Tally.GoodForm [] :=
    ⟨List.Pairwise.nil, fun _ he => absurd he List.not_mem_nil⟩
  exact ⟨fun _ hg => absurd hg List.not_mem_nil, hzero, hzero, hzero, hzero, hnone, hnone⟩

/-! ## Findings -/

/-- A text that may be missing is written or left out. -/
theorem Json.Read.Fills.optionalText {levels : Nat} {key : String} {o : Option String}
    {fields : List (String × Presence × Shape)} {ms : List (String × Json)}
    (h : Fills levels fields ms) :
    Fills levels ((key, .optional, .optionalText) :: fields) (Json.optionalText key o ++ ms) := by
  cases o with
  | none => exact .omitted h
  | some s => exact .nullable (reads_string levels s) h

section Finding

theorem Origin.ofName?_name (o : Origin) : Origin.ofName? o.name = some o := by
  rcases o with (_ | _ | _) | _ <;> decide +kernel

theorem Severity.ofName?_name (v : Severity) : Severity.ofName? v.name = some v := by
  cases v <;> decide +kernel

theorem Rule.ofName?_name (r : Rule) : Rule.ofName? r.name = some r := by
  cases r <;> decide +kernel

theorem reads_finding (levels : Nat) {f : Finding} (h : Word.fits 64 f.line = true) :
    Reads Finding.shape (levels + 1) f.toJson := by
  have hrule : f.rule.name ∈ Rule.all.map Rule.name :=
    List.mem_map_of_mem (by cases f.rule <;> decide)
  have hseverity : f.severity.name ∈ Severity.all.map Severity.name :=
    List.mem_map_of_mem (by cases f.severity <;> decide)
  have horigin : (Origin.ofName? f.origin.name).isSome = true := by
    rw [Origin.ofName?_name]
    rfl
  have hadvice : Fills levels
      [("suggestion", .optional, .optionalText), ("suggested_fix", .optional, .optionalText)]
      (Json.optionalText "suggestion" f.suggestion
        ++ (Json.optionalText "suggested_fix" f.suggestedFix ++ [])) :=
    Fills.nil.optionalText.optionalText
  rw [List.append_nil] at hadvice
  rw [Finding.toJson, List.append_assoc]
  refine reads_record "Finding" ?_ (by decide)
  exact .field (reads_string _ _) <| .field (reads_natural _ h _) <| .field (reads_string _ _) <|
    .field (reads_refined _ horigin) <| .field (reads_variant _ hrule) <|
    .field (reads_variant _ hseverity) <| .field (reads_boolean _ _) <|
    .field (reads_string _ _) hadvice

theorem Finding.ofJson_toJson (f : Finding) : Finding.ofJson f.toJson = f := by
  obtain ⟨location, line, pattern, origin, rule, severity, compiles, message, suggestion,
    suggestedFix⟩ := f
  cases suggestion <;> cases suggestedFix <;>
    simp [ofJson, toJson, Json.textAt, Json.text?At, Json.naturalAt, Json.boolAt, Json.get?,
      Json.lookup, Json.asStr?, Json.natural, Json.ofNat, Json.optionalText,
      Origin.ofName?_name, Severity.ofName?_name, Rule.ofName?_name]

end Finding

/-! ## Groups -/

section Group

theorem reads_group (levels : Nat) {g : Group} (h : ∀ f ∈ g.findings, Word.fits 64 f.line = true) :
    Reads Group.shape (levels + 3) g.toJson := by
  have hfindings : ∀ v ∈ g.findings.map Finding.toJson, Reads Finding.shape (levels + 1) v :=
    List.forall_mem_map.2 fun f hf => reads_finding levels (h f hf)
  refine reads_record "GroupedFinding" ?_ (by decide)
  exact .field (reads_string _ _) <| .field (reads_string _ _) <|
    .field (reads_sequence hfindings) .nil

theorem Group.ofJson_toJson (g : Group) : Group.ofJson g.toJson = g := by
  have hfindings : g.findings.map (Finding.ofJson ∘ Finding.toJson) = g.findings :=
    List.map_id'' Finding.ofJson_toJson _
  simp [ofJson, toJson, Json.textAt, Json.itemsAt, Json.get?, Json.lookup, Json.asStr?,
    Json.asArr?, hfindings]

end Group

/-! ## Tallies and summaries -/

namespace Tally

/-- A name that comes after all others is put at the end. -/
theorem put_of_last {name : String} {t : Tally} (h : ∀ e ∈ t, e.1 < name) (count : Nat) :
    t.put name count = t ++ [(name, count)] := by
  induction t with
  | nil => rfl
  | cons e t ih =>
    obtain ⟨hfirst, hrest⟩ := List.forall_mem_cons.1 h
    have hne : e.1 ≠ name := fun hsame => String.lt_irrefl name (hsame ▸ hfirst)
    have hnot : ¬name < e.1 := String.lt_asymm hfirst
    rw [put, if_neg hne, if_neg hnot, ih hrest, List.cons_append]

/-- Putting what comes after all that was put before leaves the order. -/
theorem foldl_put {done rest : Tally}
    (h : (done ++ rest).Pairwise fun a b => a.1 < b.1) :
    rest.foldl (fun t p => t.put p.1 p.2) done = done ++ rest := by
  induction rest generalizing done with
  | nil => rw [List.foldl_nil, List.append_nil]
  | cons e rest ih =>
    have hlast : ∀ a ∈ done, a.1 < e.1 := fun a ha =>
      (List.pairwise_append.1 h).2.2 a ha e List.mem_cons_self
    have hsplit : done ++ e :: rest = (done ++ [e]) ++ rest := by
      rw [List.append_assoc, List.singleton_append]
    rw [hsplit] at h ⊢
    rw [List.foldl_cons, put_of_last hlast]
    exact ih h

/-- What is in order stays as it is. -/
theorem ofPairs_of_ascending {t : Tally} (h : t.Pairwise fun a b => a.1 < b.1) :
    ofPairs t = t := foldl_put (List.nil_append t ▸ h)

theorem GoodForm.reads (levels : Nat) {t : Tally} (h : t.GoodForm) :
    Reads (.mapping .count) (levels + 1) t.toJson := by
  have hkeys : (t.map Prod.fst).Nodup := by
    rw [List.Nodup, List.pairwise_map]
    refine h.ascending.imp ?_
    intro a b hlt hsame
    rw [hsame] at hlt
    exact String.lt_irrefl b.1 hlt
  refine reads_mapping ?_ (by rw [List.map_map]; exact hkeys)
  intro m hm
  obtain ⟨e, he, rfl⟩ := List.mem_map.1 hm
  exact reads_natural levels (h.fits e he) _

/-- A tally is taken out of the member that it was written into. -/
theorem ofMember_toJson {t : Tally} (h : t.GoodForm) {key : String} {v : Json}
    (hv : v.get? key = some t.toJson) : ofMember key v = t := by
  have hpairs : (t.map fun e => (e.1, Json.ofNat e.2)).map (fun m => (m.1, m.2.natural)) = t := by
    rw [List.map_map]
    exact List.map_id'' (fun _ => rfl) _
  rw [ofMember, Json.membersAt, hv, toJson, Option.bind_some, Json.asObj?, Option.getD_some,
    hpairs, ofPairs_of_ascending h.ascending]

end Tally

section Summary

theorem reads_summary (levels : Nat) {s : Summary} (h : s.GoodForm) :
    Reads Summary.shape (levels + 2) s.toJson := by
  refine reads_record "AuditSummary" ?_ (by decide)
  exact .field (reads_natural _ h.locations _) <| .field (reads_natural _ h.clean _) <|
    .field (reads_natural _ h.withError _) <| .field (reads_natural _ h.warningOnly _) <|
    .field (h.errorsByDialect.reads levels) <| .field (h.warningsByMessage.reads levels) .nil

theorem Summary.ofJson_toJson {s : Summary} (h : s.GoodForm) : Summary.ofJson s.toJson = s := by
  have herrors : Tally.ofMember "errors_by_dialect" s.toJson = s.errorsByDialect :=
    Tally.ofMember_toJson h.errorsByDialect rfl
  have hwarnings : Tally.ofMember "warnings_by_message" s.toJson = s.warningsByMessage :=
    Tally.ofMember_toJson h.warningsByMessage rfl
  rw [ofJson, herrors, hwarnings]
  rfl

end Summary

/-! ## Reports -/

section Report

theorem reads_diagnostic (levels : Nat) (d : Diagnostic) :
    Reads Diagnostic.shape (levels + 1) d.toJson :=
  reads_record "Diagnostic"
    (.field (reads_string _ _) <| .field (reads_string _ _) .nil) (by decide)

/-- The places that were skipped are written or left out. -/
theorem fills_skipped (levels : Nat) (ds : List Diagnostic) :
    Fills (levels + 2) [("skipped", .optional, .sequence Diagnostic.shape)]
      (Diagnostic.member ds) := by
  rw [Diagnostic.member]
  split
  · exact .omitted .nil
  · exact .field (reads_sequence (List.forall_mem_map.2 fun d _ => reads_diagnostic levels d)) .nil

theorem reads_report (levels : Nat) {r : Report} (h : r.GoodForm) :
    Reads Report.shape (levels + 5) r.toJson := by
  have hdialects : ∀ v ∈ r.dialects.map fun d => Json.str d.name,
      Reads (.variant (Dialect.all.map Dialect.name)) (levels + 3) v :=
    List.forall_mem_map.2 fun d _ =>
      reads_variant _ (List.mem_map_of_mem (by cases d <;> decide))
  have hgroups : ∀ v ∈ r.groups.map Group.toJson, Reads Group.shape (levels + 3) v :=
    List.forall_mem_map.2 fun g hg => reads_group levels (h.lines g hg)
  rw [Report.toJson, List.cons_append, List.cons_append, List.append_assoc]
  refine reads_record "AuditReport" ?_ (by decide)
  exact .field (reads_string _ _) <| .optionalText <| .field (reads_sequence hdialects) <|
    .field (reads_sequence hgroups) <| .field (reads_summary (levels + 2) h.summary)
      (fills_skipped (levels + 2) r.skipped)

theorem Report.dialectOf_name (d : Dialect) : Report.dialectOf (.str d.name) = some d := by
  cases d <;> decide

theorem Report.ofJson_toJson {r : Report} (h : r.GoodForm) : Report.ofJson r.toJson = r := by
  have hsummary := Summary.ofJson_toJson h.summary
  obtain ⟨document, specVersion, dialects, groups, summary, skipped⟩ := r
  have hdialects : dialects.filterMap (dialectOf ∘ fun d => Json.str d.name) = dialects :=
    (List.filterMap_congr fun d _ => dialectOf_name d).trans List.filterMap_some
  have hgroups : groups.map (Group.ofJson ∘ Group.toJson) = groups :=
    List.map_id'' Group.ofJson_toJson _
  have hskipped : skipped.map (Diagnostic.ofJson ∘ Diagnostic.toJson) = skipped :=
    List.map_id'' (fun _ => rfl) _
  cases specVersion <;> cases skipped <;>
    simp_all [ofJson, toJson, Json.textAt, Json.text?At, Json.itemsAt, Json.get?, Json.lookup,
      Json.asStr?, Json.asArr?, Json.optionalText, Diagnostic.member]

end Report

/-- **A report comes back from its text** as it was. -/
theorem Report.reread_toJson {r : Report} (h : r.GoodForm) (layout : Layout) :
    reread layout Report.shape Report.ofJson r.toJson = .ok r :=
  Json.Read.reread_of_reads (reads_report 0 h) (by decide) (Report.ofJson_toJson h) layout

end PatternAudit
