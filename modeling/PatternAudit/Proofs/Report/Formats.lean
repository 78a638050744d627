/-
The written forms, read again.

Reports, the entries of a cache, listings and logs come back from their texts as they were,
whatever the texts in them say and whichever of their members are left out
(`formats_read_back`). Good form is what the types of counts and line numbers promise. The
listing and the log of reports in good form are in good form (`Listing.goodForm_ofFiled`,
`Sarif.Log.goodForm_ofReports`), so that what an audit prints can be read.
-/
import PatternAudit.Proofs.Cache.Entry
import PatternAudit.Report.Sarif

set_option autoImplicit false

namespace PatternAudit

open Json.Read (Fills Layout Reads reads_boolean reads_natural reads_record reads_sequence
  reads_string reread)

/-! ## Listings -/

namespace Listing

/-- A group whose line and whose findings' lines fit 64 bits. -/
structure Result.GoodForm (r : Result) : Prop where
  line : Word.fits 64 r.line = true
  findings : ∀ f ∈ r.findings, Word.fits 64 f.line = true

/-- An entry whose figures and lines are in good form. -/
structure Entry.GoodForm (e : Entry) : Prop where
  summary : e.summary.GoodForm
  results : ∀ r ∈ e.results, r.GoodForm

/-- A listing whose entries are in good form. -/
def GoodForm (l : Listing) : Prop := ∀ e ∈ l.documents, e.GoodForm

section Reads

variable (levels : Nat)

theorem reads_result {r : Result} (h : r.GoodForm) : Reads Result.shape (levels + 3) r.toJson := by
  have hfindings : ∀ v ∈ r.findings.map Finding.toJson, Reads Finding.shape (levels + 1) v :=
    List.forall_mem_map.2 fun f hf => reads_finding levels (h.findings f hf)
  refine reads_record "JsonGroup" ?_ (by decide)
  exact .field (reads_string _ _) <| .field (reads_string _ _) <|
    .field (reads_natural _ h.line _) <| .field (reads_string _ _) <|
    .field (reads_sequence hfindings) .nil

theorem reads_entry {e : Entry} (h : e.GoodForm) : Reads Entry.shape (levels + 5) e.toJson := by
  have hdialects : ∀ v ∈ e.dialects.map Json.str, Reads .string (levels + 3) v :=
    List.forall_mem_map.2 fun d _ => reads_string _ d
  have hresults : ∀ v ∈ e.results.map Result.toJson, Reads Result.shape (levels + 3) v :=
    List.forall_mem_map.2 fun r hr => reads_result levels (h.results r hr)
  rw [Entry.toJson, List.append_assoc, List.append_assoc, List.cons_append]
  refine reads_record "JsonDocument" ?_ (by decide)
  exact .field (reads_string _ _) <| .optionalText <| .optionalText <|
    .field (reads_sequence hdialects) <| .field (reads_summary (levels + 2) h.summary) <|
    .field (reads_sequence hresults) (fills_skipped (levels + 2) e.skipped)

theorem reads_listing {l : Listing} (h : l.GoodForm) : Reads shape (levels + 7) l.toJson := by
  have hentries : ∀ v ∈ l.documents.map Entry.toJson, Reads Entry.shape (levels + 5) v :=
    List.forall_mem_map.2 fun e he => reads_entry levels (h e he)
  refine reads_record "JsonReport" ?_ (by decide)
  exact .field (reads_string _ _) <| .field (reads_boolean _ _) <|
    .field (reads_sequence hentries) .nil

end Reads

section OfJson

theorem Result.ofJson_toJson (r : Result) : Result.ofJson r.toJson = r := by
  have hfindings : r.findings.map (Finding.ofJson ∘ Finding.toJson) = r.findings :=
    List.map_id'' Finding.ofJson_toJson _
  simp [ofJson, toJson, Json.textAt, Json.naturalAt, Json.itemsAt, Json.get?, Json.lookup,
    Json.asStr?, Json.asArr?, Json.natural, Json.ofNat, hfindings]

theorem Entry.ofJson_toJson {e : Entry} (h : e.summary.GoodForm) : Entry.ofJson e.toJson = e := by
  have hsummary := Summary.ofJson_toJson h
  obtain ⟨document, id, specVersion, dialects, summary, results, skipped⟩ := e
  have hdialects : dialects.filterMap (Json.asStr? ∘ Json.str) = dialects :=
    List.filterMap_some
  have hresults : results.map (Result.ofJson ∘ Result.toJson) = results :=
    List.map_id'' Result.ofJson_toJson _
  have hskipped : skipped.map (Diagnostic.ofJson ∘ Diagnostic.toJson) = skipped :=
    List.map_id'' (fun _ => rfl) _
  cases id <;> cases specVersion <;> cases skipped <;>
    simp_all [ofJson, toJson, Json.textAt, Json.text?At, Json.itemsAt, Json.get?, Json.lookup,
      Json.asStr?, Json.asArr?, Json.optionalText, Diagnostic.member]

theorem ofJson_toJson {l : Listing} (h : l.GoodForm) : ofJson l.toJson = l := by
  have hentries : l.documents.map (Entry.ofJson ∘ Entry.toJson) = l.documents :=
    (List.map_congr_left fun e he => Entry.ofJson_toJson (h e he).summary).trans (List.map_id _)
  simp [ofJson, toJson, Json.textAt, Json.boolAt, Json.itemsAt, Json.get?, Json.lookup,
    Json.asStr?, Json.asArr?, hentries]

end OfJson

/-- A listing comes back from its text as it was. -/
theorem reread_toJson {l : Listing} (h : l.GoodForm) (layout : Layout) :
    reread layout shape ofJson l.toJson = .ok l :=
  Json.Read.reread_of_reads (reads_listing 0 h) (by decide) (ofJson_toJson h) layout

end Listing

/-! ## Logs -/

namespace Sarif

/-- A location whose line fits 64 bits. -/
def Location.GoodForm (l : Location) : Prop := Word.fits 64 l.startLine = true

/-- A log whose results have lines of 64 bits. -/
def Log.GoodForm (l : Log) : Prop :=
  ∀ run ∈ l.runs, ∀ result ∈ run.results, ∀ location ∈ result.locations, location.GoodForm

section Reads

variable (levels : Nat)

theorem reads_message (s : String) : Reads messageShape (levels + 1) (messageJson s) :=
  reads_record "SarifMessage" (.field (reads_string _ s) .nil) (by decide)

theorem reads_ruleEntry (r : RuleEntry) : Reads RuleEntry.shape (levels + 2) r.toJson := by
  have hlevel : Reads (.record "SarifRuleConfig" [("level", .required, .string)]) (levels + 1)
      (.obj [("level", .str r.level)]) :=
    reads_record "SarifRuleConfig" (.field (reads_string _ _) .nil) (by decide)
  have hend : Fills (levels + 1)
      [("defaultConfiguration", .required,
        .record "SarifRuleConfig" [("level", .required, .string)])]
      [("defaultConfiguration", .obj [("level", .str r.level)])] := .field hlevel .nil
  refine reads_record "SarifRule" ?_ (by decide)
  refine .field (reads_string _ _) <| .field (reads_string _ _) <|
    .field (reads_message levels _) ?_
  -- a rule may have no full description
  cases r.full with
  | none => exact .omitted hend
  | some s => exact .nullable (reads_message levels s) hend

theorem reads_location {l : Location} (h : l.GoodForm) :
    Reads Location.shape (levels + 3) l.toJson := by
  have hnodes : ∀ v ∈ l.nodes.map fun n => Json.obj [("fullyQualifiedName", .str n)],
      Reads (.record "SarifLogicalLocation" [("fullyQualifiedName", .required, .string)])
        (levels + 1) v :=
    List.forall_mem_map.2 fun n _ =>
      reads_record "SarifLogicalLocation" (.field (reads_string _ n) .nil) (by decide)
  have hfile : Reads (.record "SarifArtifact" [("uri", .required, .string)]) (levels + 1)
      (.obj [("uri", .str l.uri)]) :=
    reads_record "SarifArtifact" (.field (reads_string _ _) .nil) (by decide)
  have hline : Reads (.record "SarifRegion" [("startLine", .required, .count)]) (levels + 1)
      (.obj [("startLine", .ofNat l.startLine)]) :=
    reads_record "SarifRegion" (.field (reads_natural _ h _) .nil) (by decide)
  refine reads_record "SarifLocation" ?_ (by decide)
  exact .field (reads_record "SarifPhysicalLocation" (.field hfile <| .field hline .nil)
    (by decide)) <| .field (reads_sequence hnodes) .nil

theorem reads_result {r : Result} (h : ∀ location ∈ r.locations, location.GoodForm) :
    Reads Result.shape (levels + 5) r.toJson := by
  have hlocations : ∀ v ∈ r.locations.map Location.toJson,
      Reads Location.shape (levels + 3) v :=
    List.forall_mem_map.2 fun l hl => reads_location levels (h l hl)
  refine reads_record "SarifResult" ?_ (by decide)
  exact .field (reads_string _ _) <| .field (reads_string _ _) <|
    .field (reads_message (levels + 3) _) <| .field (reads_sequence hlocations) .nil

theorem reads_run {r : Run}
    (h : ∀ result ∈ r.results, ∀ location ∈ result.locations, location.GoodForm) :
    Reads Run.shape (levels + 7) r.toJson := by
  have hrules : ∀ v ∈ r.rules.map RuleEntry.toJson, Reads RuleEntry.shape (levels + 3) v :=
    List.forall_mem_map.2 fun rule _ => reads_ruleEntry (levels + 1) rule
  have hresults : ∀ v ∈ r.results.map Result.toJson, Reads Result.shape (levels + 5) v :=
    List.forall_mem_map.2 fun result hresult => reads_result levels (h result hresult)
  refine reads_record "SarifRun" (.field (reads_record "SarifTool" (.field
    (reads_record "SarifDriver" ?_ (by decide)) .nil) (by decide)) <|
    .field (reads_sequence hresults) .nil) (by decide)
  exact .field (reads_string _ _) <| .field (reads_string _ _) <| .field (reads_string _ _) <|
    .field (reads_sequence hrules) .nil

theorem reads_log {l : Log} (h : l.GoodForm) : Reads Log.shape (levels + 9) l.toJson := by
  have hruns : ∀ v ∈ l.runs.map Run.toJson, Reads Run.shape (levels + 7) v :=
    List.forall_mem_map.2 fun run hrun => reads_run levels (h run hrun)
  refine reads_record "SarifReport" ?_ (by decide)
  exact .field (reads_string _ _) <| .field (reads_string _ _) <|
    .field (reads_sequence hruns) .nil

end Reads

section OfJson

theorem RuleEntry.ofJson_toJson (r : RuleEntry) : RuleEntry.ofJson r.toJson = r := by
  obtain ⟨id, name, short, full, level⟩ := r
  cases full <;> rfl

theorem Location.ofJson_toJson (l : Location) : Location.ofJson l.toJson = l := by
  have hnodes : (l.nodes.map fun n => Json.obj [("fullyQualifiedName", .str n)]).map
      (·.textAt "fullyQualifiedName") = l.nodes := by
    rw [List.map_map]
    exact List.map_id'' (fun _ => rfl) _
  exact congrArg (Location.mk l.uri l.startLine) hnodes

theorem Result.ofJson_toJson (r : Result) : Result.ofJson r.toJson = r := by
  have hlocations : r.locations.map (Location.ofJson ∘ Location.toJson) = r.locations :=
    List.map_id'' Location.ofJson_toJson _
  simp [ofJson, toJson, messageAt, messageJson, Json.textAt, Json.itemsAt, Json.get?, Json.lookup,
    Json.asStr?, Json.asArr?, hlocations]

theorem Run.ofJson_toJson (r : Run) : Run.ofJson r.toJson = r := by
  have hrules : r.rules.map (RuleEntry.ofJson ∘ RuleEntry.toJson) = r.rules :=
    List.map_id'' RuleEntry.ofJson_toJson _
  have hresults : r.results.map (Result.ofJson ∘ Result.toJson) = r.results :=
    List.map_id'' Result.ofJson_toJson _
  simp [ofJson, toJson, Json.textAt, Json.itemsAt, Json.get?, Json.lookup, Json.asStr?,
    Json.asArr?, hrules, hresults]

theorem Log.ofJson_toJson (l : Log) : Log.ofJson l.toJson = l := by
  have hruns : l.runs.map (Run.ofJson ∘ Run.toJson) = l.runs := List.map_id'' Run.ofJson_toJson _
  simp [ofJson, toJson, Json.textAt, Json.itemsAt, Json.get?, Json.lookup, Json.asStr?,
    Json.asArr?, hruns]

end OfJson

/-- A log comes back from its text as it was. -/
theorem Log.reread_toJson {l : Log} (h : l.GoodForm) (layout : Layout) :
    reread layout shape ofJson l.toJson = .ok l :=
  Json.Read.reread_of_reads (reads_log 0 h) (by decide) (ofJson_toJson l) layout

end Sarif

/-! ## What an audit writes -/

/-- The line of a group is that of one of its findings, or 0. -/
theorem Group.fits_line {g : Group} (h : ∀ f ∈ g.findings, Word.fits 64 f.line = true) :
    Word.fits 64 g.line = true := by
  have hfold : ∀ ms : List Nat, (∀ m ∈ ms, Word.fits 64 m = true) → ∀ n, Word.fits 64 n = true →
      Word.fits 64 (ms.foldl (fun n m => if n = 0 then m else min n m) n) = true := by
    intro ms hms
    induction ms with
    | nil => exact fun n hn => hn
    | cons m ms ih =>
      intro n hn
      obtain ⟨hm, hms⟩ := List.forall_mem_cons.1 hms
      refine ih hms _ ?_
      show Word.fits 64 (if n = 0 then m else min n m) = true
      split
      · exact hm
      · rcases Nat.le_total n m with hle | hle
        · rwa [Nat.min_eq_left hle]
        · rwa [Nat.min_eq_right hle]
  refine hfold _ (fun m hm => ?_) 0 (by decide +kernel)
  obtain ⟨f, hf, rfl⟩ := List.mem_map.1 (List.mem_filter.1 hm).1
  exact h f hf

/-- The listing of reports in good form is in good form. -/
theorem Listing.goodForm_ofFiled {filed : List Filed} (h : ∀ f ∈ filed, f.report.GoodForm)
    (passed : Bool) : (Listing.ofFiled filed passed).GoodForm := by
  refine List.forall_mem_map.2 fun f hf => ⟨(h f hf).summary, List.forall_mem_map.2 fun g hg => ?_⟩
  exact ⟨Group.fits_line ((h f hf).lines g hg), (h f hf).lines g hg⟩

/-- The log of reports in good form is in good form. -/
theorem Sarif.Log.goodForm_ofReports {reports : List Report} (h : ∀ r ∈ reports, r.GoodForm) :
    (Sarif.Log.ofReports reports).GoodForm := by
  intro run hrun result hresult
  rw [List.mem_singleton.1 hrun] at hresult
  obtain ⟨r, hr, hresult⟩ := List.mem_flatMap.1 hresult
  obtain ⟨f, hf, rfl⟩ := List.mem_map.1 hresult
  obtain ⟨g, hg, hf⟩ := List.mem_flatMap.1 (List.mem_filter.1 hf).1
  have hline := (h r hr).lines g hg f hf
  refine List.forall_mem_singleton.2 ?_
  -- a finding without a line is put on the first
  show Word.fits 64 (if 0 < f.line then f.line else 1) = true
  split
  · exact hline
  · decide +kernel

/-! ## All forms -/

/-- **What is written is read back.** A report, the entry of a cache, a listing and a log come
back from their texts as they were, on one line or over several. An entry that is written
without its number comes back with the number 0. -/
theorem formats_read_back {report : Report} {entry : Cache.Entry} {listing : Listing}
    {log : Sarif.Log} (hreport : report.GoodForm) (hentry : entry.GoodForm)
    (hlisting : listing.GoodForm) (hlog : log.GoodForm) (layout : Layout) :
    reread layout Report.shape Report.ofJson report.toJson = .ok report ∧
      reread layout Cache.Entry.shape Cache.Entry.ofJson entry.toJson = .ok entry ∧
      reread layout Cache.Entry.shape Cache.Entry.ofJson entry.unnumbered
        = .ok { entry with sequence := 0 } ∧
      reread layout Listing.shape Listing.ofJson listing.toJson = .ok listing ∧
      reread layout Sarif.Log.shape Sarif.Log.ofJson log.toJson = .ok log :=
  ⟨Report.reread_toJson hreport layout, Cache.Entry.reread_toJson hentry layout,
    Cache.Entry.reread_unnumbered hentry layout, Listing.reread_toJson hlisting layout,
    Sarif.Log.reread_toJson hlog layout⟩

/-- A report on one pattern, which is accepted and accepts everything. -/
def laxReport : Report where
  document := "orders\\parts.yaml"
  specVersion := none
  dialects := [.pcre, .re2]
  groups := [⟨"#/definitions/Code", ".*",
    [.valid "#/definitions/Code" ".*" .pcre,
      { location := "#/definitions/Code"
        line := 7
        pattern := ".*"
        origin := .quality
        rule := .overlyPermissive
        severity := .warning
        compiles := true
        message := "pattern \".*\" accepts any input"
        suggestion := some "state what the text looks like"
        suggestedFix := none }]⟩]
  summary := ⟨1, 0, 0, 1, [], [("pattern \".*\" accepts any input", 1)]⟩
  skipped := [⟨"#/definitions/Any", "expected a schema object, found list"⟩]

theorem goodForm_laxReport : laxReport.GoodForm where
  lines := by decide +kernel
  summary :=
    { locations := by decide +kernel
      clean := by decide +kernel
      withError := by decide +kernel
      warningOnly := by decide +kernel
      errorsByDialect := ⟨List.Pairwise.nil, by decide +kernel⟩
      warningsByMessage := ⟨List.pairwise_singleton _ _, by decide +kernel⟩ }

/-- The report, kept under the number 3, and its listing and log. -/
theorem laxReport_reads_back :
    reread .line Report.shape Report.ofJson laxReport.toJson = .ok laxReport ∧
      reread .line Cache.Entry.shape Cache.Entry.ofJson
        (Cache.Entry.unnumbered ⟨laxReport, 1700000000, 3⟩)
          = .ok ⟨laxReport, 1700000000, 0⟩ ∧
      reread (.lines 0) Listing.shape Listing.ofJson
        (Listing.ofFiled [⟨laxReport, some "0a1b2c3d"⟩] true).toJson
          = .ok (Listing.ofFiled [⟨laxReport, some "0a1b2c3d"⟩] true) ∧
      reread (.lines 0) Sarif.Log.shape Sarif.Log.ofJson (Sarif.Log.ofReports [laxReport]).toJson
        = .ok (Sarif.Log.ofReports [laxReport]) := by
  have hentry : Cache.Entry.GoodForm ⟨laxReport, 1700000000, 3⟩ :=
    ⟨goodForm_laxReport, by decide +kernel, by decide +kernel⟩
  have hfiled : ∀ f ∈ [Filed.mk laxReport (some "0a1b2c3d")], f.report.GoodForm :=
    List.forall_mem_singleton.2 goodForm_laxReport
  have hlisting := Listing.goodForm_ofFiled hfiled true
  have hlog := Sarif.Log.goodForm_ofReports (List.forall_mem_singleton.2 goodForm_laxReport)
  have hback := formats_read_back goodForm_laxReport hentry hlisting hlog
  exact ⟨(hback .line).1, (hback .line).2.2.1, (hback (.lines 0)).2.2.2⟩

end PatternAudit
