/-
Entries that are written and read again.

An entry in good form comes back from its text as it was (`Entry.ofText?_text`), and from a
text without its sequence number as the entry with the number 0 (`Entry.reread_unnumbered`).
-/
import PatternAudit.Cache.Entry
import PatternAudit.Proofs.Report.RoundTrip

set_option autoImplicit false

namespace PatternAudit.Cache.Entry

open Json.Read (Layout Reads reads_natural reads_record reread)

/-- An entry whose report is in good form, with a time and a number of 64 bits. -/
structure GoodForm (e : Entry) : Prop where
  report : e.report.GoodForm
  storedAt : Word.fits 64 e.storedAt = true
  sequence : Word.fits 64 e.sequence = true

/-! ## Trees -/

theorem reads_entry {e : Entry} (h : e.GoodForm) : Reads shape 6 e.toJson :=
  reads_record "CacheEntry" (.field (reads_report 0 h.report) <|
    .field (reads_natural _ h.storedAt _) <| .field (reads_natural _ h.sequence _) .nil)
    (by decide)

theorem ofJson_toJson {e : Entry} (h : e.report.GoodForm) : ofJson e.toJson = e := by
  have hreport := Report.ofJson_toJson h
  obtain ⟨report, storedAt, sequence⟩ := e
  simp only [ofJson, toJson, Json.get?, Json.lookup, if_true, Option.getD_some, hreport]
  rfl

/-- The tree of an entry from before entries were numbered. -/
def unnumbered (e : Entry) : Json :=
  match e.toJson with
  | .obj members => .obj (members.filter fun m => m.1 ≠ "seq")
  | v => v

theorem unnumbered_eq (e : Entry) :
    e.unnumbered = .obj [("report", e.report.toJson), ("stored_at", .ofNat e.storedAt)] := rfl

theorem reads_unnumbered {e : Entry} (h : e.GoodForm) : Reads shape 6 e.unnumbered :=
  reads_record "CacheEntry" (.field (reads_report 0 h.report) <|
    .field (reads_natural _ h.storedAt _) <| .omitted .nil) (by decide)

theorem ofJson_unnumbered {e : Entry} (h : e.report.GoodForm) :
    ofJson e.unnumbered = { e with sequence := 0 } := by
  have hreport := Report.ofJson_toJson h
  obtain ⟨report, storedAt, sequence⟩ := e
  simp only [unnumbered_eq, ofJson, Json.get?, Json.lookup, if_true, Option.getD_some, hreport]
  rfl

/-! ## Texts -/

/-- An entry comes back from its text as it was. -/
theorem reread_toJson {e : Entry} (h : e.GoodForm) (layout : Layout) :
    reread layout shape ofJson e.toJson = .ok e :=
  Json.Read.reread_of_reads (reads_entry h) (by decide) (ofJson_toJson h.report) layout

/-- **A number that is missing is read as 0.** -/
theorem reread_unnumbered {e : Entry} (h : e.GoodForm) (layout : Layout) :
    reread layout shape ofJson e.unnumbered = .ok { e with sequence := 0 } :=
  Json.Read.reread_of_reads (reads_unnumbered h) (by decide) (ofJson_unnumbered h.report) layout

/-- **An entry comes back from its file** as it was. -/
theorem ofText?_text {e : Entry} (h : e.GoodForm) : ofText? e.text = some e := by
  have htext : Json.Read.parseAs shape e.text = .ok e.toJson :=
    Json.Read.parseAs_write (reads_entry h) (by decide) .line
  rw [ofText?, htext]
  exact congrArg some (ofJson_toJson h.report)

end PatternAudit.Cache.Entry
