/-
Audits of many sources against audits of each source alone.

A batch is a sum over its sources: reports and failures stand one after the other, the policy
passes reports that pass in every part, and of two exit codes the greater one is that of both
(`Batch.exitCode_append`). Loading is the only place where one source could show in what comes
of another, and only the standard input does. So a run over any list of files can be read off
from the runs over each of them, whether they are cut apart by sources (`batchOf_eq`) or by
arguments (`Accepted.exists_parts`).
-/
import PatternAudit.Command.Run
import PatternAudit.Proofs.Audit.Verdict
import PatternAudit.Proofs.Lists
import PatternAudit.Proofs.Walk.Turns

set_option autoImplicit false

namespace PatternAudit

theorem FailOn.passes_append (policy : FailOn) (rs ss : List Report) :
    policy.passes (rs ++ ss) = (policy.passes rs && policy.passes ss) := by
  cases policy with
  | error => exact List.all_append
  | warning => exact List.all_append
  | never => rfl

/-- No reports pass under every policy. -/
theorem FailOn.passes_nil (policy : FailOn) : policy.passes [] = true := by
  cases policy <;> rfl

/-! ## Batches -/

namespace Batch

/-- A batch behind another one. -/
instance : Append Batch := ⟨fun a b => ⟨a.reports ++ b.reports, a.failures ++ b.failures⟩⟩

variable (a b : Batch) (engines : Dialect → Engine) (p : Profile)

theorem reports_append : (a ++ b).reports = a.reports ++ b.reports := rfl

theorem failures_append : (a ++ b).failures = a.failures ++ b.failures := rfl

theorem passed_append : (a ++ b).passed p = (a.passed p && b.passed p) :=
  p.failOn.passes_append a.reports b.reports

/-- **The exit code of two batches is the greater of theirs.** -/
theorem exitCode_append : (a ++ b).exitCode p = max (a.exitCode p) (b.exitCode p) := by
  simp only [exitCode, failures_append, passed_append]
  cases a.failures with
  | cons => cases b.failures <;> cases b.passed p <;> rfl
  | nil =>
    cases b.failures with
    | cons => cases a.passed p <;> rfl
    | nil => cases a.passed p <;> cases b.passed p <;> rfl

/-- What holds nothing is no failure. -/
theorem exitCode_empty : (Batch.mk [] []).exitCode p = 0 := by
  rw [exitCode, passed, p.failOn.passes_nil]
  rfl

theorem ofSources_append (xs ys : List (Source × Except Error Description)) :
    ofSources engines p (xs ++ ys) = ofSources engines p xs ++ ofSources engines p ys := by
  simp only [ofSources, ofAttempts, List.map_append, List.filterMap_append]
  rfl

end Batch

/-! ## Loading -/

namespace Source

/-- Without the standard input, each source is loaded as if it were the only one. -/
theorem loadAll_eq_map {sources : List Source} (h : standardInput ∉ sources) (d : Files.Disk)
    (inlets : Inlets) : loadAll d inlets sources = sources.map fun s => (s, s.load d inlets) := by
  induction sources with
  | nil => rfl
  | cons s rest ih =>
    rw [List.mem_cons, not_or] at h
    rw [loadAll, if_neg (Ne.symm h.1), ih h.2]
    rfl

/-- The sources of arguments are the sources of each of them, in order. -/
theorem exists_parts_of_ofArguments {d : Files.Disk} {arguments : List String}
    {sources : List Source} (h : ofArguments d arguments = .ok sources) :
    ∃ parts, List.Forall₂ (fun a part => ofArguments d [a] = .ok part) arguments parts ∧
      sources = parts.flatten := by
  obtain ⟨parts, hparts, hsources⟩ := bind_eq_ok_iff.1 h
  cases hsources
  refine ⟨parts, (mapM_eq_ok_iff.1 hparts).imp fun a part hpart => ?_, rfl⟩
  simp [ofArguments, hpart, bind, Except.bind, pure, Except.pure]

end Source

namespace Command

variable {m : Machine} {w : World} {p : Profile}

/-- The batch of sources as a run sees them. -/
def batchOf (m : Machine) (w : World) (p : Profile) (sources : List Source) : Batch :=
  .ofSources (m.engines p.ecmaTimeout) p (Source.loadAll w.disk w.inlets sources)

theorem batchOf_append {xs ys : List Source} (hx : .standardInput ∉ xs) (hy : .standardInput ∉ ys) :
    batchOf m w p (xs ++ ys) = batchOf m w p xs ++ batchOf m w p ys := by
  have hboth : Source.standardInput ∉ xs ++ ys := by
    rw [List.mem_append, not_or]
    exact ⟨hx, hy⟩
  simp only [batchOf, Source.loadAll_eq_map hboth, Source.loadAll_eq_map hx,
    Source.loadAll_eq_map hy, List.map_append, Batch.ofSources_append]

/-- **A batch is the sum of its parts**, however the sources are cut. -/
theorem batchOf_flatten (m : Machine) (w : World) (p : Profile) {parts : List (List Source)}
    (h : .standardInput ∉ parts.flatten) :
    (batchOf m w p parts.flatten).reports
        = parts.flatMap (fun part => (batchOf m w p part).reports) ∧
      (batchOf m w p parts.flatten).passed p
        = parts.all (fun part => (batchOf m w p part).passed p) ∧
      (batchOf m w p parts.flatten).exitCode p
        = (parts.map fun part => (batchOf m w p part).exitCode p).foldr max 0 := by
  induction parts with
  | nil => exact ⟨rfl, p.failOn.passes_nil, Batch.exitCode_empty p⟩
  | cons part rest ih =>
    rw [List.flatten_cons, List.mem_append, not_or] at h
    obtain ⟨hreports, hpassed, hexit⟩ := ih h.2
    rw [List.flatten_cons, batchOf_append h.1 h.2]
    refine ⟨?_, ?_, ?_⟩
    · rw [Batch.reports_append, hreports, List.flatMap_cons]
    · rw [Batch.passed_append, hpassed, List.all_cons]
    · rw [Batch.exitCode_append, hexit, List.map_cons, List.foldr_cons]

/-! ## Single sources -/

/-- Whether a source is passed over: a file that was only discovered and describes no API. -/
def passesOver (w : World) (s : Source) : Bool :=
  s.isDiscovered && match s.load w.disk w.inlets with
    | .error (.notDescription _) => true
    | _ => false

/-- The reports of a run over one source: the report of its audit, if it could be loaded. -/
def reportsAlone (m : Machine) (w : World) (p : Profile) (s : Source) : List Report :=
  match s.load w.disk w.inlets with
  | .ok d => [.ofDescription p d (m.engines p.ecmaTimeout)]
  | .error _ => []

/-- The exit code of a run over one source: 2 if it could not be loaded, 1 if its report fails
under the policy, else 0. -/
def exitAlone (m : Machine) (w : World) (p : Profile) (s : Source) : Nat :=
  match s.load w.disk w.inlets with
  | .ok d => if p.failOn.passes [.ofDescription p d (m.engines p.ecmaTimeout)] then 0 else 1
  | .error _ => if passesOver w s then 0 else 2

theorem batchOf_singleton (m : Machine) (w : World) (p : Profile) (s : Source) :
    batchOf m w p [s]
      = .ofAttempts [.ofSource (m.engines p.ecmaTimeout) p s (s.load w.disk w.inlets)] := rfl

/-- A source that is passed over leaves nothing behind. -/
theorem batchOf_of_passesOver {s : Source} (h : passesOver w s = true) :
    batchOf m w p [s] = ⟨[], []⟩ := by
  obtain ⟨hdiscovered, hload⟩ := Bool.and_eq_true_iff.1 h
  rw [batchOf_singleton]
  split at hload
  · rename_i reason heq
    rw [heq]
    simp [Batch.ofAttempts, Attempt.ofSource, hdiscovered, Attempt.report?, Attempt.failure?]
  · cases hload

/-- A source that cannot be loaded and is not passed over is a failure. -/
theorem batchOf_of_failed {s : Source} {e : Error} (hload : s.load w.disk w.inlets = .error e)
    (h : passesOver w s = false) : batchOf m w p [s] = ⟨[], [(s.name, e)]⟩ := by
  rw [batchOf_singleton, hload]
  rw [passesOver, hload] at h
  cases e with
  | notDescription reason =>
    have hnamed : s.isDiscovered = false := by simpa using h
    simp [Batch.ofAttempts, Attempt.ofSource, hnamed, Attempt.report?, Attempt.failure?]
  | _ => rfl

theorem batchOf_of_loaded {s : Source} {d : Description}
    (hload : s.load w.disk w.inlets = .ok d) :
    batchOf m w p [s] = ⟨[.ofDescription p d (m.engines p.ecmaTimeout)], []⟩ := by
  rw [batchOf_singleton, hload]
  rfl

/-- **What comes of one source alone.** -/
theorem batchOf_alone (m : Machine) (w : World) (p : Profile) (s : Source) :
    (batchOf m w p [s]).reports = reportsAlone m w p s ∧
      (batchOf m w p [s]).exitCode p = exitAlone m w p s := by
  unfold reportsAlone exitAlone
  cases hload : s.load w.disk w.inlets with
  | ok d =>
    rw [batchOf_of_loaded hload]
    exact ⟨rfl, rfl⟩
  | error e =>
    by_cases hpassed : passesOver w s = true
    · rw [batchOf_of_passesOver hpassed, Batch.exitCode_empty, if_pos hpassed]
      exact ⟨rfl, rfl⟩
    · rw [batchOf_of_failed hload (Bool.eq_false_iff.2 hpassed), if_neg hpassed]
      exact ⟨rfl, rfl⟩

/-- A batch is the sum of its sources. -/
theorem batchOf_singletons (m : Machine) (w : World) (p : Profile) {sources : List Source}
    (h : .standardInput ∉ sources) :
    (batchOf m w p sources).reports = sources.flatMap (reportsAlone m w p) ∧
      (batchOf m w p sources).passed p
        = sources.all (fun s => p.failOn.passes (reportsAlone m w p s)) ∧
      (batchOf m w p sources).exitCode p = (sources.map (exitAlone m w p)).foldr max 0 := by
  have hsingles : (sources.map fun s => [s]).flatten = sources := by
    rw [← List.flatMap_def, List.flatMap_singleton']
  have hcut := batchOf_flatten m w p (hsingles.symm ▸ h)
  simp only [hsingles, List.flatMap_map, List.all_map, List.map_map, Function.comp_def] at hcut
  simpa only [Batch.passed, batchOf_alone] using hcut

/-- Sources that are passed over could as well not be there. -/
theorem batchOf_filter {sources : List Source} (h : .standardInput ∉ sources) :
    batchOf m w p (sources.filter fun s => !passesOver w s) = batchOf m w p sources := by
  induction sources with
  | nil => rfl
  | cons s rest ih =>
    rw [List.mem_cons, not_or] at h
    have hs : Source.standardInput ∉ [s] := by
      rw [List.mem_singleton]
      exact h.1
    have hfilter : Source.standardInput ∉ rest.filter fun s => !passesOver w s :=
      fun hmem => h.2 (List.mem_filter.1 hmem).1
    have hsplit : batchOf m w p (s :: rest) = batchOf m w p [s] ++ batchOf m w p rest :=
      batchOf_append hs h.2
    by_cases hpassed : passesOver w s = true
    · rw [List.filter_cons_of_neg (by simp [hpassed]), ih h.2, hsplit,
        batchOf_of_passesOver hpassed]
      rfl
    · rw [List.filter_cons_of_pos (by simp [hpassed]), hsplit, ← ih h.2]
      exact batchOf_append hs hfilter

/-! ## Runs -/

/-- A request that gets as far as an audit, with the profile, the format and the sources that
it comes to. -/
structure Accepted (w : World) (r : AuditRequest) (p : Profile) (f : Format)
    (sources : List Source) : Prop where
  format : Format.ofName? r.format = some f
  profile : (do override (← loadProfile w.disk r.profile) r) = .ok p
  valid : p.validate = .ok ()
  sources : Source.ofArguments w.disk r.sources = .ok sources

variable {r : AuditRequest} {f : Format} {sources : List Source}

theorem Accepted.runAudit_eq (h : Accepted w r p f sources) (hsome : sources ≠ []) :
    runAudit m w r = auditSources m w p f r.showValid sources := by
  simp only [runAudit, h.format, h.profile, h.valid, h.sources]

/-- A run over no sources succeeds, so the exit code is that of the batch in any case. -/
theorem Accepted.exitCode_eq (h : Accepted w r p f sources) :
    (runAudit m w r).exitCode = (batchOf m w p sources).exitCode p := by
  cases sources with
  | nil =>
    simp only [runAudit, h.format, h.profile, h.valid, h.sources]
    exact (Batch.exitCode_empty p).symm
  | cons s rest =>
    rw [h.runAudit_eq (List.cons_ne_nil s rest)]
    rfl

/-- A request whose sources are accepted is accepted with each of its arguments alone, and its
sources are those of its arguments. -/
theorem Accepted.exists_parts (h : Accepted w r p f sources) :
    ∃ parts : List (List Source), sources = parts.flatten ∧
      List.Forall₂ (fun a part => Accepted w { r with sources := [a] } p f part)
        r.sources parts := by
  obtain ⟨parts, hparts, hsources⟩ := Source.exists_parts_of_ofArguments h.sources
  refine ⟨parts, hsources, hparts.imp fun a part hpart => ?_⟩
  exact { format := h.format, profile := h.profile, valid := h.valid, sources := hpart }

theorem length_keepAll (c : Cache) (d : Files.Disk) (now made : Nat) (reports : List Report) :
    (keepAll c d now made reports).1.length = reports.length := by
  induction reports generalizing c d made with
  | nil => rfl
  | cons report rest ih =>
    rw [keepAll, List.length_cons, List.length_cons, ih]

theorem length_keepReports (m : Machine) (w : World) (p : Profile) (reports : List Report) :
    (keepReports m w p reports).1.length = reports.length := by
  unfold keepReports
  split
  · exact length_keepAll ..
  · exact List.length_map _

/-- A run shows reports, each with its id, and a verdict on them. -/
structure Outcome.Shows (o : Outcome) (w : World) (f : Format) (showValid : Bool)
    (reports : List Report) (passed : Bool) : Prop where
  ids : o.ids.length = reports.length
  output : o.output
    = f.render w.color showValid ((reports.zip o.ids).map fun e => ⟨e.1, e.2⟩) passed

/-- A run over sources shows their batch. -/
theorem shows_auditSources (m : Machine) (w : World) (p : Profile) (f : Format) (showValid : Bool)
    (sources : List Source) :
    (auditSources m w p f showValid sources).Shows w f showValid (batchOf m w p sources).reports
      ((batchOf m w p sources).passed p) where
  ids := length_keepReports m w p _
  output := rfl

/-- A run over one source shows its report, and exits with its code. -/
theorem auditSources_singleton (m : Machine) (w : World) (p : Profile) (f : Format)
    (showValid : Bool) (s : Source) :
    let run := auditSources m w p f showValid [s]
    run.Shows w f showValid (reportsAlone m w p s) (p.failOn.passes (reportsAlone m w p s)) ∧
      run.exitCode = exitAlone m w p s := by
  obtain ⟨hreports, hexit⟩ := batchOf_alone m w p s
  refine ⟨?_, hexit⟩
  rw [← hreports]
  exact shows_auditSources m w p f showValid [s]

/-- **Auditing many sources is auditing each alone.** A run over files shows their reports in
the order of the files, and passes exactly if each passes alone. It exits with the greatest of
the codes that it would exit with for each of the files alone, which is also the greatest for
each of the arguments alone, and with 0 if there are none. Files that are passed over could as
well not be there. -/
theorem sources_audited_apart (h : Accepted w r p f sources) (hfiles : .standardInput ∉ sources) :
    let run := runAudit m w r
    let alone := fun s => auditSources m w p f r.showValid [s]
    (sources ≠ [] → run.Shows w f r.showValid (sources.flatMap (reportsAlone m w p))
        (sources.all fun s => p.failOn.passes (reportsAlone m w p s))) ∧
      run.exitCode = (sources.map (exitAlone m w p)).foldr max 0 ∧
      run.exitCode
        = (r.sources.map fun a => (runAudit m w { r with sources := [a] }).exitCode).foldr max 0 ∧
      (∀ s ∈ sources, (alone s).exitCode = exitAlone m w p s ∧
        (alone s).Shows w f r.showValid (reportsAlone m w p s)
          (p.failOn.passes (reportsAlone m w p s))) ∧
      auditSources m w p f r.showValid sources
        = auditSources m w p f r.showValid (sources.filter fun s => !passesOver w s) := by
  intro run alone
  obtain ⟨hreports, hpassed, hexit⟩ := batchOf_singletons m w p hfiles
  refine ⟨?_, ?_, ?_, ?_, ?_⟩
  · intro hsome
    have hrun : run = auditSources m w p f r.showValid sources := h.runAudit_eq hsome
    rw [hrun, ← hreports, ← hpassed]
    exact shows_auditSources m w p f r.showValid sources
  · exact h.exitCode_eq.trans hexit
  · obtain ⟨parts, hparts, harguments⟩ := h.exists_parts
    have hcut := (batchOf_flatten m w p (hparts ▸ hfiles)).2.2
    rw [← hparts, ← h.exitCode_eq] at hcut
    have heach : (r.sources.map fun a => (runAudit m w { r with sources := [a] }).exitCode)
        = parts.map fun part => (batchOf m w p part).exitCode p := by
      rw [← List.forall₂_eq_eq_eq, List.forall₂_map_left_iff, List.forall₂_map_right_iff]
      exact harguments.imp fun a part hpart => hpart.exitCode_eq
    rw [heach]
    exact hcut
  · intro s _
    exact (auditSources_singleton m w p f r.showValid s).symm
  · have hfilter :
        batchOf m w p (sources.filter fun s => !passesOver w s) = batchOf m w p sources :=
      batchOf_filter hfiles
    unfold batchOf at hfilter
    simp only [auditSources, hfilter]

/-- A description with one pattern, under the name of its file. -/
def pets : Description where
  name := "pets.json"
  root := .obj [("swagger", .str "2.0"),
    ("definitions", .obj [("Name", .obj [("pattern", .str "^[a-z]+$")])])]
  source := "\x7b\"swagger\":\"2.0\","
    ++ "\"definitions\":\x7b\"Name\":\x7b\"pattern\":\"^[a-z]+$\"\x7d\x7d\x7d"
  distinct := rfl

/-- Files with a description, with one that is cut off, and with notes in a directory. -/
def petFiles : World where
  disk :=
    { root := .directory [
        (pets.name, .file ⟨.text pets.source, 0⟩),
        ("specs", .directory [("notes.json", .file ⟨.text "\x7b\x7d", 0⟩)]),
        ("toys.json", .file ⟨.text "\x7b\"openapi\"", 0⟩)]
      current := [] }
  inlets := ⟨.text "", fun address => .error (.fetch address "no network")⟩
  now := 0
  cacheDirectory := none
  color := false

/-- Asks for an audit of all of them under ECMAScript, with little time for each pattern. -/
def allPets : AuditRequest where
  sources := [pets.name, "specs", "toys.json"]
  profile := none
  format := "json"
  dialects := ["js"]
  checks := []
  allChecks := false
  failOn := none
  maxDepth := none
  ecmaTimeout := some 50
  noLineNumbers := false
  noCache := false
  showValid := false

/-- The profile that the request comes to. -/
def petProfile : Profile := { Profile.default with dialects := ["js"], ecmaTimeout := 50 }

/-- The sources that the request comes to. -/
def petSources : List Source :=
  [.file pets.name true, .file "specs/notes.json" false, .file "toys.json" true]

/-- A machine on which no check under ECMAScript comes to an end. -/
def hanging : Machine where
  engines := Dialect.enginesWithin fun _ => .hangs

/-- The pattern of a file is not checked in time, so its report fails; the next file is passed
over, and the last one cannot be read. The run shows the report of the first, and exits with the
code of the last. -/
theorem allPets_audited_apart :
    Accepted petFiles allPets petProfile .json petSources ∧ .standardInput ∉ petSources ∧
      petSources.map (exitAlone hanging petFiles petProfile) = [1, 0, 2] ∧
      (runAudit hanging petFiles allPets).exitCode = 2 ∧
      (runAudit hanging petFiles allPets).Shows petFiles .json false
        [.ofDescription petProfile pets (hanging.engines 50)] false := by
  have haccepted : Accepted petFiles allPets petProfile .json petSources :=
    { format := rfl, profile := rfl, valid := by decide +kernel, sources := by decide +kernel }
  have hfiles : Source.standardInput ∉ petSources := by decide
  have hpets : (Source.file pets.name true).load petFiles.disk petFiles.inlets = .ok pets := rfl
  have hfails : petProfile.failOn.passes [.ofDescription petProfile pets (hanging.engines 50)]
      = false := by
    have hpatterns : Walk.patterns ⟨pets.root, petProfile.limits⟩
        = [("#/definitions/Name", "^[a-z]+$")] := Walk.patterns_of_test 4 (by decide +kernel)
    have hactive : .ecma ∈ petProfile.activeDialects := by decide +kernel
    rw [Bool.eq_false_iff]
    intro hpasses
    have haccepts := (Report.passes_error_audit_iff _ _).1 hpasses
      ("#/definitions/Name", "^[a-z]+$") (hpatterns ▸ List.mem_singleton_self _) rfl .ecma hactive
    cases haccepts
  have hcodes : petSources.map (exitAlone hanging petFiles petProfile) = [1, 0, 2] := by
    have hpet : exitAlone hanging petFiles petProfile (.file pets.name true) = 1 := by
      rw [exitAlone, hpets]
      exact if_neg (Bool.eq_false_iff.1 hfails)
    have hothers : [Source.file "specs/notes.json" false, .file "toys.json" true].map
        (exitAlone hanging petFiles petProfile) = [0, 2] := by decide +kernel
    rw [petSources, List.map_cons, hpet, hothers]
  have hreports : petSources.flatMap (reportsAlone hanging petFiles petProfile)
      = [.ofDescription petProfile pets (hanging.engines 50)] := rfl
  obtain ⟨hshows, hexit, -⟩ := sources_audited_apart (m := hanging) haccepted hfiles
  refine ⟨haccepted, hfiles, hcodes, ?_, ?_⟩
  · rw [hexit, hcodes]
    rfl
  · have hall : petSources.all (fun s => petProfile.failOn.passes
        (reportsAlone hanging petFiles petProfile s)) = false := by
      show (petProfile.failOn.passes [.ofDescription petProfile pets (hanging.engines 50)] && true)
        = false
      rw [hfails]
      rfl
    rw [hreports, hall] at hshows
    exact hshows (by decide)

end Command

end PatternAudit
