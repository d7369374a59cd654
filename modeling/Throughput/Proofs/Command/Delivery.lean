/-
  Throughput/Proofs/Command/Delivery.lean
  =======================================
  **What a command delivers.**  A command that can read what it is given and write where it
  is told to delivers its report in any case, and succeeds exactly if every candidate line
  was recognized (`disk_and_timeline_deliver`).  If not, the report withholds its statistics,
  the failure counts the lines in question, and the target of the series stays as it is.

  The plan of a command comes down to two texts that are sent one after the other, or to
  the report alone (`perform_deliver`, `perform_deliver_withheld`); what these sendings do
  to the world is known from `World.Sent`.
-/
import Throughput.Proofs.Command.Hindrances
import Throughput.Proofs.Delivery.Arrivals

namespace Throughput

/-! ### Texts and targets -/

def OutputFormat.render (a : Analysis) : OutputFormat → String
  | text => a.plainText
  | markdown => a.markdown
  | json => a.fileText

/-- Where a report goes: it is printed, or written to a file.  A report in JSON is never
    printed. -/
def OutputOptions.target (title : String) (output : OutputOptions) : Option Path :=
  match output.format with
  | .json => some (output.report.getD (Plan.reportDirectory.join (title ++ ".json")))
  | _ => output.report

/-- The effects that write the series, if they are wanted. -/
def OutputOptions.exportSeries (text : String) (output : OutputOptions) : List Effect :=
  match output.series with
  | some path => Effect.writeBelow path text
  | none => []

/-- Whatever the texts, the report can be written, and the series before it; and the two go
    to different outlets. -/
structure World.CanDeliver (w : World) (title : String) (output : OutputOptions) : Prop where
  report : ∀ text, ∃ after,
    Effect.performAll w (Effect.sendTo text (output.target title)) = (.ok (), after)
  both : ∀ path, output.series = some path → ∀ first second, ∃ after,
    Effect.performAll w (Effect.writeBelow path first ++
      Effect.sendTo second (output.target title)) = (.ok (), after)
  distinct : ∀ path, output.series = some path →
    w.tree.outlet (some path) ≠ w.tree.outlet (output.target title)

theorem Effect.performAll_append_eq_ok {w after : World} {first second : List Effect} :
    performAll w (first ++ second) = (.ok (), after) ↔
      ∃ between, performAll w first = (.ok (), between) ∧
        performAll between second = (.ok (), after) := by
  rw [performAll_append]
  split
  next between h => simp [h]
  next e between h => simp [h]

/-! ### Plans -/

namespace Plan

variable {κ : Type} [SeriesKey κ] {w between after : World} {s : Settings} {now : Stamp}
  {title : String} {output : OutputOptions} {c : Collection κ} {report : Report κ} {p : Plan}

theorem performAll_of_effects {steps : List Step}
    (h : Effect.performAll w (steps.map (·.effect)) = (.ok (), after)) :
    Step.performAll w steps = (.ok (), after) := by
  induction steps generalizing w with
  | nil =>
    cases h
    rfl
  | cons step rest ih =>
    obtain ⟨between, hstep, hrest⟩ := Effect.performAll_cons_eq_ok.1 h
    rw [Step.performAll, hstep]
    exact ih hrest

theorem map_effect_all (failure : IoError → CommandFailure) (effects : List Effect) :
    (Step.all failure effects).map (·.effect) = effects := by
  rw [Step.all, List.map_map]
  exact List.map_id effects

/-- The steps that open a sink and serve it. -/
def reportSteps (title : String) (output : OutputOptions) (a : Analysis) : List Step :=
  (sink title output).2 ++ Step.all .notEmitted ((sink title output).1.effects a)

/-- Serving a sink is as good as sending the text of the report. -/
theorem performAll_reportSteps {a : Analysis}
    (h : Effect.performAll w (Effect.sendTo (output.format.render a) (output.target title)) =
      (.ok (), after)) :
    Effect.performAll w ((reportSteps title output a).map (·.effect)) = (.ok (), after) := by
  obtain ⟨format, path, series⟩ := output
  cases format with
  | json => exact h
  | text =>
    cases path with
    | none => exact h
    | some path => exact World.performAll_overwrite h
  | markdown =>
    cases path with
    | none => exact h
    | some path => exact World.performAll_overwrite h

theorem perform_of_effects
    (h : Effect.performAll w (p.steps.map (·.effect)) = (.ok (), after)) :
    p.perform w = (p.verdict, after) := by
  rw [perform, performAll_of_effects h]

/-- The steps that export the series, unless they are withheld. -/
def exportSteps (withheld : Bool) (text : String) (output : OutputOptions) : List Step :=
  match output.series with
  | some path => if withheld then [] else seriesSteps path text
  | none => []

theorem deliver_eq (hreport : c.summarize s.percentiles = .ok report) :
    deliver s now title c output = .ok {
      steps := exportSteps report.withheld
          (ChartSeries.fileText (c.groups.map ChartSeries.ofGroup)) output ++
        reportSteps title output (.ofReport title now report)
      verdict :=
        if report.withheld then .error (.withheld report.unrecognized.length) else .ok () } := by
  unfold deliver
  rw [hreport, reportSteps, ← List.append_assoc]
  rfl

theorem exportSteps_withheld (text : String) (output : OutputOptions) :
    exportSteps true text output = [] := by
  unfold exportSteps
  cases output.series <;> rfl

theorem map_effect_exportSteps (text : String) (output : OutputOptions) :
    (exportSteps false text output).map (·.effect) = output.exportSeries text := by
  unfold exportSteps OutputOptions.exportSeries
  cases output.series with
  | none => rfl
  | some path => exact map_effect_all _ _

/-- A withheld report is sent alone, and the command fails behind it. -/
theorem perform_deliver_withheld (hreport : c.summarize s.percentiles = .ok report)
    (hwithheld : report.withheld = true) (hp : deliver s now title c output = .ok p)
    (h : Effect.performAll w (Effect.sendTo
      (output.format.render (.ofReport title now report)) (output.target title)) =
        (.ok (), after)) :
    p.perform w = (.error (.withheld report.unrecognized.length), after) := by
  rw [deliver_eq hreport, hwithheld, exportSteps_withheld] at hp
  cases hp
  exact perform_of_effects (performAll_reportSteps h)

/-- A report with statistics is sent behind the series, and the command succeeds. -/
theorem perform_deliver (hreport : c.summarize s.percentiles = .ok report)
    (hwithheld : report.withheld = false) (hp : deliver s now title c output = .ok p)
    (hseries : Effect.performAll w (output.exportSeries
      (ChartSeries.fileText (c.groups.map ChartSeries.ofGroup))) = (.ok (), between))
    (h : Effect.performAll between (Effect.sendTo
      (output.format.render (.ofReport title now report)) (output.target title)) =
        (.ok (), after)) :
    p.perform w = (.ok (), after) := by
  rw [deliver_eq hreport, hwithheld] at hp
  cases hp
  refine perform_of_effects ?_
  rw [List.map_append, map_effect_exportSteps]
  exact Effect.performAll_append_eq_ok.2 ⟨between, hseries, performAll_reportSteps h⟩

end Plan

/-! ### Reports and their candidates -/

namespace Collection

variable {κ : Type} {c : Collection κ} {report : Report κ} {ranks : List Binary64}
  {candidates : List Reading}

theorem unrecognized_of_summarize (h : c.summarize ranks = .ok report) :
    report.unrecognized = c.unrecognized.map Reading.rawFields := by
  rcases summarize_eq_ok_iff.1 h with ⟨htrust, series, -, rfl⟩ | ⟨-, rfl⟩
  · rw [List.isEmpty_iff.1 htrust]
    rfl
  · rfl

theorem withheld_iff_of_summarize (hc : c.unrecognized = candidates.filter (!·.isRecognized))
    (h : c.summarize ranks = .ok report) :
    report.withheld = true ↔ ∃ r ∈ candidates, r.isRecognized = false := by
  rw [withheld_of_summarize h, isTrustworthy, hc]
  simp

theorem recognized_of_summarize (hc : c.unrecognized = candidates.filter (!·.isRecognized))
    (h : c.summarize ranks = .ok report) (hwithheld : report.withheld = false) :
    ∀ r ∈ candidates, r.isRecognized = true := by
  intro r hr
  by_contra hnot
  have hsome : ∃ r ∈ candidates, r.isRecognized = false := ⟨r, hr, by simpa using hnot⟩
  rw [(withheld_iff_of_summarize hc h).2 hsome] at hwithheld
  cases hwithheld

end Collection

/-! ### Delivery -/

/-- How a command ends that collected candidate lines: the report is delivered, and nothing
    else but the series.  They are delivered if all candidates were recognized, and only
    then does the command succeed. -/
structure Delivered {κ : Type} [SeriesKey κ] (ranks : List Binary64) (now : Stamp)
    (title : String) (output : OutputOptions) (candidates : List Reading) (c : Collection κ)
    (w : World) (outcome : Except CommandFailure Unit) (after : World) : Prop where
  report : ∃ report, c.summarize ranks = .ok report ∧
    (report.withheld = true ↔ ∃ r ∈ candidates, r.isRecognized = false) ∧
    report.unrecognized = (candidates.filter (!·.isRecognized)).map Reading.rawFields ∧
    w.Received after (output.format.render (.ofReport title now report)) (output.target title)
  succeeds_iff : outcome = .ok () ↔ ∀ r ∈ candidates, r.isRecognized = true
  message : ∀ failure, outcome = .error failure → failure.message =
    natText (candidates.filter (!·.isRecognized)).length ++
      " reading(s) could not be recognized; statistics withheld"
  series_kept : outcome ≠ .ok () → ∀ path, output.series = some path →
    after.tree.node? (w.tree.destination path) = w.tree.node? (w.tree.destination path)
  series_received : outcome = .ok () → ∀ path, output.series = some path →
    w.Received after (ChartSeries.fileText (c.groups.map ChartSeries.ofGroup)) (some path)
  elsewhere : ∀ place, w.tree.targetPlace (output.target title) ≠ some place →
    w.tree.targetPlace output.series ≠ some place → after.tree.node? place = w.tree.node? place ∨
      (w.tree.node? place = none ∧ after.tree.node? place = some .directory)
  silent : w.tree.outlet (output.target title) ≠ .output →
    (∀ path, output.series = some path → w.tree.outlet (some path) ≠ .output) →
    after.printed = w.printed

namespace Plan

variable {κ : Type} [SeriesKey κ] {w after : World} {s : Settings} {now : Stamp}
  {title : String} {output : OutputOptions} {c : Collection κ} {report : Report κ} {p : Plan}
  {candidates : List Reading}

theorem delivered_withheld (hcan : w.CanDeliver title output)
    (hc : c.unrecognized = candidates.filter (!·.isRecognized))
    (hreport : c.summarize s.percentiles = .ok report) (hwithheld : report.withheld = true)
    (hp : deliver s now title c output = .ok p) :
    Delivered s.percentiles now title output candidates c w (p.perform w).1 (p.perform w).2 := by
  obtain ⟨after, hsend⟩ := hcan.report (output.format.render (.ofReport title now report))
  rw [perform_deliver_withheld hreport hwithheld hp hsend]
  have hsent := World.sent_of_sendTo hsend
  have hiff := Collection.withheld_iff_of_summarize hc hreport
  have hfields := Collection.unrecognized_of_summarize hreport
  rw [hc] at hfields
  refine ⟨⟨report, hreport, hiff, hfields, hsent.received⟩, ?_, ?_, ?_, ?_, ?_, ?_⟩
  · obtain ⟨r, hr, hnot⟩ := hiff.1 hwithheld
    refine iff_of_false (fun h => by cases h) fun h => ?_
    rw [h r hr] at hnot
    cases hnot
  · intro failure h
    cases h
    rw [hfields, List.length_map]
    rfl
  · intro _ path hpath
    obtain ⟨last, hboth⟩ := hcan.both path hpath "" ""
    obtain ⟨between, hfirst, hsecond⟩ := Effect.performAll_append_eq_ok.1 hboth
    exact hsent.kept_first (World.sent_of_writeBelow hfirst) (World.sent_of_sendTo hsecond)
      (hcan.distinct path hpath)
  · intro h
    cases h
  · exact fun place htarget _ => hsent.changes.elsewhere place htarget
  · exact fun htarget _ => hsent.silent htarget

theorem delivered_without_series (hcan : w.CanDeliver title output)
    (hc : c.unrecognized = candidates.filter (!·.isRecognized))
    (hreport : c.summarize s.percentiles = .ok report) (hwithheld : report.withheld = false)
    (hseries : output.series = none) (hp : deliver s now title c output = .ok p) :
    Delivered s.percentiles now title output candidates c w (p.perform w).1 (p.perform w).2 := by
  obtain ⟨after, hsend⟩ := hcan.report (output.format.render (.ofReport title now report))
  have hnone : Effect.performAll w (output.exportSeries
      (ChartSeries.fileText (c.groups.map ChartSeries.ofGroup))) = (.ok (), w) := by
    rw [OutputOptions.exportSeries, hseries]
    rfl
  rw [perform_deliver hreport hwithheld hp hnone hsend]
  have hsent := World.sent_of_sendTo hsend
  have hiff := Collection.withheld_iff_of_summarize hc hreport
  have hfields := Collection.unrecognized_of_summarize hreport
  rw [hc] at hfields
  have hall := Collection.recognized_of_summarize hc hreport hwithheld
  refine ⟨⟨report, hreport, hiff, hfields, hsent.received⟩, iff_of_true rfl hall, ?_, ?_, ?_, ?_,
    ?_⟩
  · intro failure h
    cases h
  · exact fun h => absurd rfl h
  · intro _ path hpath
    rw [hseries] at hpath
    cases hpath
  · exact fun place htarget _ => hsent.changes.elsewhere place htarget
  · exact fun htarget _ => hsent.silent htarget

theorem delivered_with_series {path : Path} (hcan : w.CanDeliver title output)
    (hc : c.unrecognized = candidates.filter (!·.isRecognized))
    (hreport : c.summarize s.percentiles = .ok report) (hwithheld : report.withheld = false)
    (hseries : output.series = some path) (hp : deliver s now title c output = .ok p) :
    Delivered s.percentiles now title output candidates c w (p.perform w).1 (p.perform w).2 := by
  obtain ⟨after, hboth⟩ := hcan.both path hseries
    (ChartSeries.fileText (c.groups.map ChartSeries.ofGroup))
    (output.format.render (.ofReport title now report))
  obtain ⟨between, hfirst, hsecond⟩ := Effect.performAll_append_eq_ok.1 hboth
  have hexport : Effect.performAll w (output.exportSeries
      (ChartSeries.fileText (c.groups.map ChartSeries.ofGroup))) = (.ok (), between) := by
    rw [OutputOptions.exportSeries, hseries]
    exact hfirst
  rw [perform_deliver hreport hwithheld hp hexport hsecond]
  have h₁ := World.sent_of_writeBelow hfirst
  have h₂ := World.sent_of_sendTo hsecond
  have hdistinct := hcan.distinct path hseries
  have hiff := Collection.withheld_iff_of_summarize hc hreport
  have hfields := Collection.unrecognized_of_summarize hreport
  rw [hc] at hfields
  have hall := Collection.recognized_of_summarize hc hreport hwithheld
  refine ⟨⟨report, hreport, hiff, hfields, h₁.received_second h₂ hdistinct⟩,
    iff_of_true rfl hall, ?_, ?_, ?_, ?_, ?_⟩
  · intro failure h
    cases h
  · exact fun h => absurd rfl h
  · intro _ other hother
    rw [hseries] at hother
    cases hother
    exact h₁.received_first h₂ hdistinct
  · intro place htarget hplace
    rw [hseries] at hplace
    exact h₁.elsewhere_both h₂ (fun h => hplace (congrArg some h)) htarget
  · intro htarget hsilent
    rw [← h₁.outlet_eq hdistinct] at htarget
    rw [h₂.silent htarget]
    exact h₁.silent (hsilent path hseries)

theorem exists_delivered (hranks : ∀ rank ∈ s.percentiles, Quantity.isRank rank = true)
    (hcan : w.CanDeliver title output)
    (hc : c.unrecognized = candidates.filter (!·.isRecognized)) :
    ∃ p, deliver s now title c output = .ok p ∧
      Delivered s.percentiles now title output candidates c w (p.perform w).1 (p.perform w).2 := by
  obtain ⟨report, hreport⟩ := c.exists_summarize hranks
  obtain ⟨p, hp⟩ : ∃ p, deliver s now title c output = .ok p := ⟨_, deliver_eq hreport⟩
  refine ⟨p, hp, ?_⟩
  cases hwithheld : report.withheld with
  | true => exact delivered_withheld hcan hc hreport hwithheld hp
  | false =>
    cases hseries : output.series with
    | none => exact delivered_without_series hcan hc hreport hwithheld hseries hp
    | some path => exact delivered_with_series hcan hc hreport hwithheld hseries hp

end Plan

/-! ### Commands -/

/-- The readings on the candidate lines of logs. -/
def readingsOfLogs (d : Delimiter) (texts : List (List UInt8)) : List Reading :=
  texts.flatMap fun bytes => Source.readings d ⟨bytes, none⟩

namespace Session

def afterLogs (d : Delimiter) (rule : BandwidthRule) (texts : List (List UInt8)) : Session Unit :=
  after d rule (texts.map fun bytes => .disk (fun _ => ()) ⟨bytes, none⟩)

theorem unrecognized_afterLogs (d : Delimiter) (rule : BandwidthRule)
    (texts : List (List UInt8)) : (afterLogs d rule texts).finish.unrecognized =
      (readingsOfLogs d texts).filter (!·.isRecognized) := by
  rw [finish, afterLogs, unrecognized_after, List.flatMap_map]
  rfl

end Session

/-- The logs of a timeline, with the runs that a manifest lists for them. -/
def Manifest.ShowsRuns (m : Manifest) (files : Files) (logs : List RunInput)
    (runs : List (Run × List UInt8)) : Prop :=
  List.Forall₂ (fun log run => m.Lists log.run run.1 ∧ files.Shows log.path run.2) logs runs

namespace Plan

variable {files : Files} {s : Settings} {now : Stamp} {output : OutputOptions} {w : World}
  {m : Manifest} {logs : List RunInput} {runs : List (Run × List UInt8)}

theorem exists_delivered_disk (hranks : ∀ rank ∈ s.percentiles, Quantity.isRank rank = true)
    {logs : List Path} {texts : List (List UInt8)} (hlogs : List.Forall₂ files.Shows logs texts)
    (hcan : w.CanDeliver "disk" output) :
    ∃ p, disk files s now logs output = .ok p ∧
      Delivered s.percentiles now "disk" output (readingsOfLogs s.delimiter texts)
        (Session.afterLogs s.delimiter s.bandwidth texts).finish w (p.perform w).1
        (p.perform w).2 := by
  have hread : logs.mapM (Intake.readLog files) = .ok texts :=
    mapM_eq_ok_iff.2 (hlogs.imp fun _ _ => Intake.readLog_eq_ok_iff.2)
  rw [disk_eq, hread]
  exact exists_delivered hranks hcan (Session.unrecognized_afterLogs s.delimiter s.bandwidth texts)

theorem exists_found (h : m.ShowsRuns files logs runs) :
    ∃ found, (logs.mapM fun log => do return (← Intake.logRun m log, log.path)) = .ok found ∧
      (found.mapM fun run => (Intake.readLog files run.2).map (run.1, ·)) = .ok runs := by
  simp only [mapM_eq_ok_iff]
  refine exists_forall₂_iff_comp.2 (h.imp fun log run hrun => ⟨(run.1, log.path), ?_, ?_⟩)
  · exact Intake.runAndPath_eq_ok_iff.2 ⟨hrun.1, rfl⟩
  · exact map_eq_ok_iff.2 ⟨run.2, Intake.readLog_eq_ok_iff.2 hrun.2, rfl⟩

theorem exists_delivered_timelineBy
    (hranks : ∀ rank ∈ s.percentiles, Quantity.isRank rank = true) {found : List (Run × Path)}
    (hfound : (found.mapM fun run => (Intake.readLog files run.2).map (run.1, ·)) = .ok runs)
    (hcan : w.CanDeliver "timeline" output) {κ : Type} [SeriesKey κ] {key : Run → Reading → κ}
    {finish : Session κ → Collection κ}
    (hfinish : ∀ t : Session κ, (finish t).unrecognized = t.unrecognized.toList) :
    ∃ p, timelineBy files s now found key finish output = .ok p ∧
      Delivered s.percentiles now "timeline" output ((readingsOf s.delimiter runs).map (·.2))
        (finish (Session.afterRuns s.delimiter s.bandwidth key runs)) w (p.perform w).1
        (p.perform w).2 := by
  rw [timelineBy_eq, hfound]
  refine exists_delivered hranks hcan ?_
  rw [hfinish, Session.unrecognized_afterRuns]
  rfl

/-- How a timeline is delivered, by what makes a series of it. -/
def DeliveredBy (grouping : Grouping) (s : Settings) (now : Stamp) (output : OutputOptions)
    (runs : List (Run × List UInt8)) (w : World) (outcome : Except CommandFailure Unit)
    (after : World) : Prop :=
  let candidates := (readingsOf s.delimiter runs).map (·.2)
  match grouping with
  | .label => Delivered s.percentiles now "timeline" output candidates
      (Session.byLabel s.delimiter s.bandwidth runs) w outcome after
  | .date => Delivered s.percentiles now "timeline" output candidates
      (Session.byDay s.delimiter s.bandwidth runs) w outcome after
  | .timestamp => Delivered s.percentiles now "timeline" output candidates
      (Session.byTime s.delimiter s.bandwidth runs) w outcome after

theorem exists_delivered_timeline (hranks : ∀ rank ∈ s.percentiles, Quantity.isRank rank = true)
    {path : Path} (hm : files.ShowsManifest s.manifest path m)
    (hruns : m.ShowsRuns files logs runs) (hcan : w.CanDeliver "timeline" output)
    (grouping : Grouping) :
    ∃ p, timeline files s now path grouping logs output = .ok p ∧
      DeliveredBy grouping s now output runs w (p.perform w).1 (p.perform w).2 := by
  obtain ⟨found, hfound, hread⟩ := exists_found hruns
  rw [timeline, Intake.readManifest_eq_ok_iff.2 hm]
  simp only [bind, Except.bind] at hfound ⊢
  rw [hfound]
  cases grouping with
  | label => exact exists_delivered_timelineBy hranks hread hcan fun _ => rfl
  | date => exact exists_delivered_timelineBy hranks hread hcan fun _ => rfl
  | timestamp => exact exists_delivered_timelineBy hranks hread hcan fun _ => rfl

end Plan

namespace Invocation

open Plan

/-- **What can be read is delivered.**  Let the settings be loaded, the manifest and the logs
    be read, the runs be listed, and the targets of the report and of the series be distinct
    and such that both can be written.  Then the report of `disk` and of `timeline` is
    delivered, whatever its format and whatever makes a series of it.  The command succeeds
    exactly if all candidate lines were recognized, and the series are then delivered as
    well; otherwise the report is withheld, the failure names the number of lines that were
    not recognized, and the target of the series is as before. -/
theorem disk_and_timeline_deliver (env : Environment) (emphasis : Emphasis) (now : Stamp)
    (w : World) (settings : Option Path) (s : Settings)
    (hs : Settings.load w.tree.read env settings = .ok s) (d : Option Delimiter)
    (output : OutputOptions) :
    (∀ logs texts, List.Forall₂ w.tree.read.Shows logs texts → w.CanDeliver "disk" output →
      let outcome := Invocation.run env emphasis now w ⟨settings, .disk logs d output⟩
      let t := s.withDelimiter d
      Delivered t.percentiles now "disk" output (readingsOfLogs t.delimiter texts)
        (Session.afterLogs t.delimiter t.bandwidth texts).finish w outcome.1 outcome.2) ∧
    ∀ manifest grouping logs m runs, w.tree.read.ShowsManifest s.manifest manifest m →
      m.ShowsRuns w.tree.read logs runs → w.CanDeliver "timeline" output →
      let outcome :=
        Invocation.run env emphasis now w ⟨settings, .timeline manifest grouping logs d output⟩
      DeliveredBy grouping (s.withDelimiter d) now output runs w outcome.1 outcome.2 := by
  -- another delimiter leaves the percentiles of the settings as they are
  have hchecked := Settings.isRank_of_load hs
  have hranks : ∀ rank ∈ (s.withDelimiter d).percentiles, Quantity.isRank rank = true := hchecked
  have hrun : ∀ (command : Command) (p : Plan),
      plan w.tree.read env emphasis now ⟨settings, command⟩ = .ok p →
        Invocation.run env emphasis now w ⟨settings, command⟩ = p.perform w := by
    intro command p h
    rw [run, h]
  constructor
  · intro logs texts hlogs hcan outcome t
    obtain ⟨p, hp, hdelivered⟩ : ∃ p, Plan.disk w.tree.read t now logs output = .ok p ∧
        Delivered t.percentiles now "disk" output (readingsOfLogs t.delimiter texts)
          (Session.afterLogs t.delimiter t.bandwidth texts).finish w (p.perform w).1
          (p.perform w).2 :=
      exists_delivered_disk hranks hlogs hcan
    have hplan : plan w.tree.read env emphasis now ⟨settings, .disk logs d output⟩ = .ok p :=
      exceptBind_eq_ok.2 ⟨s, mapError_eq_ok_iff.2 hs, hp⟩
    have houtcome : outcome = p.perform w := hrun _ p hplan
    rw [houtcome]
    exact hdelivered
  · intro manifest grouping logs m runs hm hruns hcan outcome
    obtain ⟨p, hp, hdelivered⟩ :
        ∃ p, Plan.timeline w.tree.read (s.withDelimiter d) now manifest grouping logs output =
            .ok p ∧
          DeliveredBy grouping (s.withDelimiter d) now output runs w (p.perform w).1
            (p.perform w).2 :=
      exists_delivered_timeline hranks hm hruns hcan grouping
    have hplan : plan w.tree.read env emphasis now
        ⟨settings, .timeline manifest grouping logs d output⟩ = .ok p :=
      exceptBind_eq_ok.2 ⟨s, mapError_eq_ok_iff.2 hs, hp⟩
    have houtcome : outcome = p.perform w := hrun _ p hplan
    rw [houtcome]
    exact hdelivered

/-- A report written over an older one, with series next to it; and the timeline by days of
    the same log and of one that has a line in a shape of its own. -/
theorem disk_and_timeline_deliver_trusted_and_withheld :
    let good := textBytes "r, a, 100\nw, a, 50\n"
    let torn := textBytes "r, a, 10\nrw\n"
    let w : World := ⟨⟨["home"], [(["home"], .directory),
      (["report.md", "home"], .file (textBytes "an older report")),
      (["runs.txt", "home"], .file (textBytes "* 1 -- 8/31 -- 9 am\n* 2 -- 9/2 -- 1 pm\n")),
      (["1.log", "home"], .file good), (["2.log", "home"], .file torn)]⟩, ""⟩
    let monday := Date.atClock ⟨2015, 8, 31, by decide⟩ 9 0 0
    let wednesday := Date.atClock ⟨2015, 9, 2, by decide⟩ 13 0 0
    let s := Settings.standard
    let plain : OutputOptions := ⟨.markdown, some ⟨"report.md"⟩, some ⟨"disk.json"⟩⟩
    let daily : OutputOptions := ⟨.json, some ⟨"report.json"⟩, some ⟨"days.json"⟩⟩
    let disk := Invocation.run [] .plain wednesday w ⟨none, .disk [⟨"1.log"⟩] none plain⟩
    let timeline := Invocation.run [] .plain wednesday w ⟨none, .timeline ⟨"runs.txt"⟩ .date
      [⟨some "1", ⟨"1.log"⟩⟩, ⟨some "2", ⟨"2.log"⟩⟩] none daily⟩
    (disk.1 = .ok () ∧
      Delivered s.percentiles wednesday "disk" plain (readingsOfLogs .comma [good])
        (Session.afterLogs .comma .standard [good]).finish w disk.1 disk.2) ∧
    timeline.1 ≠ .ok () ∧
      DeliveredBy .date s wednesday daily [(⟨"1", monday⟩, good), (⟨"2", wednesday⟩, torn)] w
        timeline.1 timeline.2 ∧
      timeline.2.tree.node? ["days.json", "home"] = none := by
  intro good torn w monday wednesday s plain daily disk timeline
  have hs : Settings.load w.tree.read [] none = .ok s := by decide +kernel
  have hplain : w.CanDeliver "disk" plain := by
    refine ⟨fun text => ⟨_, rfl⟩, ?_, ?_⟩
    · rintro path ⟨⟩ first second
      exact ⟨_, rfl⟩
    · rintro path ⟨⟩ h
      have hplaces : ["disk.json", "home"] = ["report.md", "home"] := Outlet.place.inj h
      exact absurd hplaces (by decide)
  have hdaily : w.CanDeliver "timeline" daily := by
    have htarget : daily.target "timeline" = some ⟨"report.json"⟩ := rfl
    constructor <;> rw [htarget]
    · exact fun text => ⟨_, rfl⟩
    · rintro path ⟨⟩ first second
      exact ⟨_, rfl⟩
    · rintro path ⟨⟩ h
      have hplaces : ["days.json", "home"] = ["report.json", "home"] := Outlet.place.inj h
      exact absurd hplaces (by decide)
  have hm : w.tree.read.ShowsManifest s.manifest ⟨"runs.txt"⟩
      ⟨[⟨"1", monday⟩, ⟨"2", wednesday⟩]⟩ := by
    refine ⟨_, rfl, ?_⟩
    decide +kernel
  have hruns : Manifest.ShowsRuns ⟨[⟨"1", monday⟩, ⟨"2", wednesday⟩]⟩ w.tree.read
      [⟨some "1", ⟨"1.log"⟩⟩, ⟨some "2", ⟨"2.log"⟩⟩]
      [(⟨"1", monday⟩, good), (⟨"2", wednesday⟩, torn)] := by
    refine .cons ⟨⟨_, rfl, ?_⟩, rfl⟩ (.cons ⟨⟨_, rfl, ?_⟩, rfl⟩ .nil)
    · decide +kernel
    · decide +kernel
  have hlogs : List.Forall₂ w.tree.read.Shows [⟨"1.log"⟩] [good] := .cons rfl .nil
  have hdisk := (disk_and_timeline_deliver [] .plain wednesday w none s hs none plain).1
    _ _ hlogs hplain
  have htimeline : DeliveredBy .date s wednesday daily
      [(⟨"1", monday⟩, good), (⟨"2", wednesday⟩, torn)] w timeline.1 timeline.2 :=
    (disk_and_timeline_deliver [] .plain wednesday w none s hs none daily).2
      ⟨"runs.txt"⟩ .date _ _ _ hm hruns hdaily
  -- the run itself is kept abstract, for only what was delivered matters
  clear_value timeline
  have htrusted : disk.1 = .ok () := by
    apply hdisk.succeeds_iff.2
    decide +kernel
  have hwithheld : timeline.1 ≠ .ok () := by
    intro h
    exact absurd (htimeline.succeeds_iff.1 h) (by decide +kernel)
  have hseries : w.tree.destination ⟨"days.json"⟩ = ["days.json", "home"] := by decide +kernel
  have hkept : timeline.2.tree.node? ["days.json", "home"] = none := by
    have h := htimeline.series_kept hwithheld _ rfl
    rw [hseries] at h
    exact h
  exact ⟨⟨htrusted, hdisk⟩, hwithheld, htimeline, hkept⟩

end Invocation

end Throughput
