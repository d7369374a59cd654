/-
  Throughput/Proofs/Command/Hindrances.lean
  =========================================
  **A command that is hindered changes nothing.**  What can keep a command from its report
  are settings that do not load, a manifest or a log that cannot be read, and a run that
  is not listed (`Invocation.Hindered`).  An invocation has a plan exactly if none of these
  is the case (`Invocation.plannedIf_plan`): once the settings are loaded, summarizing
  cannot fail any more.  Without a plan nothing is performed, and what a plan performs
  never fails like this, so every such failure leaves the world as it was
  (`Invocation.hindered_changes_nothing`).
-/
import Throughput.Proofs.Command.Failures
import Throughput.Proofs.Settings.Loaded

namespace Throughput

/-! ### What hinders a command -/

theorem Files.ShowsManifest.unique {files : Files} {rule : ManifestRule} {path : Path}
    {m m' : Manifest} (h : files.ShowsManifest rule path m)
    (h' : files.ShowsManifest rule path m') : m = m' := by
  obtain ⟨source, hsource, hm⟩ := h
  obtain ⟨source', hsource', hm'⟩ := h'
  rw [hsource] at hsource'
  cases hsource'
  rw [hm] at hm'
  cases hm'
  rfl

/-- The logs that count.  Per node, a node's logs of itself are left out. -/
def RunInput.counted (perNode : Bool) (logs : List RunInput) : List RunInput :=
  if perNode then peerLogs logs else logs

/-- Something keeps a command from its report. -/
inductive Command.Hindered (files : Files) (s : Settings) : Command → Prop
  | diskLog {logs delimiter output} {path : Path} (hlog : path ∈ logs)
      (h : ∀ bytes, ¬ files.Shows path bytes) : Hindered files s (.disk logs delimiter output)
  | timelineManifest {path grouping logs delimiter output}
      (h : ∀ m, ¬ files.ShowsManifest s.manifest path m) :
      Hindered files s (.timeline path grouping logs delimiter output)
  | timelineRun {path grouping logs delimiter output} {m : Manifest}
      (hm : files.ShowsManifest s.manifest path m) {log : RunInput} (hlog : log ∈ logs)
      (h : ∀ run, ¬ m.Lists log.run run) :
      Hindered files s (.timeline path grouping logs delimiter output)
  | timelineLog {path grouping logs delimiter output} {log : RunInput} (hlog : log ∈ logs)
      (h : ∀ bytes, ¬ files.Shows log.path bytes) :
      Hindered files s (.timeline path grouping logs delimiter output)
  | networkManifest {path logs perNode output}
      (h : ∀ m, ¬ files.ShowsManifest s.manifest path m) :
      Hindered files s (.network logs (some path) perNode output)
  | networkRun {path logs perNode output} {m : Manifest}
      (hm : files.ShowsManifest s.manifest path m) {log : RunInput}
      (hlog : log ∈ RunInput.counted perNode logs) (h : ∀ run, ¬ m.Lists log.run run) :
      Hindered files s (.network logs (some path) perNode output)
  | networkLog {logs manifest perNode output} {log : RunInput}
      (hlog : log ∈ RunInput.counted perNode logs)
      (h : ∀ value, ¬ files.ShowsBandwidth s.bandwidth log.path value) :
      Hindered files s (.network logs manifest perNode output)

/-- Something keeps an invocation from its report or, with `status`, from showing the settings. -/
inductive Invocation.Hindered (files : Files) (env : Environment) (i : Invocation) : Prop
  | settings (h : ∀ s, Settings.load files env i.settings ≠ .ok s)
  | command {s : Settings} (hs : Settings.load files env i.settings = .ok s)
      (h : i.command.Hindered files s)

/-! ### What intake takes -/

theorem exists_mapM_eq_ok_iff {ε α β : Type} {f : α → Except ε β} {xs : List α} :
    (∃ ys, xs.mapM f = .ok ys) ↔ ∀ x ∈ xs, ∃ y, f x = .ok y := by
  constructor
  · rintro ⟨ys, h⟩ x hx
    obtain ⟨y, -, hy⟩ := exists_right_of_forall₂ (mapM_eq_ok_iff.1 h) hx
    exact ⟨y, hy⟩
  · exact exists_mapM_eq_ok

theorem exists_map_eq_ok_iff {ε α β : Type} {x : Except ε α} {g : α → β} :
    (∃ b, x.map g = .ok b) ↔ ∃ a, x = .ok a := by
  cases x <;> simp [Except.map]

theorem exists_bind_map_eq_ok_iff {ε α β γ : Type} {x : Except ε α} {y : Except ε β}
    {g : α → β → γ} : (∃ c, (x >>= fun a => y.map (g a)) = .ok c) ↔
      (∃ a, x = .ok a) ∧ ∃ b, y = .ok b := by
  cases x with
  | error e => simp [bind, Except.bind]
  | ok a => simp [bind, Except.bind, exists_map_eq_ok_iff]

namespace Intake

variable {κ : Type} {files : Files}

theorem exists_readTotal_iff {rule : BandwidthRule} {node : NodeLogs} (hne : node.files ≠ []) :
    (∃ total, readTotal files rule node = .ok total) ↔
      ∀ path ∈ node.files, ∃ value, files.ShowsBandwidth rule path value := by
  constructor
  · rintro ⟨total, h⟩ path hpath
    obtain ⟨values, hvalues, -⟩ := (readTotal_eq_ok_iff hne).1 h
    obtain ⟨value, -, hvalue⟩ := exists_right_of_forall₂ hvalues hpath
    exact ⟨value, hvalue⟩
  · intro h
    obtain ⟨values, hvalues⟩ := exists_mapM_eq_ok fun path hpath => by
      obtain ⟨value, hvalue⟩ := h path hpath
      exact ⟨value, readBandwidth_eq_ok_iff.2 hvalue⟩
    have hall := (mapM_eq_ok_iff.1 hvalues).imp fun _ _ => readBandwidth_eq_ok_iff.1
    exact ⟨_, (readTotal_eq_ok_iff hne).2 ⟨values, hall, rfl⟩⟩

/-- Bandwidths are there exactly if every log that counts has a key and a bandwidth. -/
theorem exists_bandwidths_iff {rule : BandwidthRule} {perNode : Bool}
    {logKey : RunInput → Except CommandFailure κ} {nodeKey : NodeLogs → Except CommandFailure κ}
    {P : Option String → Prop} (hlog : ∀ log, (∃ key, logKey log = .ok key) ↔ P log.run)
    (hnode : ∀ node, (∃ key, nodeKey node = .ok key) ↔ P node.run) {logs : List RunInput} :
    (∃ entries, bandwidths files rule perNode logKey nodeKey logs = .ok entries) ↔
      ∀ log ∈ RunInput.counted perNode logs,
        P log.run ∧ ∃ value, files.ShowsBandwidth rule log.path value := by
  cases perNode with
  | false =>
    simp only [bandwidths, RunInput.counted, Bool.false_eq_true, if_false, exists_mapM_eq_ok_iff,
      exists_bind_map_eq_ok_iff, hlog, readBandwidth_eq_ok_iff]
  | true =>
    have hgathers := NodeLogs.gathers_group logs
    have hnodes : (∀ node ∈ NodeLogs.group logs, P node.run ∧
        ∃ total, readTotal files rule node = .ok total) ↔
        (∀ node ∈ NodeLogs.group logs, P node.run) ∧ ∀ node ∈ NodeLogs.group logs,
          ∀ path ∈ node.files, ∃ value, files.ShowsBandwidth rule path value := by
      rw [← forall₂_and]
      refine forall₂_congr fun node hmem => ?_
      rw [exists_readTotal_iff (hgathers.files_ne_nil hmem)]
    simp only [bandwidths, RunInput.counted, if_true, exists_mapM_eq_ok_iff,
      exists_bind_map_eq_ok_iff, hnode]
    rw [hnodes, hgathers.forall_run_iff, hgathers.forall_files_iff
      (P := fun path => ∃ value, files.ShowsBandwidth rule path value), ← forall₂_and]

end Intake

/-! ### Plans exist unless something hinders them -/

namespace Plan

/-- There is a plan exactly under a condition.  Otherwise intake failed, and the plan does
    not fail like that. -/
structure PlannedIf (P : Prop) (x : Except CommandFailure Plan) : Prop where
  exists_iff : (∃ p, x = .ok p) ↔ P
  isIntake : IsIntake x
  onlyDelivers : ∀ p, x = .ok p → p.OnlyDelivers

namespace PlannedIf

variable {P Q : Prop} {x : Except CommandFailure Plan}

theorem congr (h : PlannedIf P x) (hPQ : P ↔ Q) : PlannedIf Q x :=
  ⟨h.exists_iff.trans hPQ, h.isIntake, h.onlyDelivers⟩

theorem ok {p : Plan} (hP : P) (hp : p.OnlyDelivers) : PlannedIf P (.ok p) where
  exists_iff := iff_of_true ⟨p, rfl⟩ hP
  isIntake := .ok p
  onlyDelivers := by
    intro p' h
    cases h
    exact hp

theorem error {failure : CommandFailure} (hP : ¬ P) (hfailure : failure.EndsIntake) :
    PlannedIf P (.error failure) where
  exists_iff := iff_of_false (fun ⟨_, h⟩ => nomatch h) hP
  isIntake := by
    intro failure' h
    cases h
    exact hfailure
  onlyDelivers := fun _ h => nomatch h

theorem bind {α : Type} {y : Except CommandFailure α} {f : α → Except CommandFailure Plan}
    {R : α → Prop} (hy : IsIntake y) (hf : ∀ a, PlannedIf (R a) (f a)) :
    PlannedIf (∃ a, y = .ok a ∧ R a) (y >>= f) where
  exists_iff := by
    simp only [exceptBind_eq_ok, ← (hf _).exists_iff]
    constructor
    · rintro ⟨p, a, ha, hp⟩
      exact ⟨a, ha, p, hp⟩
    · rintro ⟨a, ha, p, hp⟩
      exact ⟨p, a, ha, hp⟩
  isIntake := hy.bind fun a => (hf a).isIntake
  onlyDelivers := by
    intro p hp
    obtain ⟨a, -, hp⟩ := exceptBind_eq_ok.1 hp
    exact (hf a).onlyDelivers p hp

end PlannedIf

section

variable {files : Files} {s : Settings} {now : Stamp} {output : OutputOptions}

theorem plannedIf_deliver (hranks : ∀ rank ∈ s.percentiles, Quantity.isRank rank = true)
    {κ : Type} [SeriesKey κ] (title : String) (c : Collection κ) :
    PlannedIf True (deliver s now title c output) where
  exists_iff := iff_of_true (exists_deliver hranks c) trivial
  isIntake := isIntake_deliver c
  onlyDelivers := fun _ => onlyDelivers_deliver

theorem plannedIf_disk (hranks : ∀ rank ∈ s.percentiles, Quantity.isRank rank = true)
    (logs : List Path) :
    PlannedIf (∀ path ∈ logs, ∃ bytes, files.Shows path bytes)
      (disk files s now logs output) := by
  rw [disk_eq]
  refine (PlannedIf.bind (R := fun _ => True) (.mapM fun path _ => Intake.isIntake_readLog files path)
    fun texts => plannedIf_deliver hranks "disk" _).congr ?_
  simp only [and_true, exists_mapM_eq_ok_iff, Intake.readLog_eq_ok_iff]

theorem plannedIf_timelineBy (hranks : ∀ rank ∈ s.percentiles, Quantity.isRank rank = true)
    {κ : Type} [SeriesKey κ] (runs : List (Run × Path)) (key : Run → Reading → κ)
    (finish : Session κ → Collection κ) :
    PlannedIf (∀ run ∈ runs, ∃ bytes, files.Shows run.2 bytes)
      (timelineBy files s now runs key finish output) := by
  rw [timelineBy_eq]
  refine (PlannedIf.bind (R := fun _ => True)
    (.mapM fun run _ => (Intake.isIntake_readLog files run.2).map)
    fun logs => ?_).congr ?_
  · exact plannedIf_deliver hranks "timeline" _
  · simp only [and_true, exists_mapM_eq_ok_iff, exists_map_eq_ok_iff, Intake.readLog_eq_ok_iff]

/-- All runs are listed and all their logs can be read. -/
theorem exists_runs_iff {m : Manifest} {logs : List RunInput} :
    (∃ runs, (logs.mapM fun log => do return (← Intake.logRun m log, log.path)) = .ok runs ∧
      ∀ run ∈ runs, ∃ bytes, files.Shows run.2 bytes) ↔
      (∀ log ∈ logs, ∃ run, m.Lists log.run run) ∧
        ∀ log ∈ logs, ∃ bytes, files.Shows log.path bytes := by
  constructor
  · rintro ⟨runs, h, hlogs⟩
    have hall := mapM_eq_ok_iff.1 h
    refine ⟨fun log hlog => ?_, fun log hlog => ?_⟩
    · obtain ⟨run, -, hrun⟩ := exists_right_of_forall₂ hall hlog
      exact ⟨run.1, (Intake.runAndPath_eq_ok_iff.1 hrun).1⟩
    · obtain ⟨run, hmem, hrun⟩ := exists_right_of_forall₂ hall hlog
      rw [(Intake.runAndPath_eq_ok_iff.1 hrun).2]
      exact hlogs run hmem
  · rintro ⟨hruns, hlogs⟩
    obtain ⟨runs, h⟩ := exists_mapM_eq_ok_iff.2 fun log hlog => by
      obtain ⟨run, hlists⟩ := hruns log hlog
      exact ⟨(run, log.path), Intake.runAndPath_eq_ok_iff.2 ⟨hlists, rfl⟩⟩
    refine ⟨runs, h, fun run hmem => ?_⟩
    obtain ⟨log, hlog, hrun⟩ := exists_of_mem_mapM h hmem
    rw [← (Intake.runAndPath_eq_ok_iff.1 hrun).2]
    exact hlogs log hlog

theorem plannedIf_timeline (hranks : ∀ rank ∈ s.percentiles, Quantity.isRank rank = true)
    (path : Path) (grouping : Grouping) (logs : List RunInput) :
    PlannedIf (∃ m, files.ShowsManifest s.manifest path m ∧
        (∀ log ∈ logs, ∃ run, m.Lists log.run run) ∧
        ∀ log ∈ logs, ∃ bytes, files.Shows log.path bytes)
      (timeline files s now path grouping logs output) := by
  have hlogs : ∀ m, IsIntake
      (logs.mapM fun log => do return (← Intake.logRun m log, log.path)) := by
    intro m
    exact .mapM fun log _ => (Intake.isIntake_logRun m log).bind fun _ => .ok _
  refine (PlannedIf.bind (Intake.isIntake_readManifest files s path) fun m =>
    PlannedIf.bind (R := fun runs => ∀ run ∈ runs, ∃ bytes, files.Shows run.2 bytes) (hlogs m)
      fun runs => ?_).congr ?_
  · cases grouping with
    | label => exact plannedIf_timelineBy hranks runs _ _
    | date => exact plannedIf_timelineBy hranks runs _ _
    | timestamp => exact plannedIf_timelineBy hranks runs _ _
  · simp only [exists_runs_iff, Intake.readManifest_eq_ok_iff]

theorem plannedIf_network (hranks : ∀ rank ∈ s.percentiles, Quantity.isRank rank = true)
    (logs : List RunInput) (perNode : Bool) :
    PlannedIf (∀ log ∈ RunInput.counted perNode logs,
        ∃ value, files.ShowsBandwidth s.bandwidth log.path value)
      (network files s now logs none perNode output) := by
  refine (PlannedIf.bind (R := fun _ => True) (Intake.isIntake_network files perNode _
    (fun _ => .ok ()) (fun _ => .ok ()) logs)
    fun session => plannedIf_deliver hranks "network" _).congr ?_
  simp only [and_true, Intake.network_eq, exists_map_eq_ok_iff]
  refine (Intake.exists_bandwidths_iff (P := fun _ => True) (fun _ => ?_) fun _ => ?_).trans ?_
  · exact iff_of_true ⟨(), rfl⟩ trivial
  · exact iff_of_true ⟨(), rfl⟩ trivial
  · simp only [true_and]
    rfl

theorem plannedIf_network_dated (hranks : ∀ rank ∈ s.percentiles, Quantity.isRank rank = true)
    (path : Path) (logs : List RunInput) (perNode : Bool) :
    PlannedIf (∃ m, files.ShowsManifest s.manifest path m ∧
        ∀ log ∈ RunInput.counted perNode logs, (∃ run, m.Lists log.run run) ∧
          ∃ value, files.ShowsBandwidth s.bandwidth log.path value)
      (network files s now logs (some path) perNode output) := by
  have hdate : ∀ (m : Manifest) (missing : CommandFailure) (id : Option String),
      (∃ day, (do return (← Intake.runOf m missing id).start.date :
        Except CommandFailure Date) = .ok day) ↔ ∃ run, m.Lists id run := by
    intro m missing id
    rw [bind_pure_eq_map, exists_map_eq_ok_iff]
    simp only [Intake.runOf_eq_ok_iff]
  refine (PlannedIf.bind (Intake.isIntake_readManifest files s path) fun m =>
    PlannedIf.bind (R := fun _ => True) (Intake.isIntake_network files perNode _
      (fun log => (Intake.isIntake_logRun m log).bind fun _ => .ok _)
      (fun node => (Intake.isIntake_nodeRun m node).bind fun _ => .ok _) logs)
      fun session => plannedIf_deliver hranks "network" _).congr ?_
  simp only [and_true, Intake.readManifest_eq_ok_iff, Intake.network_eq, exists_map_eq_ok_iff]
  refine exists_congr fun m => and_congr_right fun _ => ?_
  exact Intake.exists_bandwidths_iff (P := fun id => ∃ run, m.Lists id run)
    (fun log => hdate m _ log.run) fun node => hdate m _ node.run

end

end Plan

/-! ### Hindered commands -/

namespace Command

variable {files : Files} {s : Settings}

theorem not_hindered_disk_iff {logs : List Path} {delimiter : Option Delimiter}
    {output : OutputOptions} : ¬ Hindered files s (.disk logs delimiter output) ↔
      ∀ path ∈ logs, ∃ bytes, files.Shows path bytes := by
  constructor
  · intro h path hpath
    by_contra hno
    exact h (.diskLog hpath (not_exists.1 hno))
  · rintro h (⟨hpath, hno⟩)
    obtain ⟨bytes, hbytes⟩ := h _ hpath
    exact hno bytes hbytes

theorem not_hindered_timeline_iff {path : Path} {grouping : Grouping} {logs : List RunInput}
    {delimiter : Option Delimiter} {output : OutputOptions} :
    ¬ Hindered files s (.timeline path grouping logs delimiter output) ↔
      ∃ m, files.ShowsManifest s.manifest path m ∧ (∀ log ∈ logs, ∃ run, m.Lists log.run run) ∧
        ∀ log ∈ logs, ∃ bytes, files.Shows log.path bytes := by
  constructor
  · intro h
    by_contra hno
    push Not at hno
    by_cases hm : ∃ m, files.ShowsManifest s.manifest path m
    · obtain ⟨m, hm⟩ := hm
      by_cases hruns : ∀ log ∈ logs, ∃ run, m.Lists log.run run
      · obtain ⟨log, hlog, hunread⟩ := hno m hm hruns
        exact h (.timelineLog hlog hunread)
      · push Not at hruns
        obtain ⟨log, hlog, hunlisted⟩ := hruns
        exact h (.timelineRun hm hlog hunlisted)
    · exact h (.timelineManifest (not_exists.1 hm))
  · rintro ⟨m, hm, hruns, hlogs⟩ h
    cases h with
    | timelineManifest hno => exact hno m hm
    | timelineRun hm' hlog hno =>
      obtain ⟨run, hrun⟩ := hruns _ hlog
      exact hno run (Files.ShowsManifest.unique hm hm' ▸ hrun)
    | timelineLog hlog hno =>
      obtain ⟨bytes, hbytes⟩ := hlogs _ hlog
      exact hno bytes hbytes

theorem not_hindered_network_iff {logs : List RunInput} {perNode : Bool} {output : OutputOptions} :
    ¬ Hindered files s (.network logs none perNode output) ↔
      ∀ log ∈ RunInput.counted perNode logs,
        ∃ value, files.ShowsBandwidth s.bandwidth log.path value := by
  constructor
  · intro h log hlog
    by_contra hno
    exact h (.networkLog hlog (not_exists.1 hno))
  · rintro h (_ | _ | _ | _ | _ | _ | ⟨hlog, hno⟩)
    obtain ⟨value, hvalue⟩ := h _ hlog
    exact hno value hvalue

theorem not_hindered_network_dated_iff {path : Path} {logs : List RunInput} {perNode : Bool}
    {output : OutputOptions} : ¬ Hindered files s (.network logs (some path) perNode output) ↔
      ∃ m, files.ShowsManifest s.manifest path m ∧
        ∀ log ∈ RunInput.counted perNode logs, (∃ run, m.Lists log.run run) ∧
          ∃ value, files.ShowsBandwidth s.bandwidth log.path value := by
  constructor
  · intro h
    by_contra hno
    push Not at hno
    by_cases hm : ∃ m, files.ShowsManifest s.manifest path m
    · obtain ⟨m, hm⟩ := hm
      obtain ⟨log, hlog, hmissing⟩ := hno m hm
      by_cases hrun : ∃ run, m.Lists log.run run
      · exact h (.networkLog hlog (hmissing hrun))
      · exact h (.networkRun hm hlog (not_exists.1 hrun))
    · exact h (.networkManifest (not_exists.1 hm))
  · rintro ⟨m, hm, hlogs⟩ h
    cases h with
    | networkManifest hno => exact hno m hm
    | networkRun hm' hlog hno =>
      obtain ⟨⟨run, hrun⟩, -⟩ := hlogs _ hlog
      exact hno run (Files.ShowsManifest.unique hm hm' ▸ hrun)
    | networkLog hlog hno =>
      obtain ⟨-, value, hvalue⟩ := hlogs _ hlog
      exact hno value hvalue

theorem not_hindered_status : ¬ Hindered files s .status := by
  rintro ⟨⟩

end Command

namespace Invocation

open Plan

variable {files : Files} {env : Environment} {emphasis : Emphasis} {now : Stamp}
  {i : Invocation} {s : Settings}

/-- Once the settings are loaded, only the command can be hindered. -/
theorem hindered_iff_of_load (hload : Settings.load files env i.settings = .ok s) :
    i.Hindered files env ↔ i.command.Hindered files s := by
  refine ⟨?_, .command hload⟩
  rintro (h | ⟨hs, h⟩)
  · exact absurd hload (h s)
  · rw [hload] at hs
    cases hs
    exact h

theorem plannedIf_of_load (hload : Settings.load files env i.settings = .ok s) :
    PlannedIf (¬ i.command.Hindered files s) (i.plan files env emphasis now) := by
  have hranks := Settings.isRank_of_load hload
  obtain ⟨path, command⟩ := i
  simp only [plan, hload]
  cases command with
  | disk logs delimiter output =>
    exact (plannedIf_disk (s := s.withDelimiter delimiter) hranks logs).congr
      Command.not_hindered_disk_iff.symm
  | timeline manifest grouping runs delimiter output =>
    exact (plannedIf_timeline (s := s.withDelimiter delimiter) hranks manifest grouping
      runs).congr (Command.not_hindered_timeline_iff (s := s)).symm
  | network logs manifest perNode output =>
    cases manifest with
    | none =>
      exact (plannedIf_network hranks logs perNode).congr Command.not_hindered_network_iff.symm
    | some manifest =>
      exact (plannedIf_network_dated hranks manifest logs perNode).congr
        Command.not_hindered_network_dated_iff.symm
  | status => exact .ok Command.not_hindered_status (onlyDelivers_status s path emphasis)

variable (files env emphasis now i)

/-- An invocation has a plan unless something hinders it. -/
theorem plannedIf_plan : PlannedIf (¬ i.Hindered files env) (i.plan files env emphasis now) := by
  cases hload : Settings.load files env i.settings with
  | error fault =>
    have hplan : i.plan files env emphasis now = .error (.settings fault) := by
      rw [plan, hload]
      rfl
    have hhindered : i.Hindered files env :=
      .settings fun s hs => by rw [hload] at hs; cases hs
    rw [hplan]
    exact .error (not_not.2 hhindered) ⟨rfl, rfl⟩
  | ok s => exact (plannedIf_of_load hload).congr (not_congr (hindered_iff_of_load hload)).symm

/-- **What hinders a command leaves everything as it was.**  Where settings do not load, a
    manifest or a log cannot be read, a run is not listed or nothing can be summarized, no
    file or directory differs afterwards and nothing was printed; and something did hinder
    the command.  Conversely, whatever hinders a command makes it fail like this. -/
theorem hindered_changes_nothing (env : Environment) (emphasis : Emphasis) (now : Stamp)
    (w : World) (i : Invocation) :
    (∀ failure after, i.run env emphasis now w = (.error failure, after) →
      failure.isIntake = true → after = w ∧ i.Hindered w.tree.read env) ∧
    (i.Hindered w.tree.read env →
      ∃ failure, failure.isIntake = true ∧ i.run env emphasis now w = (.error failure, w)) := by
  have hplanned := plannedIf_plan w.tree.read env emphasis now i
  have hplan : ∀ failure, i.plan w.tree.read env emphasis now = .error failure →
      i.Hindered w.tree.read env := by
    intro failure h
    by_contra hno
    obtain ⟨p, hp⟩ := hplanned.exists_iff.2 hno
    rw [h] at hp
    cases hp
  constructor
  · intro failure after h hintake
    unfold run at h
    split at h
    next p hp =>
      -- what a plan fails with is never a failure of intake
      have hdelivery := (hplanned.onlyDelivers p hp).isIntake_of_perform h
      rw [hintake] at hdelivery
      cases hdelivery
    next failure hp =>
      cases h
      exact ⟨rfl, hplan _ hp⟩
  · intro hhindered
    unfold run
    cases hp : i.plan w.tree.read env emphasis now with
    | ok p => exact absurd hhindered (hplanned.exists_iff.1 ⟨p, hp⟩)
    | error failure => exact ⟨failure, (hplanned.isIntake failure hp).isIntake, rfl⟩

/-- A run that the manifest does not list; a report of an earlier command keeps its text. -/
theorem hindered_changes_nothing_unlisted_run :
    let w : World := ⟨⟨["home"], [(["home"], .directory),
      (["report.md", "home"], .file (textBytes "an earlier report")),
      (["runs.txt", "home"], .file (textBytes "runs\n\n* 1 -- 8/31 -- 9 am\n")),
      (["result_0", "home"], .directory),
      (["bandwidth_1.log", "result_0", "home"], .file (textBytes "10 sec 1 Gbits/sec\n"))]⟩, ""⟩
    let i : Invocation := ⟨none, .network [⟨some "7", ⟨"result_0/bandwidth_1.log"⟩⟩]
      (some ⟨"runs.txt"⟩) true ⟨.markdown, some ⟨"report.md"⟩, some ⟨"series.json"⟩⟩⟩
    let now := Date.atClock ⟨2015, 8, 31, by decide⟩ 9 0 0
    i.run [] .plain now w = (.error (.input (.missingTimestamp "7")), w) ∧
      i.Hindered w.tree.read [] ∧
      ∃ failure, failure.isIntake = true ∧ i.run [] .plain now w = (.error failure, w) := by
  intro w i now
  have hrun : i.run [] .plain now w = (.error (.input (.missingTimestamp "7")), w) := by
    decide +kernel
  obtain ⟨hunchanged, hfails⟩ := hindered_changes_nothing [] .plain now w i
  have hhindered := (hunchanged _ _ hrun rfl).2
  exact ⟨hrun, hhindered, hfails hhindered⟩

end Invocation

end Throughput
