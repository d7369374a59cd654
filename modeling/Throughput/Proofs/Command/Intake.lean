/-
  Throughput/Proofs/Command/Intake.lean
  =====================================
  **What a command takes in.**  Logs are read one after another, and how one is read does
  not depend on those before it.  So a command can as well read all its logs and then take
  in what it read: `Plan.disk_eq`, `Plan.timelineBy_eq` and `Intake.network_eq` say so of
  the three kinds of intake.  What reading gives is said by `Files.Shows` and its kin
  alone, without the steps of reading.
-/
import Mathlib.Logic.Relation
import Throughput.Command.Run
import Throughput.Proofs.Input.Nodes
import Throughput.Proofs.Session.Interruptions
import Throughput.Proofs.Session.Timelines
import Throughput.Proofs.Storage.Writing

namespace Throughput

/-! ### What files show -/

namespace Files

/-- A log is opened and read to its end. -/
def Shows (files : Files) (path : Path) (bytes : List UInt8) : Prop :=
  files.opened path = .ok ⟨bytes, none⟩

def ShowsManifest (files : Files) (rule : ManifestRule) (path : Path) (m : Manifest) : Prop :=
  ∃ source, files.opened path = .ok source ∧ Manifest.ofLog rule source = .ok m

def ShowsBandwidth (files : Files) (rule : BandwidthRule) (path : Path) (value : Binary64) :
    Prop :=
  ∃ source, files.opened path = .ok source ∧ rule.ofLog source = .ok value

end Files

/-- A manifest lists a run under an identifier, which has to be given. -/
def Manifest.Lists (m : Manifest) (id : Option String) (run : Run) : Prop :=
  ∃ name, id = some name ∧ m.run name = .ok run

theorem exists_forall₂_iff_comp {α β γ : Type} {R : α → β → Prop} {S : β → γ → Prop}
    {xs : List α} {zs : List γ} : (∃ ys, List.Forall₂ R xs ys ∧ List.Forall₂ S ys zs) ↔
      List.Forall₂ (Relation.Comp R S) xs zs := by
  constructor
  · rintro ⟨ys, hR, hS⟩
    induction hR generalizing zs with
    | nil =>
      cases hS
      exact .nil
    | cons hx _ ih =>
      cases hS with
      | cons hy hrest => exact .cons ⟨_, hx, hy⟩ (ih hrest)
  · intro h
    induction h with
    | nil => exact ⟨[], .nil, .nil⟩
    | cons hx _ ih =>
      obtain ⟨y, hR, hS⟩ := hx
      obtain ⟨ys, hRs, hSs⟩ := ih
      exact ⟨y :: ys, .cons hR hRs, .cons hS hSs⟩

namespace Intake

variable {κ : Type} [SeriesKey κ] {files : Files}

/-! ### Logs -/

theorem openLog_eq_ok_iff {path : Path} {source : Source} :
    openLog files path = .ok source ↔ files.opened path = .ok source := mapError_eq_ok_iff

/-- The bytes of a log that is read to its end. -/
def readLog (files : Files) (path : Path) : Except CommandFailure (List UInt8) := do
  let source ← openLog files path
  match source.failure with
  | none => return source.bytes
  | some error => throw (.input (.io error))

theorem readLog_eq_ok_iff {path : Path} {bytes : List UInt8} :
    readLog files path = .ok bytes ↔ files.Shows path bytes := by
  simp only [readLog, exceptBind_eq_ok, openLog_eq_ok_iff, Files.Shows]
  constructor
  · rintro ⟨⟨read, failure⟩, hopened, h⟩
    cases failure with
    | some error => cases h
    | none =>
      cases h
      exact hopened
  · intro h
    exact ⟨_, h, rfl⟩

theorem diskLog_eq (s : Session κ) (log : DiskLog κ) :
    diskLog files s log =
      (readLog files log.path).map fun bytes => (s.diskLog log.time log.key ⟨bytes, none⟩).2 := by
  simp only [diskLog, readLog, Session.diskLog_eq]
  cases openLog files log.path with
  | error e => rfl
  | ok source =>
    obtain ⟨bytes, failure⟩ := source
    cases failure <;> rfl

/-! ### Bandwidths -/

def readBandwidth (files : Files) (rule : BandwidthRule) (path : Path) :
    Except CommandFailure Binary64 := do
  let source ← openLog files path
  (rule.ofLog source).mapError (.log path)

/-- The total of a node, all of whose logs are opened before one is read. -/
def readTotal (files : Files) (rule : BandwidthRule) (node : NodeLogs) :
    Except CommandFailure Binary64 := do
  let sources ← node.files.mapM (openLog files)
  (Session.totalBandwidth rule sources).mapError (.node node.node)

theorem readBandwidth_eq_ok_iff {rule : BandwidthRule} {path : Path} {value : Binary64} :
    readBandwidth files rule path = .ok value ↔ files.ShowsBandwidth rule path value := by
  simp only [readBandwidth, exceptBind_eq_ok, openLog_eq_ok_iff, mapError_eq_ok_iff,
    Files.ShowsBandwidth]

/-- A node has a total exactly if all of its logs report a bandwidth. -/
theorem readTotal_eq_ok_iff {rule : BandwidthRule} {node : NodeLogs} (hne : node.files ≠ [])
    {total : Binary64} : readTotal files rule node = .ok total ↔
      ∃ values, List.Forall₂ (files.ShowsBandwidth rule) node.files values ∧
        total = values.foldl (· + ·) (.zero false) := by
  have hboth : ∀ values, List.Forall₂ (files.ShowsBandwidth rule) node.files values ↔
      ∃ sources, node.files.mapM (openLog files) = .ok sources ∧
        sources.mapM rule.ofLog = .ok values := by
    intro values
    simp only [mapM_eq_ok_iff, openLog_eq_ok_iff]
    exact exists_forall₂_iff_comp.symm
  have htotal : ∀ sources, node.files.mapM (openLog files) = .ok sources →
      Session.totalBandwidth rule sources =
        (sources.mapM rule.ofLog).map (·.foldl (· + ·) (.zero false)) := by
    intro sources h
    apply Session.totalBandwidth_of_ne_nil
    rintro rfl
    exact hne (List.forall₂_nil_right_iff.1 (mapM_eq_ok_iff.1 h))
  simp only [readTotal, exceptBind_eq_ok, mapError_eq_ok_iff, hboth]
  constructor
  · rintro ⟨sources, hsources, h⟩
    rw [htotal sources hsources] at h
    obtain ⟨values, hvalues, rfl⟩ := map_eq_ok_iff.1 h
    exact ⟨values, ⟨sources, hsources, hvalues⟩, rfl⟩
  · rintro ⟨values, ⟨sources, hsources, hvalues⟩, rfl⟩
    refine ⟨sources, hsources, ?_⟩
    rw [htotal sources hsources, hvalues]
    rfl

theorem networkLog_eq (s : Session κ) (key : κ) (path : Path) :
    networkLog files s key path =
      (readBandwidth files s.rule path).map (s.takeBandwidth key) := by
  simp only [networkLog, readBandwidth, Session.networkLog]
  cases openLog files path with
  | error e => rfl
  | ok source =>
    simp only [bind, Except.bind]
    cases s.rule.ofLog source <;> rfl

theorem nodeLogs_eq (s : Session κ) (key : κ) (node : NodeLogs) :
    nodeLogs files s key node = (readTotal files s.rule node).map (s.takeBandwidth key) := by
  simp only [nodeLogs, readTotal, Session.nodeLogs]
  cases node.files.mapM (openLog files) with
  | error e => rfl
  | ok sources =>
    simp only [bind, Except.bind]
    cases Session.totalBandwidth s.rule sources <;> rfl

/-- What network logs come to: a key and a bandwidth for each log or node. -/
def bandwidths (files : Files) (rule : BandwidthRule) (perNode : Bool)
    (logKey : RunInput → Except CommandFailure κ) (nodeKey : NodeLogs → Except CommandFailure κ)
    (logs : List RunInput) : Except CommandFailure (List (κ × Binary64)) :=
  if perNode then
    (NodeLogs.group logs).mapM fun node => do
      let key ← nodeKey node
      (readTotal files rule node).map (key, ·)
  else
    logs.mapM fun log => do
      let key ← logKey log
      (readBandwidth files rule log.path).map (key, ·)

/-- What is counted for a node: its key, and the sum of what all of its logs report, added in
    the order in which they are named. -/
def IsTotal (files : Files) (rule : BandwidthRule) (nodeKey : NodeLogs → Except CommandFailure κ)
    (node : NodeLogs) (entry : κ × Binary64) : Prop :=
  nodeKey node = .ok entry.1 ∧
    ∃ values, List.Forall₂ (files.ShowsBandwidth rule) node.files values ∧
      entry.2 = values.foldl (· + ·) (.zero false)

omit [SeriesKey κ] in
theorem isTotal_iff {rule : BandwidthRule} {nodeKey : NodeLogs → Except CommandFailure κ}
    {node : NodeLogs} (hne : node.files ≠ []) {entry : κ × Binary64} :
    (do let key ← nodeKey node; (readTotal files rule node).map (key, ·)) = .ok entry ↔
      IsTotal files rule nodeKey node entry := by
  simp only [exceptBind_eq_ok, map_eq_ok_iff, readTotal_eq_ok_iff hne]
  constructor
  · rintro ⟨key, hkey, total, ⟨values, hvalues, rfl⟩, rfl⟩
    exact ⟨hkey, values, hvalues, rfl⟩
  · rintro ⟨hkey, values, hvalues, htotal⟩
    exact ⟨entry.1, hkey, entry.2, ⟨values, hvalues, htotal⟩, rfl⟩

omit [SeriesKey κ] in
/-- What the logs of nodes come to: one total for each node. -/
theorem bandwidths_eq_ok_iff {rule : BandwidthRule} {logKey : RunInput → Except CommandFailure κ}
    {nodeKey : NodeLogs → Except CommandFailure κ} {logs : List RunInput}
    {entries : List (κ × Binary64)} :
    bandwidths files rule true logKey nodeKey logs = .ok entries ↔
      List.Forall₂ (IsTotal files rule nodeKey) (NodeLogs.group logs) entries := by
  have hne : ∀ node ∈ NodeLogs.group logs, node.files ≠ [] := fun node hnode =>
    (NodeLogs.gathers_group logs).files_ne_nil hnode
  rw [bandwidths, if_pos rfl, mapM_eq_ok_iff, List.forall₂_iff_zip, List.forall₂_iff_zip]
  refine and_congr_right fun hlength => ⟨fun h node entry hmem => ?_, fun h node entry hmem => ?_⟩
  · exact (isTotal_iff (hne node (List.of_mem_zip hmem).1)).1 (h hmem)
  · exact (isTotal_iff (hne node (List.of_mem_zip hmem).1)).2 (h hmem)

/-- The session that takes in bandwidths under their keys. -/
def takeAll (s : Session κ) (entries : List (κ × Binary64)) : Session κ :=
  entries.foldl (fun s entry => s.takeBandwidth entry.1 entry.2) s

theorem takeAll_eq_noteAll (s : Session κ) (entries : List (κ × Binary64)) :
    takeAll s entries =
      s.noteAll (entries.map fun (key, value) => .sample ⟨⟨.bandwidth, key⟩, none, value⟩) := by
  rw [takeAll, Session.noteAll, List.foldl_map]
  rfl

/-- Taking in one after another what is read under a rule that never changes. -/
theorem foldlM_takeBandwidth {α : Type} {step : Session κ → α → Except CommandFailure (Session κ)}
    {f : BandwidthRule → α → Except CommandFailure (κ × Binary64)}
    (hstep : ∀ s x, step s x = (f s.rule x).map fun entry => s.takeBandwidth entry.1 entry.2)
    (s : Session κ) (xs : List α) :
    xs.foldlM step s = (xs.mapM (f s.rule)).map (takeAll s) := by
  have hfold := foldlM_map_eq_map_mapM (f := f s.rule)
    (fun (t : Session κ) (entry : κ × Binary64) => t.takeBandwidth entry.1 entry.2) s xs
  refine Eq.trans (foldlM_eq_of_invariant (P := (·.rule = s.rule)) ?_ ?_ rfl xs) hfold
  · intro t x ht
    rw [hstep, ht]
  · intro t x after ht h
    obtain ⟨entry, -, rfl⟩ := map_eq_ok_iff.1 h
    exact ht

theorem network_eq (perNode : Bool) (s : Session κ)
    (logKey : RunInput → Except CommandFailure κ) (nodeKey : NodeLogs → Except CommandFailure κ)
    (logs : List RunInput) : network files perNode s logKey nodeKey logs =
      (bandwidths files s.rule perNode logKey nodeKey logs).map (takeAll s) := by
  cases perNode with
  | true =>
    refine foldlM_takeBandwidth (f := fun rule node => do
      let key ← nodeKey node
      (readTotal files rule node).map (key, ·)) (fun t node => ?_) s _
    cases nodeKey node with
    | error e => rfl
    | ok key =>
      refine (nodeLogs_eq t key node).trans ?_
      cases readTotal files t.rule node <;> rfl
  | false =>
    refine foldlM_takeBandwidth (f := fun rule log => do
      let key ← logKey log
      (readBandwidth files rule log.path).map (key, ·)) (fun t log => ?_) s _
    cases logKey log with
    | error e => rfl
    | ok key =>
      refine (networkLog_eq t key log.path).trans ?_
      cases readBandwidth files t.rule log.path <;> rfl

/-! ### Runs -/

theorem readManifest_eq_ok_iff {s : Settings} {path : Path} {m : Manifest} :
    readManifest files s path = .ok m ↔ files.ShowsManifest s.manifest path m := by
  simp only [readManifest, exceptBind_eq_ok, openLog_eq_ok_iff, mapError_eq_ok_iff,
    Files.ShowsManifest]

theorem runOf_eq_ok_iff {m : Manifest} {missing : CommandFailure} {id : Option String} {run : Run} :
    runOf m missing id = .ok run ↔ m.Lists id run := by
  cases id with
  | none => simp [runOf, Manifest.Lists]
  | some name => simp [runOf, Manifest.Lists, mapError_eq_ok_iff]

/-- A log is paired with a run that is listed for it. -/
theorem runAndPath_eq_ok_iff {m : Manifest} {log : RunInput} {run : Run × Path} :
    (do return (← logRun m log, log.path) : Except CommandFailure (Run × Path)) = .ok run ↔
      m.Lists log.run run.1 ∧ log.path = run.2 := by
  simp only [logRun, exceptBind_eq_ok, runOf_eq_ok_iff]
  constructor
  · rintro ⟨_, hlists, h⟩
    cases h
    exact ⟨hlists, rfl⟩
  · rintro ⟨hlists, hpath⟩
    refine ⟨run.1, hlists, ?_⟩
    rw [hpath]
    rfl

end Intake

/-! ### Commands -/

namespace Plan

variable (files : Files) (s : Settings) (now : Stamp) (output : OutputOptions)

theorem disk_eq (logs : List Path) : disk files s now logs output =
    logs.mapM (Intake.readLog files) >>= fun texts => deliver s now "disk"
      (Session.after s.delimiter s.bandwidth
        (texts.map fun bytes => .disk (fun _ => ()) ⟨bytes, none⟩)).finish output := by
  have hfold := foldlM_map_eq_map_mapM (f := Intake.readLog files)
    (fun (t : Session Unit) bytes => (t.diskLog none (fun _ => ()) ⟨bytes, none⟩).2)
    (Intake.start s) logs
  simp only [disk, List.foldlM_map, Intake.diskLog_eq, hfold, Session.after, List.foldl_map]
  cases logs.mapM (Intake.readLog files) <;> rfl

theorem timelineBy_eq {κ : Type} [SeriesKey κ] (runs : List (Run × Path))
    (key : Run → Reading → κ) (finish : Session κ → Collection κ) :
    timelineBy files s now runs key finish output =
      (runs.mapM fun run => (Intake.readLog files run.2).map (run.1, ·)) >>= fun logs =>
        deliver s now "timeline"
          (finish (Session.afterRuns s.delimiter s.bandwidth key logs)) output := by
  have hfold := foldlM_map_eq_map_mapM (f := fun run => (Intake.readLog files run.2).map (run.1, ·))
    (fun (t : Session κ) (log : Run × List UInt8) =>
      (t.diskLog (some log.1.start) (key log.1) ⟨log.2, none⟩).2) (Intake.start s) runs
  have hstep : (fun (t : Session κ) (run : Run × Path) => (Intake.readLog files run.2).map
      fun bytes => (t.diskLog (some run.1.start) (key run.1) ⟨bytes, none⟩).2) =
      fun t run => ((Intake.readLog files run.2).map (run.1, ·)).map fun log =>
        (t.diskLog (some log.1.start) (key log.1) ⟨log.2, none⟩).2 := by
    funext t run
    cases Intake.readLog files run.2 <;> rfl
  simp only [timelineBy, List.foldlM_map, Intake.diskLog_eq, hstep, hfold, Session.afterRuns,
    Session.after, List.foldl_map]
  cases runs.mapM fun run => (Intake.readLog files run.2).map (run.1, ·) <;> rfl

end Plan

end Throughput
