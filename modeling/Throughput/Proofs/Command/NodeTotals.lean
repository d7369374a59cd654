/-
  Throughput/Proofs/Command/NodeTotals.lean
  =========================================
  **Totals of nodes.**  Asked for totals, a command that succeeds has counted one reading
  for every node among the logs of peers: the sum of the bandwidths that these logs report,
  added in the order in which they are named (`totals_count_peers`).

  A node's log of itself counts for nothing.  It is left out before logs are put to nodes,
  so that a node with no other log is no node at all: it is missing from the readings, and
  that a session refuses a node without logs never comes to bear (`own_log_leaves_no_node`).
-/
import Throughput.Proofs.Command.Hindrances
import Throughput.Proofs.Session.Finishing

namespace Throughput

variable {κ : Type}

/-! ### What is to be counted -/

/-- The total of a node, and the key under which it is counted. -/
structure NodeTotal (κ : Type) where
  node : NodeKey
  key : κ
  total : Binary64

namespace NodeTotal

def observation (t : NodeTotal κ) : Observation κ := ⟨⟨.bandwidth, t.key⟩, none, t.total⟩

/-- The sum of what the logs of a node report, in the order in which they are named.
    The key is one that goes with the run of the node. -/
structure IsShown (files : Files) (rule : BandwidthRule) (logs : List RunInput)
    (keyed : Option String → κ → Prop) (t : NodeTotal κ) : Prop where
  keyed : keyed t.node.1 t.key
  total : ∃ values, List.Forall₂ (files.ShowsBandwidth rule)
      ((logs.filter (·.nodeKey = t.node)).map (·.path)) values ∧
    t.total = values.foldl (· + ·) (.zero false)

end NodeTotal

/-- A manifest lists a run under an identifier, and the run started on a day. -/
def Manifest.Dates (m : Manifest) (id : Option String) (day : Date) : Prop :=
  ∃ run, m.Lists id run ∧ run.start.date = day

/-- A collection of one reading for every node among logs. -/
structure Collection.CountsNodes [SeriesKey κ] [DecidableEq κ] (files : Files)
    (rule : BandwidthRule) (logs : List RunInput) (keyed : Option String → κ → Prop)
    (totals : List (NodeTotal κ)) (c : Collection κ) : Prop where
  nodes_perm : (totals.map (·.node)).Perm (logs.map RunInput.nodeKey).dedup
  totals_shown : ∀ t ∈ totals, t.IsShown files rule logs keyed
  readings_eq : c.readings = (logs.map RunInput.nodeKey).dedup.length
  unrecognized_eq : c.unrecognized = []
  arranged : IsArrangement (totals.map NodeTotal.observation) c.groups

namespace Intake

/-! ### Totals as they are read -/

theorem exists_totals {files : Files} {rule : BandwidthRule}
    {logKey : RunInput → Except CommandFailure κ} {nodeKey : NodeLogs → Except CommandFailure κ}
    (keyed : Option String → κ → Prop)
    (hkeyed : ∀ node key, nodeKey node = .ok key → keyed node.run key) {logs : List RunInput}
    {entries : List (κ × Binary64)}
    (h : bandwidths files rule true logKey nodeKey logs = .ok entries) :
    ∃ totals : List (NodeTotal κ), entries = totals.map (fun t => (t.key, t.total)) ∧
      (totals.map (·.node)).Perm ((RunInput.peerLogs logs).map RunInput.nodeKey).dedup ∧
      ∀ t ∈ totals, t.IsShown files rule (RunInput.peerLogs logs) keyed := by
  have hgathers := NodeLogs.gathers_group logs
  obtain ⟨hlength, hzip⟩ := List.forall₂_iff_zip.1 (bandwidths_eq_ok_iff.1 h)
  let total (e : NodeLogs × (κ × Binary64)) : NodeTotal κ := ⟨e.1.key, e.2.1, e.2.2⟩
  refine ⟨((NodeLogs.group logs).zip entries).map total, ?_, ?_, ?_⟩
  · rw [List.map_map]
    exact (List.map_snd_zip hlength.ge).symm
  · have hnodes : (((NodeLogs.group logs).zip entries).map total).map (·.node) =
        (NodeLogs.group logs).map NodeLogs.key := by
      rw [List.map_map, ← List.map_fst_zip hlength.le, List.map_map, List.map_fst_zip hlength.le]
      rfl
    rw [hnodes]
    exact hgathers.keys_perm
  · intro t ht
    obtain ⟨⟨node, key, value⟩, hmem, rfl⟩ := List.mem_map.1 ht
    have hnode := List.of_mem_zip hmem
    obtain ⟨hkey, values, hvalues, hsum⟩ := hzip hmem
    refine ⟨hkeyed node key hkey, values, ?_, hsum⟩
    rw [hgathers.files_eq node hnode.1] at hvalues
    exact hvalues

/-! ### Totals as they are counted -/

variable [SeriesKey κ]

theorem isGrouping_takeAll [DecidableEq κ] (s : Settings) (totals : List (NodeTotal κ)) :
    IsGrouping (totals.map NodeTotal.observation)
      (takeAll (start s) (totals.map fun t => (t.key, t.total))).collector.finish := by
  rw [takeAll_eq_noteAll, Session.collector_noteAll, List.map_map, List.filterMap_map]
  have hnoted : totals.filterMap (Finding.observation? ∘
      (fun (entry : κ × Binary64) => Finding.sample ⟨⟨.bandwidth, entry.1⟩, none, entry.2⟩) ∘
        fun t => (t.key, t.total)) = totals.map NodeTotal.observation :=
    congrFun List.filterMap_eq_map totals
  rw [hnoted]
  exact Collector.isGrouping_pushAll _

theorem readings_takeAll (s : Settings) (entries : List (κ × Binary64)) :
    (takeAll (start s) entries).readings = entries.length := by
  rw [takeAll_eq_noteAll, Session.readings_noteAll, List.length_map]
  exact Nat.zero_add _

theorem unrecognized_takeAll (s : Settings) (entries : List (κ × Binary64)) :
    (takeAll (start s) entries).unrecognized.toList = [] := by
  rw [takeAll_eq_noteAll, Session.unrecognized_noteAll, List.filterMap_map]
  exact List.filterMap_eq_nil_iff.2 fun _ _ => rfl

section

variable {files : Files} {rule : BandwidthRule} {logs : List RunInput}
  {keyed : Option String → κ → Prop} {totals : List (NodeTotal κ)}

/-- However the session is finished, all that matters is that the groups arrange the
    totals. -/
theorem countsNodes_of_finishes [DecidableEq κ] (s : Settings) {c : Collection κ}
    (hnodes : (totals.map (·.node)).Perm (logs.map RunInput.nodeKey).dedup)
    (hshown : ∀ t ∈ totals, t.IsShown files rule logs keyed)
    (hfinishes : (takeAll (start s) (totals.map fun t => (t.key, t.total))).Finishes c)
    (harranged : IsArrangement (totals.map NodeTotal.observation) c.groups) :
    c.CountsNodes files rule logs keyed totals where
  nodes_perm := hnodes
  totals_shown := hshown
  readings_eq := by
    rw [hfinishes.readings_eq, readings_takeAll, ← hnodes.length_eq, List.length_map,
      List.length_map]
  unrecognized_eq := by rw [hfinishes.unrecognized_eq, unrecognized_takeAll]
  arranged := harranged

end

end Intake

/-! ### Commands -/

namespace Plan

/-- What a command delivers are the totals of nodes. -/
def DeliversNodes [SeriesKey κ] [DecidableEq κ] (s : Settings) (now : Stamp)
    (output : OutputOptions) (files : Files) (logs : List RunInput)
    (keyed : Option String → κ → Prop) (p : Plan) : Prop :=
  ∃ (c : Collection κ) (totals : List (NodeTotal κ)) (report : Report κ),
    c.CountsNodes files s.bandwidth logs keyed totals ∧
    c.summarize s.percentiles = .ok report ∧
    report.readings = (logs.map RunInput.nodeKey).dedup.length ∧
    deliver s now "network" c output = .ok p

variable {files : Files} {s : Settings} {now : Stamp} {output : OutputOptions}
  {logs : List RunInput} {p : Plan}

theorem deliversNodes_of_countsNodes [SeriesKey κ] [DecidableEq κ]
    {keyed : Option String → κ → Prop} {totals : List (NodeTotal κ)} {c : Collection κ}
    (hc : c.CountsNodes files s.bandwidth logs keyed totals)
    (h : deliver s now "network" c output = .ok p) :
    DeliversNodes s now output files logs keyed p := by
  obtain ⟨report, hreport, -⟩ := exceptBind_eq_ok.1 h
  have hsummary := mapError_eq_ok_iff.1 hreport
  exact ⟨c, totals, report, hc, hsummary,
    (Collection.readings_of_summarize hsummary).trans hc.readings_eq, h⟩

theorem deliversNodes_network (h : network files s now logs none true output = .ok p) :
    DeliversNodes s now output files (RunInput.peerLogs logs)
      (fun (_ : Option String) (_ : Unit) => True) p := by
  obtain ⟨session, hsession, hdeliver⟩ := exceptBind_eq_ok.1 h
  rw [Intake.network_eq] at hsession
  obtain ⟨entries, hentries, rfl⟩ := map_eq_ok_iff.1 hsession
  obtain ⟨totals, rfl, hnodes, hshown⟩ :=
    Intake.exists_totals (fun _ _ => True) (fun _ _ _ => trivial) hentries
  have harranged := (Intake.isGrouping_takeAll s totals).toIsArrangement
  exact deliversNodes_of_countsNodes
    (Intake.countsNodes_of_finishes s hnodes hshown (.plainly _) harranged) hdeliver

theorem deliversNodes_network_dated {path : Path}
    (h : network files s now logs (some path) true output = .ok p) :
    ∃ m, files.ShowsManifest s.manifest path m ∧
      DeliversNodes s now output files (RunInput.peerLogs logs) m.Dates p := by
  obtain ⟨m, hm, h⟩ := exceptBind_eq_ok.1 h
  obtain ⟨session, hsession, hdeliver⟩ := exceptBind_eq_ok.1 h
  rw [Intake.network_eq] at hsession
  obtain ⟨entries, hentries, rfl⟩ := map_eq_ok_iff.1 hsession
  refine ⟨m, Intake.readManifest_eq_ok_iff.1 hm, ?_⟩
  have hdated : ∀ (node : NodeLogs) (day : Date),
      (do return (← Intake.nodeRun m node).start.date : Except CommandFailure Date) = .ok day →
        m.Dates node.run day := by
    intro node day hday
    obtain ⟨run, hrun, hdate⟩ := exceptBind_eq_ok.1 hday
    cases hdate
    exact ⟨run, Intake.runOf_eq_ok_iff.1 hrun, rfl⟩
  obtain ⟨totals, rfl, hnodes, hshown⟩ := Intake.exists_totals m.Dates hdated hentries
  have hgrouping := Intake.isGrouping_takeAll s totals
  have harranged := (Collector.isDaily_of_isGrouping hgrouping).isArrangement hgrouping
  exact deliversNodes_of_countsNodes
    (Intake.countsNodes_of_finishes s hnodes hshown (.daily _) harranged) hdeliver

theorem network_peerLogs (manifest : Option Path) :
    network files s now (RunInput.peerLogs logs) manifest true output =
      network files s now logs manifest true output := by
  simp only [network, Intake.network, if_true, NodeLogs.group_peerLogs]

end Plan

namespace Invocation

open Plan

variable (env : Environment) (emphasis : Emphasis) (now : Stamp) (w : World)

theorem plan_of_run {i : Invocation} {after : World}
    (h : i.run env emphasis now w = (.ok (), after)) :
    ∃ p, i.plan w.tree.read env emphasis now = .ok p ∧ p.perform w = (.ok (), after) := by
  unfold run at h
  split at h
  next p hp => exact ⟨p, hp, h⟩
  · cases h

/-- **Totals count the nodes of peer logs, and no others.**  If a command for totals succeeds,
    the report that it delivers counts one reading for each pair of a run and a directory
    among the logs of peers: the sum of the bandwidths these logs report, under the day of
    the run if there is a manifest.  A node's log of itself makes no difference to the
    command, and no command fails because a node has no logs of peers. -/
theorem totals_count_peers (settings : Option Path) (logs : List RunInput)
    (manifest : Option Path) (output : OutputOptions) :
    let command (logs : List RunInput) : Invocation :=
      ⟨settings, .network logs manifest true output⟩
    let peers := RunInput.peerLogs logs
    (∀ after, (command logs).run env emphasis now w = (.ok (), after) →
      ∃ s p, Settings.load w.tree.read env settings = .ok s ∧ p.perform w = (.ok (), after) ∧
        match manifest with
        | none => DeliversNodes s now output w.tree.read peers
            (fun (_ : Option String) (_ : Unit) => True) p
        | some path => ∃ m, w.tree.read.ShowsManifest s.manifest path m ∧
            DeliversNodes s now output w.tree.read peers m.Dates p) ∧
    (command logs).run env emphasis now w = (command peers).run env emphasis now w ∧
    ∀ failure after, (command logs).run env emphasis now w = (.error failure, after) →
      failure.lacksPeers = false := by
  intro command peers
  refine ⟨fun after h => ?_, ?_, fun failure after h => ?_⟩
  · obtain ⟨p, hp, hperform⟩ := plan_of_run env emphasis now w h
    obtain ⟨s, hs, hp⟩ := exceptBind_eq_ok.1 hp
    refine ⟨s, p, mapError_eq_ok_iff.1 hs, hperform, ?_⟩
    cases manifest with
    | none => exact deliversNodes_network hp
    | some path => exact deliversNodes_network_dated hp
  · have hplan : (command peers).plan w.tree.read env emphasis now =
        (command logs).plan w.tree.read env emphasis now := by
      simp only [plan, command, peers, network_peerLogs]
    rw [run, run, hplan]
  · have hplanned := plannedIf_plan w.tree.read env emphasis now (command logs)
    unfold run at h
    split at h
    next p hp =>
      have hdelivery := (hplanned.onlyDelivers p hp).isIntake_of_perform h
      cases hlacks : failure.lacksPeers with
      | false => rfl
      | true =>
        rw [failure.isIntake_of_lacksPeers hlacks] at hdelivery
        cases hdelivery
    next other hp =>
      cases h
      exact (hplanned.isIntake failure hp).lacksPeers

/-- Two logs of one node, whose directory is spelled in two ways, and between them a log that
    another node wrote of itself. -/
theorem totals_count_peers_two_logs :
    let w : World := ⟨⟨["home"], [(["home"], .directory),
      (["result_0", "home"], .directory), (["result_1", "home"], .directory),
      (["bandwidth_1.log", "result_0", "home"], .file (textBytes "10 sec 2 Gbits/sec\n")),
      (["bandwidth_2.log", "result_0", "home"], .file (textBytes "10 sec 952 Mbits/sec\n")),
      (["bandwidth_1.log", "result_1", "home"], .file (textBytes "connection refused\n"))]⟩, ""⟩
    let logs : List RunInput := [⟨none, ⟨"result_0/bandwidth_1.log"⟩⟩,
      ⟨none, ⟨"result_1/bandwidth_1.log"⟩⟩, ⟨none, ⟨"result_0//bandwidth_2.log"⟩⟩]
    let i : Invocation := ⟨none, .network logs none true ⟨.text, none, none⟩⟩
    let now := Date.atClock ⟨2015, 8, 31, by decide⟩ 9 0 0
    let peers := RunInput.peerLogs logs
    (peers.map RunInput.nodeKey).dedup.length = 1 ∧
      ∃ after s p, i.run [] .plain now w = (.ok (), after) ∧
        Settings.load w.tree.read [] none = .ok s ∧ p.perform w = (.ok (), after) ∧
        DeliversNodes s now ⟨.text, none, none⟩ w.tree.read peers
          (fun (_ : Option String) (_ : Unit) => True) p := by
  intro w logs i now peers
  have hsucceeds : (i.run [] .plain now w).1 = .ok () := by decide +kernel
  -- the world behind the run is kept abstract, for nothing depends on what was printed
  obtain ⟨after, hrun⟩ : ∃ after, i.run [] .plain now w = (.ok (), after) := by
    generalize i.run [] .plain now w = outcome at hsucceeds ⊢
    exact ⟨outcome.2, Prod.ext hsucceeds rfl⟩
  obtain ⟨hcounts, -, -⟩ := totals_count_peers [] .plain now w none logs none ⟨.text, none, none⟩
  obtain ⟨s, p, hs, hperform, hp⟩ := hcounts after hrun
  exact ⟨by decide +kernel, after, s, p, hrun, hs, hperform, hp⟩

/-- A node whose only log is one of itself: the command succeeds and counts nothing, though
    a run and a directory were named. -/
theorem own_log_leaves_no_node :
    let w : World := ⟨⟨["home"], [(["home"], .directory), (["result_0", "home"], .directory),
      (["bandwidth_0.log", "result_0", "home"], .file (textBytes "x 1 Gbits/sec\n"))]⟩, ""⟩
    let logs : List RunInput := [⟨none, ⟨"result_0/bandwidth_0.log"⟩⟩]
    let now := Date.atClock ⟨2015, 8, 31, by decide⟩ 9 0 0
    (logs.map RunInput.nodeKey).dedup.length = 1 ∧
      Invocation.run [] .plain now w ⟨none, .network logs none true ⟨.text, none, none⟩⟩ =
        (.ok (), { w with printed := "No. of readings: 0\n" }) := by
  decide +kernel

end Invocation

end Throughput
