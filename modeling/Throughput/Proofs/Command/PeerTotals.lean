/-
  Throughput/Proofs/Command/PeerTotals.lean
  =========================================
  **Which logs count for a node.**  The total of a node is the sum of what all its logs
  report (`network_eq_ok_iff`), so that a log is missing from it only if grouping leaves the
  log out.  That happens to the log of a node about itself, however its path is spelled, and
  to a file whose name differs from that of such a log in the ending alone
  (`group_leaves_out`).
-/
import Throughput.Proofs.Command.Intake
import Throughput.Proofs.Input.OwnLogs

namespace Throughput

namespace Intake

variable {κ : Type} [SeriesKey κ] {files : Files}

/-- Logs are taken in as one total for each of their nodes. -/
theorem network_eq_ok_iff {s after : Session κ} {logKey : RunInput → Except CommandFailure κ}
    {nodeKey : NodeLogs → Except CommandFailure κ} {logs : List RunInput} :
    network files true s logKey nodeKey logs = .ok after ↔
      ∃ entries, List.Forall₂ (IsTotal files s.rule nodeKey) (NodeLogs.group logs) entries ∧
        after = takeAll s entries := by
  rw [network_eq, map_eq_ok_iff]
  simp only [bandwidths_eq_ok_iff]

end Intake

/-! ### Logs that count and logs that do not -/

namespace NodeLogs

variable {κ : Type} [SeriesKey κ]

/-- **What grouping leaves out.**  It leaves out the logs `bandwidth_<n>.log` in `result_<n>`,
    however their paths are spelled, and the files mistaken for them; all other logs are held
    by their nodes, as often as they are named, and count in the totals of these.  So own logs
    are all that is left out exactly if no log is mistaken, and no log whose name ends in `.log`
    ever is. -/
theorem group_leaves_out (files : Files) (s : Session κ)
    (logKey : RunInput → Except CommandFailure κ) (nodeKey : NodeLogs → Except CommandFailure κ)
    (logs : List RunInput) :
    LeavesOut (fun p => p.IsOwnLog ∨ p.IsMistaken) logs (group logs) ∧
      (LeavesOut Path.IsOwnLog logs (group logs) ↔ ∀ i ∈ logs, ¬ i.path.IsMistaken) ∧
      (∀ p : Path, p.IsMistaken →
        ¬ p.IsOwnLog ∧ ∀ stem, p.names.getLast? ≠ some (stem ++ ".log")) ∧
      (∀ p : Path, p.IsOwnLog ↔ ∃ n, p.directory.fileName? = some ("result_" ++ n) ∧
        p.fileName? = some ("bandwidth_" ++ n ++ ".log")) ∧
      (∀ p q : Path, Path.Respelled p q → p.names = q.names) ∧
      ∀ after, Intake.network files true s logKey nodeKey logs = .ok after ↔
        ∃ entries, List.Forall₂ (Intake.IsTotal files s.rule nodeKey) (group logs) entries ∧
          after = Intake.takeAll s entries :=
  ⟨leavesOut_group logs, leavesOut_isOwnLog_iff,
    fun _ h => ⟨h.not_isOwnLog, h.getLast?_names_ne⟩, fun _ => Path.isOwnLog_iff,
    fun _ _ h => h.names_eq, fun _ => Intake.network_eq_ok_iff⟩

/-- Three logs in one directory: the node's own log under a long spelling, which is not there
    to be opened, the log of a peer, and a file that is mistaken. -/
theorem group_leaves_out_three :
    let tree : FileTree := ⟨["home"], [(["home"], .directory), (["result_0", "home"], .directory),
      (["bandwidth_1.log", "result_0", "home"], .file (textBytes "10 sec 2 Gbits/sec\n")),
      (["bandwidth_0.2", "result_0", "home"], .file (textBytes "10 sec 3 Gbits/sec\n"))]⟩
    let own : RunInput := ⟨none, ⟨"/home//result_0/./bandwidth_0.log/"⟩⟩
    let peer : RunInput := ⟨none, ⟨"result_0/bandwidth_1.log"⟩⟩
    let mistaken : RunInput := ⟨none, ⟨"result_0/bandwidth_0.2"⟩⟩
    let logs := [own, peer, mistaken]
    let s : Session Unit := Intake.start .standard
    own.path.IsOwnLog ∧ (heldLogs (group logs)).count own = 0 ∧
      ¬ (peer.path.IsOwnLog ∨ peer.path.IsMistaken) ∧ (heldLogs (group logs)).count peer = 1 ∧
      mistaken.path.IsMistaken ∧ ¬ mistaken.path.IsOwnLog ∧
      (heldLogs (group logs)).count mistaken = 0 ∧
      ¬ LeavesOut Path.IsOwnLog logs (group logs) ∧
      peer.path.names = (Path.mk ("./" ++ peer.path.text)).names ∧
      ∃ after entries, Intake.network tree.read true s (fun _ => .ok ()) (fun _ => .ok ()) logs =
          .ok after ∧
        List.Forall₂ (Intake.IsTotal tree.read s.rule fun _ => .ok ()) (group logs) entries ∧
        after = Intake.takeAll s entries := by
  intro tree own peer mistaken logs s
  obtain ⟨hleaves, hexact, hmistaken, hown, hspelled, htotals⟩ :=
    group_leaves_out tree.read s (fun _ => .ok ()) (fun _ => .ok ()) logs
  have ho : own.path.IsOwnLog := (hown _).2 ⟨"0", by decide +kernel⟩
  have hp : ¬ (peer.path.IsOwnLog ∨ peer.path.IsMistaken) :=
    (not_congr Path.isLoopback_iff_isOwnLog_or).1 (by decide +kernel)
  have hm : mistaken.path.IsMistaken :=
    ⟨"0", "bandwidth_" ++ "0" ++ "." ++ "2", by decide +kernel, .ending (by decide) (by decide)⟩
  have hread : ∃ after, Intake.network tree.read true s (fun _ => .ok ()) (fun _ => .ok ()) logs =
      .ok after := by
    have hok : (Intake.network tree.read true s (fun _ => .ok ()) (fun _ => .ok ())
        logs).toOption.isSome = true := by decide +kernel
    generalize Intake.network tree.read true s _ _ logs = outcome at hok
    cases outcome with
    | error failure => cases hok
    | ok after => exact ⟨after, rfl⟩
  obtain ⟨after, hafter⟩ := hread
  obtain ⟨entries, hentries, htaken⟩ := (htotals after).1 hafter
  have hone : logs.count peer = 1 := by decide +kernel
  exact ⟨ho, hleaves.left_out own (.inl ho), hp, (hleaves.held peer hp).trans hone, hm,
    (hmistaken _ hm).1, hleaves.left_out mistaken (.inr hm),
    fun h => hexact.1 h mistaken (by simp [logs]) hm, hspelled _ _ (.current peer.path.text),
    after, entries, hafter, hentries, htaken⟩

/-- A log that the node `1` wrote of a peer `1.2` is left out, though it is not of itself. -/
theorem group_leaves_out_log_of_peer :
    let log : RunInput := ⟨none, ⟨"result_1/bandwidth_1.2"⟩⟩
    ¬ log.path.IsOwnLog ∧ group [log] = [] ∧ ¬ LeavesOut Path.IsOwnLog [log] (group [log]) := by
  intro log
  have hmistaken : log.path.IsMistaken :=
    ⟨"1", "bandwidth_" ++ "1" ++ "." ++ "2", by decide +kernel, .ending (by decide) (by decide)⟩
  refine ⟨hmistaken.not_isOwnLog, by decide +kernel, fun h => ?_⟩
  exact leavesOut_isOwnLog_iff.1 h log (by simp) hmistaken

end NodeLogs

end Throughput
