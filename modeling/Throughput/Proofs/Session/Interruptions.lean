/-
  Throughput/Proofs/Session/Interruptions.lean
  ============================================
  **What failures leave behind.**  Taking in a bandwidth is all or nothing: if one
  log of a node has none, the session stays as it was, and the failure is that of
  the first such log (`totalBandwidth_eq_error_iff`).  A disk log that breaks off
  is different.  It leaves what the log would have left that ends at the last
  newline delivered (`diskLog_eq_wholeLines`).

  So nobody can tell from a session what failed on the way.  Without the steps that
  failed, and with the logs that broke off cut to their whole lines, all steps
  succeed and lead to the same session (`after_mended`).
-/
import Throughput.Proofs.Reading.Bandwidths
import Throughput.Proofs.Report.Summaries
import Throughput.Proofs.Session.Findings

namespace Throughput

open Text

variable {κ : Type}

namespace Session

/-! ### Totals -/

/-- Why the logs of a node have no total: there are none, or the first of them that
    reports no bandwidth has a reason of its own. -/
inductive LacksTotal (rule : BandwidthRule) (logs : List Source) : Failure → Prop where
  | noLogs (hlogs : logs = []) : LacksTotal rule logs (.malformedBandwidth "" .noPeerLogs)
  | badLog {before after : List Source} {log : Source} {failure : Failure}
      (hlogs : logs = before ++ log :: after)
      (hbefore : ∀ log' ∈ before, ∃ value, rule.ofLog log' = .ok value)
      (hlog : log.LacksBandwidth rule failure) : LacksTotal rule logs failure

variable {rule : BandwidthRule} {logs : List Source} {failure : Failure}

theorem totalBandwidth_of_ne_nil (h : logs ≠ []) :
    totalBandwidth rule logs = (logs.mapM rule.ofLog).map (·.foldl (· + ·) (.zero false)) := by
  rw [totalBandwidth, if_neg (by simpa using h)]
  exact foldlM_map_eq_map_mapM _ _ _

/-- One of several logs is bad exactly if the total of them fails. -/
theorem totalBandwidth_eq_error_iff_firstFailure (h : logs ≠ []) :
    totalBandwidth rule logs = .error failure ↔ FirstFailure rule.ofLog logs failure := by
  rw [totalBandwidth_of_ne_nil h, map_eq_error_iff, mapM_eq_error_iff]

/-- **The first bad log decides** how a total fails. -/
theorem totalBandwidth_eq_error_iff :
    totalBandwidth rule logs = .error failure ↔ LacksTotal rule logs failure := by
  constructor
  · intro h
    by_cases hnil : logs = []
    · subst hnil
      cases h
      exact .noLogs rfl
    · obtain ⟨before, log, after, hlogs, hbefore, hlog⟩ :=
        (totalBandwidth_eq_error_iff_firstFailure hnil).1 h
      exact .badLog hlogs hbefore (BandwidthRule.ofLog_eq_error_iff.1 hlog)
  · intro h
    cases h with
    | noLogs hlogs =>
      subst hlogs
      rfl
    | badLog hlogs hbefore hlog =>
      have hnil : logs ≠ [] := by simp [hlogs]
      apply (totalBandwidth_eq_error_iff_firstFailure hnil).2
      exact ⟨_, _, _, hlogs, hbefore, BandwidthRule.ofLog_eq_error_iff.2 hlog⟩

/-! ### All or nothing -/

variable [SeriesKey κ]

/-- A step that brings in one bandwidth or, for one of the reasons, nothing. -/
structure IsAllOrNothing (reasons : Failure → Prop) (key : κ) (s : Session κ)
    (step : Except Failure Binary64 × Session κ) : Prop where
  fails_iff : ∀ failure, step.1 = .error failure ↔ reasons failure
  unchanged : ∀ failure, step.1 = .error failure → step.2 = s
  taken : ∀ value, step.1 = .ok value → step.2 = s.takeBandwidth key value

theorem isAllOrNothing_noteAll {reasons : Failure → Prop} {outcome : Except Failure Binary64}
    (h : ∀ failure, outcome = .error failure ↔ reasons failure) (key : κ) (s : Session κ) :
    IsAllOrNothing reasons key s (outcome, s.noteAll (Finding.ofBandwidth key outcome)) := by
  constructor
  · exact h
  · intro failure houtcome
    dsimp only at houtcome
    rw [houtcome]
    rfl
  · intro value houtcome
    dsimp only at houtcome
    rw [houtcome]
    rfl

theorem isAllOrNothing_networkLog (key : κ) (s : Session κ) (log : Source) :
    IsAllOrNothing (log.LacksBandwidth s.rule) key s (s.networkLog key log) := by
  rw [networkLog_eq]
  apply isAllOrNothing_noteAll
  intro failure
  exact BandwidthRule.ofLog_eq_error_iff

theorem isAllOrNothing_nodeLogs (key : κ) (s : Session κ) (logs : List Source) :
    IsAllOrNothing (LacksTotal s.rule logs) key s (s.nodeLogs key logs) := by
  rw [nodeLogs_eq]
  apply isAllOrNothing_noteAll
  intro failure
  exact totalBandwidth_eq_error_iff

end Session

/-! ### Logs that break off -/

/-- The log as far as its last newline if it broke off. -/
def Source.mended (log : Source) : Source :=
  match log.failure with
  | none => log
  | some _ => ⟨wholeLines log.bytes, none⟩

theorem Source.failure_mended (log : Source) : log.mended.failure = none := by
  unfold mended
  cases hlog : log.failure with
  | none => exact hlog
  | some error => rfl

theorem Source.lines_mended (log : Source) : log.mended.lines = log.lines := by
  obtain ⟨bytes, failure⟩ := log
  cases failure with
  | none => rfl
  | some error => exact (endedLines_eq_byteLines bytes).symm

theorem Source.readings_mended (d : Delimiter) (log : Source) :
    log.mended.readings d = log.readings d := by
  rw [readings, lines_mended, readings]

namespace Session

variable [SeriesKey κ]

theorem diskLog_eq_wholeLines (time : Option Stamp) (key : Reading → κ) (s : Session κ)
    (bytes : List UInt8) (error : IoError) :
    (s.diskLog time key ⟨bytes, some error⟩).2 =
      (s.diskLog time key ⟨wholeLines bytes, none⟩).2 := by
  have hreadings := Source.readings_mended s.delimiter ⟨bytes, some error⟩
  rw [diskLog_eq, diskLog_eq, ← hreadings]
  rfl

/-- A disk log that breaks off tells so, and counts up to its last newline. -/
structure KeepsWholeLines (time : Option Stamp) (key : Reading → κ) (s : Session κ)
    (bytes : List UInt8) (error : IoError) : Prop where
  fails : (s.diskLog time key ⟨bytes, some error⟩).1 = .error (.io error)
  leaves : ∃ found, s.diskLog time key ⟨wholeLines bytes, none⟩ =
    (.ok found, (s.diskLog time key ⟨bytes, some error⟩).2)

theorem keepsWholeLines_diskLog (time : Option Stamp) (key : Reading → κ) (s : Session κ)
    (bytes : List UInt8) (error : IoError) : s.KeepsWholeLines time key bytes error := by
  constructor
  · rfl
  · rw [diskLog_eq_wholeLines]
    exact ⟨_, rfl⟩

/-- **Failures are contained.**  In any session a network log, and the logs of a node
    together, are one reading or none at all; they are refused exactly for the reasons
    of the log, or of the first bad one of the logs.  A disk log that breaks off
    anywhere fails, and leaves the session that its whole lines lead to. -/
theorem failures_contained (s : Session κ) :
    (∀ key log, IsAllOrNothing (log.LacksBandwidth s.rule) key s (s.networkLog key log)) ∧
    (∀ key logs, IsAllOrNothing (LacksTotal s.rule logs) key s (s.nodeLogs key logs)) ∧
    ∀ time key bytes error, s.KeepsWholeLines time key bytes error := by
  refine ⟨?_, ?_, ?_⟩
  · intro key log
    exact isAllOrNothing_networkLog key s log
  · intro key logs
    exact isAllOrNothing_nodeLogs key s logs
  · intro time key bytes error
    exact keepsWholeLines_diskLog time key s bytes error

/-- Of three logs of a node the second is blank and the third cannot be read; then a
    disk log breaks off in its second line. -/
theorem failures_contained_torn_line :
    let s : Session Unit := (start .comma .standard).line none (fun _ => ()) "r, z, 1".toList
    let logs : List Source := [.ofText "10 sec 2 Gbits/sec\n", .ofText "\r\n \n",
      ⟨[], some .noSpace⟩]
    let torn : List UInt8 := encodeUtf8 "r, a, 2\nw, b, 3".toList
    (LacksTotal s.rule logs (.malformedBandwidth "" .noSummaryLine) ∧
      (s.nodeLogs () logs).2 = s) ∧
    (s.diskLog none (fun _ => ()) ⟨torn, some .noSpace⟩).1 = .error (.io .noSpace) ∧
    s.diskLog none (fun _ => ()) (.ofText "r, a, 2\n") =
      (.ok 1, (s.diskLog none (fun _ => ()) ⟨torn, some .noSpace⟩).2) := by
  intro s logs torn
  obtain ⟨-, hnode, hdisk⟩ := failures_contained s
  have hfails : (s.nodeLogs () logs).1 = .error (.malformedBandwidth "" .noSummaryLine) := by
    decide +kernel
  obtain ⟨hio, found, hleaves⟩ := hdisk none (fun _ => ()) torn .noSpace
  have hwhole : wholeLines torn = encodeUtf8 "r, a, 2\n".toList := by decide +kernel
  have hone : (s.diskLog none (fun _ => ()) ⟨wholeLines torn, none⟩).1 = .ok 1 := by
    decide +kernel
  refine ⟨⟨?_, ?_⟩, hio, ?_⟩
  · exact ((hnode () logs).fails_iff _).1 hfails
  · exact (hnode () logs).unchanged _ hfails
  · rw [hleaves] at hone
    cases hone
    rw [Source.ofText, ← hwhole, hleaves]

end Session

/-! ### Runs without failures -/

/-- The step that succeeds where this one fails halfway; none if it fails altogether. -/
def Feed.mended? (rule : BandwidthRule) : Feed κ → Option (Feed κ)
  | .line key text => some (.line key text)
  | .disk key log => some (.disk key log.mended)
  | .run taken key log => some (.run taken key log.mended)
  | .network key log => if (rule.ofLog log).isOk then some (.network key log) else none
  | .node key logs =>
    if (Session.totalBandwidth rule logs).isOk then some (.node key logs) else none

/-- A step that fails altogether contributes nothing, and one that fails halfway what
    its mended version does. -/
theorem Feed.findings_mended? (d : Delimiter) (rule : BandwidthRule) (step : Feed κ) :
    (step.mended? rule).toList.flatMap (Feed.findings d rule) = step.findings d rule := by
  have hlog : ∀ (time : Option Stamp) (key : Reading → κ) (log : Source),
      (log.mended.readings d).map (Finding.ofReading time key) ++ [] =
        (log.readings d).map (Finding.ofReading time key) := by
    intro time key log
    rw [Source.readings_mended, List.append_nil]
  have hbandwidth : ∀ (step : Feed κ) (key : κ) (outcome : Except Failure Binary64),
      step.findings d rule = Finding.ofBandwidth key outcome →
        (if outcome.isOk then some step else none).toList.flatMap (Feed.findings d rule) =
          step.findings d rule := by
    intro step key outcome h
    cases outcome with
    | ok value => exact List.append_nil _
    | error e => exact h.symm
  cases step with
  | line key text => exact List.append_nil _
  | disk key log => exact hlog none key log
  | run taken key log => exact hlog (some taken.start) key log
  | network key log => exact hbandwidth _ key _ rfl
  | node key logs => exact hbandwidth _ key _ rfl

namespace Session

variable [SeriesKey κ]

/-- Whether a step goes through. -/
def succeeds (s : Session κ) : Feed κ → Bool
  | .line _ _ => true
  | .disk key log => (s.diskLog none key log).1.isOk
  | .run taken key log => (s.diskLog (some taken.start) key log).1.isOk
  | .network key log => (s.networkLog key log).1.isOk
  | .node key logs => (s.nodeLogs key logs).1.isOk

theorem isOk_diskLog (time : Option Stamp) (key : Reading → κ) (s : Session κ) {log : Source}
    (hlog : log.failure = none) : (s.diskLog time key log).1.isOk = true := by
  rw [diskLog_eq, hlog]
  rfl

theorem succeeds_mended? {s : Session κ} {step mended : Feed κ}
    (h : step.mended? s.rule = some mended) : s.succeeds mended = true := by
  cases step with
  | line key text =>
    cases h
    rfl
  | disk key log =>
    cases h
    exact isOk_diskLog none key s log.failure_mended
  | run taken key log =>
    cases h
    exact isOk_diskLog (some taken.start) key s log.failure_mended
  | network key log =>
    obtain ⟨hlog, hmended⟩ := Option.ite_none_right_eq_some.1 h
    cases hmended
    rw [succeeds, networkLog_eq]
    exact hlog
  | node key logs =>
    obtain ⟨htotal, hmended⟩ := Option.ite_none_right_eq_some.1 h
    cases hmended
    rw [succeeds, nodeLogs_eq]
    exact htotal

/-- **A session does not show its failures.**  Mended steps lead to the same session,
    and every one of them succeeds wherever it is taken. -/
theorem after_mended (d : Delimiter) (rule : BandwidthRule) (steps : List (Feed κ)) :
    let mended := steps.filterMap (Feed.mended? rule)
    after d rule mended = after d rule steps ∧
      ∀ step ∈ mended, ∀ s : Session κ, s.rule = rule → s.succeeds step = true := by
  intro mended
  constructor
  · have hfindings : mended.flatMap (Feed.findings d rule) =
        steps.flatMap (Feed.findings d rule) := by
      dsimp only [mended]
      rw [List.filterMap_eq_flatMap_toList, List.flatMap_assoc]
      apply List.flatMap_congr
      intro step _
      exact step.findings_mended? d rule
    rw [after_eq_noteAll, after_eq_noteAll, hfindings]
  · intro step hstep s hs
    obtain ⟨step', -, hmended⟩ := List.mem_filterMap.1 hstep
    rw [← hs] at hmended
    exact succeeds_mended? hmended

end Session

end Throughput
