/-
  Throughput/Proofs/Command/Failures.lean
  =======================================
  **Failures of intake and of delivery.**  A command fails while it takes in what it is
  given, or later.  The two kinds of failure do not mix: whatever reading and summarizing
  fail with is a failure of intake (`IsIntake`), and neither a step nor the verdict of a
  plan to deliver ever is one (`Plan.OnlyDelivers`).  One failure of intake never occurs:
  grouping leaves no node without logs, so no node lacks peers.
-/
import Throughput.Proofs.Command.Intake
import Throughput.Proofs.Input.Nodes

namespace Throughput

/-! ### Kinds of failures -/

/-- A failure to load the settings, or to read or summarize what a command is given. -/
def CommandFailure.isIntake : CommandFailure → Bool
  | settings _ | notOpened .. | manifest .. | logWithoutRun _ | nodeWithoutRun _ | input _
  | log .. | node .. => true
  | seriesNotWritten .. | noDirectory _ | notCreated .. | notEmitted _ | settingTooLarge
  | withheld _ => false

/-- A node has no logs of peers. -/
def CommandFailure.lacksPeers : CommandFailure → Bool
  | node _ (.malformedBandwidth _ .noPeerLogs) => true
  | _ => false

theorem CommandFailure.isIntake_of_lacksPeers (failure : CommandFailure)
    (h : failure.lacksPeers = true) : failure.isIntake = true := by
  unfold lacksPeers at h
  split at h
  · rfl
  · cases h

/-- A failure that can end intake. -/
structure CommandFailure.EndsIntake (failure : CommandFailure) : Prop where
  isIntake : failure.isIntake = true
  lacksPeers : failure.lacksPeers = false

/-- Nothing else than intake fails. -/
def IsIntake {α : Type} (x : Except CommandFailure α) : Prop :=
  ∀ failure, x = .error failure → failure.EndsIntake

namespace IsIntake

variable {α β : Type} {x : Except CommandFailure α}

theorem ok (a : α) : IsIntake (.ok a) := by
  intro failure h
  cases h

theorem mapError {ε : Type} {y : Except ε α} {f : ε → CommandFailure}
    (hf : ∀ e, y = .error e → (f e).EndsIntake) : IsIntake (y.mapError f) := by
  intro failure h
  cases y with
  | ok a => cases h
  | error e =>
    cases h
    exact hf e rfl

theorem bind {f : α → Except CommandFailure β} (hx : IsIntake x) (hf : ∀ a, IsIntake (f a)) :
    IsIntake (x >>= f) := by
  cases x with
  | ok a => exact hf a
  | error e => exact fun failure h => hx failure (by cases h; rfl)

theorem mapM {f : α → Except CommandFailure β} {xs : List α} (hf : ∀ a ∈ xs, IsIntake (f a)) :
    IsIntake (xs.mapM f) := by
  intro failure h
  obtain ⟨_, a, _, rfl, -, ha⟩ := mapM_eq_error_iff.1 h
  exact hf a List.mem_append_cons_self failure ha

theorem map {f : α → β} (hx : IsIntake x) : IsIntake (x.map f) := by
  intro failure h
  exact hx failure (map_eq_error_iff.1 h)

end IsIntake

namespace Intake

variable {κ : Type} [SeriesKey κ] (files : Files)

theorem isIntake_openLog (path : Path) : IsIntake (openLog files path) :=
  .mapError fun _ _ => ⟨rfl, rfl⟩

theorem isIntake_readLog (path : Path) : IsIntake (readLog files path) := by
  refine (isIntake_openLog files path).bind fun source => ?_
  intro failure h
  cases hsource : source.failure with
  | none => simp [hsource, pure, Except.pure] at h
  | some error =>
    rw [hsource] at h
    cases h
    exact ⟨rfl, rfl⟩

theorem isIntake_readBandwidth (rule : BandwidthRule) (path : Path) :
    IsIntake (readBandwidth files rule path) :=
  (isIntake_openLog files path).bind fun _ => .mapError fun _ _ => ⟨rfl, rfl⟩

/-- No line is malformed for lack of logs. -/
theorem ofLog_ne_noPeerLogs (rule : BandwidthRule) (log : Source) (line : String) :
    rule.ofLog log ≠ .error (.malformedBandwidth line .noPeerLogs) := by
  intro h
  cases BandwidthRule.ofLog_eq_error_iff.1 h with
  | malformed _ _ _ _ hfailure =>
    unfold BandwidthRule.ofLine at hfailure
    split at hfailure
    · split at hfailure
      · cases hfailure
      · split at hfailure <;> cases hfailure
    · cases hfailure

theorem isIntake_readTotal (rule : BandwidthRule) {node : NodeLogs} (hne : node.files ≠ []) :
    IsIntake (readTotal files rule node) := by
  cases hsources : node.files.mapM (openLog files) with
  | error failure =>
    rw [readTotal, hsources]
    intro other h
    cases h
    exact IsIntake.mapM (fun path _ => isIntake_openLog files path) failure hsources
  | ok sources =>
    have hsome : sources ≠ [] := by
      rintro rfl
      exact hne (List.forall₂_nil_right_iff.1 (mapM_eq_ok_iff.1 hsources))
    rw [readTotal, hsources]
    refine .mapError fun failure h => ⟨rfl, ?_⟩
    obtain ⟨_, log, _, -, -, hlog⟩ := (Session.totalBandwidth_eq_error_iff_firstFailure hsome).1 h
    unfold CommandFailure.lacksPeers
    split
    next heq =>
      cases heq
      exact absurd hlog (ofLog_ne_noPeerLogs rule log _)
    · rfl

theorem isIntake_readManifest (s : Settings) (path : Path) :
    IsIntake (readManifest files s path) :=
  (isIntake_openLog files path).bind fun _ => .mapError fun _ _ => ⟨rfl, rfl⟩

theorem isIntake_runOf (m : Manifest) {missing : CommandFailure} (h : missing.EndsIntake)
    (id : Option String) : IsIntake (runOf m missing id) := by
  cases id with
  | none =>
    intro failure hfailure
    cases hfailure
    exact h
  | some name => exact .mapError fun _ _ => ⟨rfl, rfl⟩

theorem isIntake_logRun (m : Manifest) (log : RunInput) : IsIntake (logRun m log) :=
  isIntake_runOf m ⟨rfl, rfl⟩ log.run

theorem isIntake_nodeRun (m : Manifest) (node : NodeLogs) : IsIntake (nodeRun m node) :=
  isIntake_runOf m ⟨rfl, rfl⟩ node.run

theorem isIntake_network (perNode : Bool) (s : Session κ)
    {logKey : RunInput → Except CommandFailure κ} {nodeKey : NodeLogs → Except CommandFailure κ}
    (hlog : ∀ log, IsIntake (logKey log)) (hnode : ∀ node, IsIntake (nodeKey node))
    (logs : List RunInput) : IsIntake (network files perNode s logKey nodeKey logs) := by
  rw [network_eq]
  refine IsIntake.map ?_
  unfold bandwidths
  split
  · refine .mapM fun node hmem => (hnode node).bind fun key => ?_
    have hne := (NodeLogs.gathers_group logs).files_ne_nil hmem
    exact (isIntake_readTotal files s.rule hne).map
  · refine .mapM fun log _ => (hlog log).bind fun key => ?_
    exact (isIntake_readBandwidth files s.rule log.path).map

end Intake

/-! ### Plans -/

namespace Plan

/-- No failure of a plan is one of intake. -/
structure OnlyDelivers (p : Plan) : Prop where
  steps : ∀ step ∈ p.steps, ∀ e, (step.failure e).isIntake = false
  verdict : ∀ failure, p.verdict = .error failure → failure.isIntake = false

theorem isIntake_of_performAll {w after : World} {steps : List Step} {failure : CommandFailure}
    (hsteps : ∀ step ∈ steps, ∀ e, (step.failure e).isIntake = false)
    (h : Step.performAll w steps = (.error failure, after)) : failure.isIntake = false := by
  induction steps generalizing w with
  | nil => cases h
  | cons step rest ih =>
    obtain ⟨hstep, hrest⟩ := List.forall_mem_cons.1 hsteps
    rw [Step.performAll] at h
    split at h
    · exact ih hrest h
    · cases h
      exact hstep _

theorem OnlyDelivers.isIntake_of_perform {p : Plan} (hp : p.OnlyDelivers) {w after : World}
    {failure : CommandFailure} (h : p.perform w = (.error failure, after)) :
    failure.isIntake = false := by
  rw [perform] at h
  split at h
  · exact hp.verdict failure (Prod.ext_iff.1 h).1
  next hsteps =>
    cases h
    exact isIntake_of_performAll hp.steps hsteps

theorem forall_mem_all {failure : IoError → CommandFailure} {effects : List Effect}
    (h : ∀ e, (failure e).isIntake = false) :
    ∀ step ∈ Step.all failure effects, ∀ e, (step.failure e).isIntake = false := by
  intro step hstep e
  obtain ⟨effect, -, rfl⟩ := List.mem_map.1 hstep
  exact h e

theorem forall_mem_createSteps (path : Path) :
    ∀ step ∈ createSteps path, ∀ e, (step.failure e).isIntake = false := by
  intro step hstep e
  simp only [createSteps, List.mem_cons, List.not_mem_nil, or_false] at hstep
  rcases hstep with rfl | rfl <;> rfl

theorem forall_mem_sink (title : String) (output : OutputOptions) :
    ∀ step ∈ (sink title output).2, ∀ e, (step.failure e).isIntake = false := by
  unfold sink
  split
  · exact List.forall_mem_nil _
  · exact forall_mem_createSteps _
  · exact List.forall_mem_nil _
  · exact forall_mem_createSteps _
  · exact List.forall_mem_nil _

section Deliver

variable {κ : Type} [SeriesKey κ] {s : Settings} {now : Stamp} {title : String}
  {output : OutputOptions}

theorem onlyDelivers_deliver {c : Collection κ} {p : Plan}
    (h : deliver s now title c output = .ok p) : p.OnlyDelivers := by
  obtain ⟨report, -, h⟩ := exceptBind_eq_ok.1 h
  cases h
  constructor
  · intro step hstep
    rcases List.mem_append.1 hstep with hstep | hstep
    · rcases List.mem_append.1 hstep with hstep | hstep
      · split at hstep
        · split at hstep
          · cases hstep
          · exact forall_mem_all (fun _ => rfl) step hstep
        · cases hstep
      · exact forall_mem_sink title output step hstep
    · exact forall_mem_all (fun _ => rfl) step hstep
  · intro failure hverdict
    simp only at hverdict
    split at hverdict
    · cases hverdict
      rfl
    · cases hverdict

theorem isIntake_deliver (c : Collection κ) : IsIntake (deliver s now title c output) :=
  (IsIntake.mapError fun _ _ => ⟨rfl, rfl⟩).bind fun _ => .ok _

/-- Where all percentiles are ranks, there is a report to deliver. -/
theorem exists_deliver (hranks : ∀ rank ∈ s.percentiles, Quantity.isRank rank = true)
    (c : Collection κ) : ∃ p, deliver s now title c output = .ok p := by
  obtain ⟨report, hreport⟩ := c.exists_summarize hranks
  exact ⟨_, exceptBind_eq_ok.2 ⟨report, mapError_eq_ok_iff.2 hreport, rfl⟩⟩

end Deliver

theorem onlyDelivers_status (s : Settings) (file : Option Path) (emphasis : Emphasis) :
    (status s file emphasis).OnlyDelivers := by
  unfold status
  dsimp only
  split
  · exact ⟨forall_mem_all fun _ => rfl, fun failure h => by cases h⟩
  · exact ⟨forall_mem_all fun _ => rfl, fun failure h => by cases h; rfl⟩

end Plan

end Throughput
