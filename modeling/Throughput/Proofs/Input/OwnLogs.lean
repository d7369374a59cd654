/-
  Throughput/Proofs/Input/OwnLogs.lean
  ====================================
  **Logs of nodes about themselves.**  The file `bandwidth_<n>.log` in a directory
  `result_<n>` is what the node `<n>` wrote of itself, and grouping leaves it out, however
  its path is spelled.  But a file is told by its name without its ending, so that
  `bandwidth_<n>.txt` and `bandwidth_<n>` pass for it too (`isLoopback_iff_isOwnLog_or`), and
  so does `bandwidth_1.2` in `result_1`, a log of the node `1.2`.

  These are all that is mistaken.  Every other log is at its node (`leavesOut_group`), and
  nothing but own logs is left out exactly if nothing is mistaken (`leavesOut_isOwnLog_iff`).
-/
import Throughput.Proofs.Input.Partition

namespace Throughput

/-! ### Names of logs -/

theorem withoutStart?_eq_some_iff {start text rest : String} :
    withoutStart? start text = some rest ↔ text = start ++ rest := by
  unfold withoutStart?
  constructor
  · intro h
    split_ifs at h with hstart
    have htext := List.prefix_iff_eq_append.1 (List.isPrefixOf_iff_prefix.1 hstart)
    rw [← Option.some_inj.1 h, ← String.toList_inj, String.toList_append, String.toList_ofList]
    exact htext.symm
  · rintro rfl
    rw [if_pos (by simp [String.toList_append]), String.toList_append, ← String.length_toList,
      List.drop_left, String.ofList_toList]

/-- The names, other than `bandwidth_<n>.log`, that pass for it: without an ending, or with
    another one. -/
inductive PassesFor (n : String) : String → Prop
  | bare (h : '.' ∉ n.toList) : PassesFor n ("bandwidth_" ++ n)
  | ending {e : String} (h : '.' ∉ e.toList) (hne : e ≠ "log") :
    PassesFor n ("bandwidth_" ++ n ++ "." ++ e)

/-- The names of logs that a node is taken to have written of itself. -/
theorem stem_eq_iff {n file : String} :
    (Path.splitExtension file).1 = "bandwidth_" ++ n ↔
      file = "bandwidth_" ++ n ++ ".log" ∨ PassesFor n file := by
  have hhead : ("bandwidth_" ++ n).toList.head? = some 'b' := by simp [String.toList_append]
  rw [Path.splitExtension_fst_eq_iff hhead (by decide)]
  constructor
  · rintro (⟨rfl, hdot⟩ | ⟨e, he, rfl⟩)
    · exact .inr (.bare fun hn => hdot (by simp [String.toList_append, hn]))
    · by_cases hlog : e = "log"
      · subst hlog
        exact .inl String.append_assoc
      · exact .inr (.ending he hlog)
  · rintro (rfl | ⟨hn⟩ | ⟨he, -⟩)
    · exact .inr ⟨"log", by decide,
        (String.append_assoc : "bandwidth_" ++ n ++ "." ++ "log" = _).symm⟩
    · exact .inl ⟨rfl, by simpa [String.toList_append] using hn⟩
    · exact .inr ⟨_, he, rfl⟩

/-- No name that ends in `.log` passes for another one. -/
theorem PassesFor.ne_append_log {n file : String} (h : PassesFor n file) (stem : String) :
    file ≠ stem ++ ".log" := by
  intro heq
  have hlog : stem ++ ".log" = stem ++ "." ++ "log" :=
    (String.append_assoc : stem ++ "." ++ "log" = _).symm
  cases h with
  | bare h =>
    have hdot : '.' ∈ ("bandwidth_" ++ n).toList := by simp [heq, String.toList_append]
    exact h (by simpa [String.toList_append] using hdot)
  | ending h hne => exact hne (Path.ending_eq_of_append_eq h (by decide) (heq.trans hlog))

namespace Path

/-- The log that a node wrote of itself, by the last two names on its path. -/
def IsOwnLog (p : Path) : Prop :=
  ∃ n, ["result_" ++ n, "bandwidth_" ++ n ++ ".log"] <:+ p.names

/-- Another file, whose name passes for that of a log of itself. -/
def IsMistaken (p : Path) : Prop :=
  ∃ n file, ["result_" ++ n, file] <:+ p.names ∧ PassesFor n file

theorem pair_suffix_iff {α : Type} {a b : α} {xs : List α} :
    [a, b] <:+ xs ↔ xs.dropLast.getLast? = some a ∧ xs.getLast? = some b := by
  constructor
  · rintro ⟨front, rfl⟩
    simp
  · rintro ⟨ha, hb⟩
    obtain ⟨front, rfl⟩ := List.getLast?_eq_some_iff.1 hb
    rw [List.dropLast_concat] at ha
    obtain ⟨front, rfl⟩ := List.getLast?_eq_some_iff.1 ha
    exact ⟨front, by simp⟩

/-- A file name and that of its directory are the last two names of the path. -/
theorem fileNames_iff {p : Path} {name file : String} (hname : name ≠ "..") (hfile : file ≠ "..") :
    (p.directory.fileName? = some name ∧ p.fileName? = some file) ↔ [name, file] <:+ p.names := by
  rw [fileName?_directory_eq_some_iff, fileName?_eq_some_iff, pair_suffix_iff]
  simp only [hname, hfile, ne_eq, not_false_eq_true, and_true]

theorem ne_up_of_head? {text : String} {c : Char} (h : text.toList.head? = some c)
    (hc : c ≠ '.') : text ≠ ".." := by
  rintro rfl
  exact hc (Option.some_inj.1 h).symm

theorem resultName_ne_up (n : String) : "result_" ++ n ≠ ".." :=
  ne_up_of_head? (c := 'r') (by simp [String.toList_append]) (by decide)

theorem isOwnLog_iff {p : Path} : p.IsOwnLog ↔
    ∃ n, p.directory.fileName? = some ("result_" ++ n) ∧
      p.fileName? = some ("bandwidth_" ++ n ++ ".log") := by
  refine exists_congr fun n => (fileNames_iff (resultName_ne_up n) ?_).symm
  exact ne_up_of_head? (c := 'b') (by simp [String.toList_append]) (by decide)

/-! ### How paths are told -/

theorem bind_fileName?_parent? (p : Path) : p.parent?.bind fileName? = p.directory.fileName? := by
  rw [directory]
  cases p.parent? <;> rfl

theorem fileStem?_eq_some_iff {p : Path} {stem : String} : p.fileStem? = some stem ↔
    ∃ file, p.fileName? = some file ∧ (splitExtension file).1 = stem := by
  rw [fileStem?, Option.map_eq_some_iff]

theorem isLoopback_iff_exists {p : Path} : p.isLoopback = true ↔
    ∃ n, p.directory.fileName?.bind (withoutStart? "result_") = some n ∧
      p.fileStem?.bind (withoutStart? "bandwidth_") = some n := by
  rw [← bind_fileName?_parent?]
  unfold isLoopback
  cases (p.parent?.bind fileName?).bind (withoutStart? "result_") with
  | none => simp
  | some node =>
    cases p.fileStem?.bind (withoutStart? "bandwidth_") with
    | none => simp
    | some peer =>
      rw [beq_iff_eq]
      constructor
      · rintro rfl
        exact ⟨node, rfl, rfl⟩
      · rintro ⟨n, hn, hp⟩
        rw [Option.some_inj.1 hn, Option.some_inj.1 hp]

/-- The node stands in the name of the directory and in that of the file, there without its
    ending. -/
theorem isLoopback_iff {p : Path} : p.isLoopback = true ↔
    ∃ n file, (p.directory.fileName? = some ("result_" ++ n) ∧ p.fileName? = some file) ∧
      (splitExtension file).1 = "bandwidth_" ++ n := by
  rw [isLoopback_iff_exists]
  simp only [Option.bind_eq_some_iff, withoutStart?_eq_some_iff, fileStem?_eq_some_iff]
  constructor
  · rintro ⟨n, ⟨name, hname, rfl⟩, ⟨stem, ⟨file, hfile, rfl⟩, hstem⟩⟩
    exact ⟨n, file, ⟨hname, hfile⟩, hstem⟩
  · rintro ⟨n, file, ⟨hname, hfile⟩, hstem⟩
    exact ⟨n, ⟨_, hname, rfl⟩, ⟨_, ⟨file, hfile, rfl⟩, hstem⟩⟩

/-- **A path is told by its names**: it passes for a log of a node about itself exactly if it
    is one or is mistaken for one. -/
theorem isLoopback_iff_isOwnLog_or {p : Path} :
    p.isLoopback = true ↔ p.IsOwnLog ∨ p.IsMistaken := by
  have hnames : ∀ n file, (splitExtension file).1 = "bandwidth_" ++ n →
      ((p.directory.fileName? = some ("result_" ++ n) ∧ p.fileName? = some file) ↔
        ["result_" ++ n, file] <:+ p.names) := by
    intro n file hstem
    refine fileNames_iff (resultName_ne_up n) ?_
    rintro rfl
    have hdot : (splitExtension "..").1 = "." := by decide
    rw [hdot] at hstem
    exact absurd (congrArg (·.toList.head?) hstem) (by simp [String.toList_append])
  rw [isLoopback_iff]
  constructor
  · rintro ⟨n, file, hfile, hstem⟩
    rw [hnames n file hstem] at hfile
    rcases stem_eq_iff.1 hstem with rfl | hpasses
    · exact .inl ⟨n, hfile⟩
    · exact .inr ⟨n, file, hfile, hpasses⟩
  · rintro (⟨n, hown⟩ | ⟨n, file, hfile, hpasses⟩)
    · have hstem := stem_eq_iff.2 (.inl (Eq.refl ("bandwidth_" ++ n ++ ".log")))
      exact ⟨n, _, (hnames n _ hstem).2 hown, hstem⟩
    · have hstem := stem_eq_iff.2 (.inr hpasses)
      exact ⟨n, file, (hnames n file hstem).2 hfile, hstem⟩

/-- No file whose name ends in `.log` is mistaken. -/
theorem IsMistaken.getLast?_names_ne {p : Path} (h : p.IsMistaken) (stem : String) :
    p.names.getLast? ≠ some (stem ++ ".log") := by
  obtain ⟨n, file, hnames, hpasses⟩ := h
  rw [(pair_suffix_iff.1 hnames).2]
  exact fun hfile => hpasses.ne_append_log stem (Option.some_inj.1 hfile)

theorem IsMistaken.not_isOwnLog {p : Path} (h : p.IsMistaken) : ¬ p.IsOwnLog := by
  rintro ⟨n, hown⟩
  exact h.getLast?_names_ne _ (pair_suffix_iff.1 hown).2

end Path

/-! ### What grouping leaves out -/

namespace NodeLogs

/-- The logs that nodes hold, with their runs. -/
def heldLogs (nodes : List NodeLogs) : List RunInput :=
  nodes.flatMap fun n => n.files.map (RunInput.mk n.run)

/-- Nodes leave out the logs of a kind, and hold each other one as often as it is named:
    with the run it belongs to, at the node of its directory. -/
structure LeavesOut (kind : Path → Prop) (logs : List RunInput) (nodes : List NodeLogs) :
    Prop where
  left_out : ∀ i : RunInput, kind i.path → (heldLogs nodes).count i = 0
  held : ∀ i : RunInput, ¬ kind i.path → (heldLogs nodes).count i = logs.count i
  exists_node : ∀ i ∈ logs, ¬ kind i.path → ∃ n ∈ nodes, i.IsOf n ∧ i.path ∈ n.files

variable {logs : List RunInput}

theorem leavesOut_group (logs : List RunInput) :
    LeavesOut (fun p => p.IsOwnLog ∨ p.IsMistaken) logs (group logs) := by
  have hgathers := gathers_group logs
  have hpeers : ∀ i : RunInput, ¬ (i.path.IsOwnLog ∨ i.path.IsMistaken) →
      (!i.path.isLoopback) = true := by
    intro i hi
    rwa [← Path.isLoopback_iff_isOwnLog_or, Bool.not_eq_true, ← Bool.not_eq_true'] at hi
  refine ⟨fun i hi => ?_, fun i hi => ?_, fun i hmem hi => ?_⟩
  · rw [heldLogs, hgathers.flatMap_files_perm.count_eq, List.count_eq_zero]
    intro hmem
    have hloopback := (List.mem_filter.1 hmem).2
    rw [Path.isLoopback_iff_isOwnLog_or.2 hi] at hloopback
    cases hloopback
  · rw [heldLogs, hgathers.flatMap_files_perm.count_eq]
    exact List.count_filter (hpeers i hi)
  · have hpeer : i ∈ RunInput.peerLogs logs := List.mem_filter.2 ⟨hmem, hpeers i hi⟩
    obtain ⟨n, hn, hkey⟩ := hgathers.exists_node i hpeer
    refine ⟨n, hn, RunInput.nodeKey_eq_iff.1 hkey.symm, ?_⟩
    rw [hgathers.files_eq n hn]
    exact List.mem_map_of_mem (List.mem_filter.2 ⟨hpeer, decide_eq_true hkey.symm⟩)

/-- Only logs of nodes about themselves are left out exactly if no log is mistaken for one. -/
theorem leavesOut_isOwnLog_iff :
    LeavesOut Path.IsOwnLog logs (group logs) ↔ ∀ i ∈ logs, ¬ i.path.IsMistaken := by
  have hgroup := leavesOut_group logs
  constructor
  · -- a mistaken log would have to be held as often as it is named
    intro h i hi hmistaken
    have hcount := h.held i hmistaken.not_isOwnLog
    rw [hgroup.left_out i (.inr hmistaken)] at hcount
    exact (List.count_pos_iff.2 hi).ne hcount
  · intro h
    refine ⟨fun i hi => hgroup.left_out i (.inl hi), fun i hi => ?_, fun i hmem hi => ?_⟩
    · -- what is mistaken is neither held nor named
      by_cases hmistaken : i.path.IsMistaken
      · rw [hgroup.left_out i (.inr hmistaken)]
        exact (List.count_eq_zero.2 fun hmem => h i hmem hmistaken).symm
      · exact hgroup.held i (not_or.2 ⟨hi, hmistaken⟩)
    · exact hgroup.exists_node i hmem (not_or.2 ⟨hi, h i hmem⟩)

end NodeLogs

end Throughput
