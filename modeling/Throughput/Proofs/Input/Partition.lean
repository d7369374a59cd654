/-
  Throughput/Proofs/Input/Partition.lean
  ======================================
  **Nodes divide logs among them.**  Every log that is not a node's own belongs to
  exactly one node, which is known by the run of the log and the components of its
  directory (`group_divides`).  Two spellings of a directory are one node, and the first
  log of the node says which of them is shown; directories of different names beside each
  other are two nodes, for each name is a component.
-/
import Throughput.Proofs.Input.Names
import Throughput.Proofs.Input.Nodes
import Throughput.Proofs.Series.Unions

namespace Throughput

namespace RunInput

/-- The log belongs to the node: it has its run, and a directory with the same
    components. -/
def IsOf (n : NodeLogs) (i : RunInput) : Prop :=
  i.run = n.run ∧ i.path.directory.components = n.node.components

instance (n : NodeLogs) (i : RunInput) : Decidable (IsOf n i) :=
  inferInstanceAs (Decidable (_ ∧ _))

theorem nodeKey_eq_iff {i : RunInput} {n : NodeLogs} : i.nodeKey = n.key ↔ i.IsOf n := by
  have hkey : i.nodeKey = (i.run, i.path.directory.components) := rfl
  rw [hkey, NodeLogs.key, Prod.mk.injEq, IsOf]

/-- The log is a file in the directory. -/
def IsIn (directory : Path) (i : RunInput) : Prop :=
  ∃ file, Path.IsPlainName file ∧ i.path = directory.join file

theorem IsIn.components_eq {directory : Path} {i : RunInput} (h : i.IsIn directory)
    (hne : directory.text ≠ "") : i.path.directory.components = directory.components := by
  obtain ⟨file, hfile, hpath⟩ := h
  rw [hpath, Path.components_directory_join hne hfile]

/-- Logs of one node lie in directories of one name. -/
theorem IsOf.name_eq {n : NodeLogs} {i j : RunInput} (hi : i.IsOf n) (hj : j.IsOf n) {base : Path}
    (hbase : base.text ≠ "") {a b : String} (ha : Path.IsPlainName a) (hb : Path.IsPlainName b)
    (hia : i.IsIn (base.join a)) (hjb : j.IsIn (base.join b)) : a = b := by
  apply Path.eq_of_components_join hbase ha hb
  rw [← hia.components_eq (base.text_join_ne a), hi.2, ← hj.2,
    hjb.components_eq (base.text_join_ne b)]

end RunInput

namespace NodeLogs

/-- Nodes in their order, each with logs of its own that are all logs together. -/
structure Divides (logs : List RunInput) (nodes : List NodeLogs) : Prop where
  /-- Runs are in their order, with none before all of them, and the directories of a
      run in the order of their components. -/
  ascending : nodes.Pairwise fun m n => rankOf m.key < rankOf n.key
  nodup : (nodes.map key).Nodup
  files_ne_nil : ∀ n ∈ nodes, n.files ≠ []
  /-- The files of a node keep the order of the logs and their spelling. -/
  files_eq : ∀ n ∈ nodes, n.files = (logs.filter (·.IsOf n)).map (·.path)
  perm : (nodes.flatMap fun n => n.files.map (RunInput.mk n.run)).Perm logs
  /-- The directory of a node is shown as its first log has it. -/
  node_eq : ∀ n ∈ nodes, ∃ i, logs.find? (·.IsOf n) = some i ∧ n.node = i.path.directory

namespace Gathers

variable {logs : List RunInput} {nodes : List NodeLogs} {n : NodeLogs}

/-- The files of a node with its run are the logs of the node. -/
theorem map_files_eq (h : Gathers logs nodes) (hn : n ∈ nodes) :
    n.files.map (RunInput.mk n.run) = logs.filter (·.nodeKey = n.key) := by
  have hrun : ∀ i ∈ logs.filter (·.nodeKey = n.key), RunInput.mk n.run i.path = i := by
    intro i hi
    have hkey : i.nodeKey = n.key := of_decide_eq_true (List.mem_filter.1 hi).2
    rw [← (RunInput.nodeKey_eq_iff.1 hkey).1]
  rw [h.files_eq n hn, List.map_map]
  exact (List.map_congr_left hrun).trans (List.map_id' _)

theorem flatMap_files_perm (h : Gathers logs nodes) :
    (nodes.flatMap fun n => n.files.map (RunInput.mk n.run)).Perm logs := by
  have hparts : (nodes.flatMap fun n => n.files.map (RunInput.mk n.run)) =
      (nodes.map key).flatMap fun k => logs.filter (·.nodeKey = k) := by
    rw [List.flatMap_map]
    exact List.flatMap_congr fun n hn => h.map_files_eq hn
  have hall : ∀ i ∈ logs, i.nodeKey ∈ nodes.map key := by
    intro i hi
    obtain ⟨n, hn, hkey⟩ := h.exists_node i hi
    exact List.mem_map.2 ⟨n, hn, hkey⟩
  have hperm := flatMap_filter_perm RunInput.nodeKey logs h.nodup_keys
  rw [List.filter_eq_self.2 (by simpa only [decide_eq_true_eq] using hall)] at hperm
  rwa [hparts]

theorem divides (h : Gathers logs nodes) : Divides logs nodes where
  ascending := h.ascending.imp before_iff.1
  nodup := h.nodup_keys
  files_ne_nil _ hn := h.files_ne_nil hn
  files_eq n hn := by
    rw [h.files_eq n hn]
    simp only [RunInput.nodeKey_eq_iff]
  perm := h.flatMap_files_perm
  node_eq n hn := by
    obtain ⟨i, hi, hnode⟩ := h.first n hn
    refine ⟨i, ?_, hnode⟩
    simpa only [RunInput.nodeKey_eq_iff] using hi

end Gathers

/-- **Grouping divides the logs that are not a node's own among the nodes.**  Of the
    directory of a log, which has all components of its path but the last one, only the
    components count: a slash behind a slash and a dot between slashes add none, and a
    plain name adds itself.  So logs in directories of different names beside each other
    never belong to one node. -/
theorem group_divides (logs : List RunInput) :
    Divides (RunInput.peerLogs logs) (group logs) ∧
      (∀ p : Path, p.directory.components = p.components.dropLast) ∧
      (∀ a b : String,
        (Path.mk (a ++ "//" ++ b)).components = (Path.mk (a ++ "/" ++ b)).components ∧
        (Path.mk (a ++ "/./" ++ b)).components = (Path.mk (a ++ "/" ++ b)).components) ∧
      (∀ name, Path.IsPlainName name → (Path.mk name).components = [.name name] ∧
        ∀ p : Path, p.text ≠ "" → (p.join name).components = p.components ++ [.name name]) ∧
      ∀ (base : Path) (a b : String), base.text ≠ "" → Path.IsPlainName a → Path.IsPlainName b →
        ∀ (n : NodeLogs) (i j : RunInput), i.IsIn (base.join a) → j.IsIn (base.join b) →
          i.IsOf n → j.IsOf n → a = b := by
  refine ⟨(gathers_group logs).divides, Path.components_directory, ?_, ?_, ?_⟩
  · intro a b
    exact ⟨Path.components_slash_slash a b, Path.components_slash_dot_slash a b⟩
  · intro name hname
    exact ⟨Path.components_of_isPlainName hname, fun p hp => Path.components_join hp hname⟩
  · intro base a b hbase ha hb n i j hia hjb hi hj
    exact hi.name_eq hj hbase ha hb hia hjb

/-- Logs of two directories, one of them spelled in two ways, and a log that a node wrote
    of itself. -/
theorem group_divides_two_directories :
    let one : RunInput := ⟨none, ⟨"logs/result_1/bandwidth_0.log"⟩⟩
    let zero : RunInput := ⟨none, ⟨"logs/result_0/bandwidth_1.log"⟩⟩
    let logs := [one, ⟨none, ⟨"logs/result_0/bandwidth_0.log"⟩⟩, zero,
      ⟨none, ⟨"logs//./result_1/bandwidth_2.log"⟩⟩]
    Divides (RunInput.peerLogs logs) (group logs) ∧
      (group logs).map (fun n => (n.node.text, n.files.length)) =
        [("logs/result_0", 1), ("logs/result_1", 2)] ∧
      ∀ n : NodeLogs, ¬(one.IsOf n ∧ zero.IsOf n) := by
  intro one zero logs
  obtain ⟨hdivides, -, -, -, hnames⟩ := group_divides logs
  refine ⟨hdivides, by decide +kernel, ?_⟩
  rintro n ⟨hone, hzero⟩
  have hname : "result_1" = "result_0" := hnames ⟨"logs"⟩ "result_1" "result_0" (by decide)
    (by decide) (by decide) n one zero ⟨"bandwidth_0.log", by decide, rfl⟩
    ⟨"bandwidth_1.log", by decide, rfl⟩ hone hzero
  exact absurd hname (by decide)

end NodeLogs

end Throughput
