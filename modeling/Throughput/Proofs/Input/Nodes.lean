/-
  Throughput/Proofs/Input/Nodes.lean
  ==================================
  **Logs by node.**  A node is known by its run and by the components of its
  directory.  Grouping puts every log that is not a node's own to one node, the nodes in
  their order and the files of each in the order of the logs (`gathers_group`); so the
  nodes have the keys of these logs, each once (`Gathers.keys_perm`).

  Nodes are ordered through a rank in a linear order, so that the laws of their order
  are those of ranks.
-/
import Mathlib.Data.Char
import Mathlib.Data.List.Dedup
import Mathlib.Data.List.Lex
import Mathlib.Data.Prod.Lex
import Mathlib.Order.WithBot
import Throughput.Input.RunInput

namespace Throughput

/-! ### The order of components -/

namespace Component

/-- The characters of a name; nothing of other components. -/
def characters : Component → List Char
  | name text => text.toList
  | _ => []

/-- What components are ordered by. -/
def rank (c : Component) : ℕ ×ₗ List Char := toLex (c.kind, c.characters)

theorem rank_injective : Function.Injective rank := by
  intro a b h
  have hpair : (a.kind, a.characters) = (b.kind, b.characters) := toLex.injective h
  cases a <;> cases b <;> simp_all [kind, characters, String.toList_inj]

theorem before_iff {a b : Component} : a.before b = true ↔ a.rank < b.rank := by
  simp only [rank, Prod.Lex.toLex_lt_toLex]
  cases a with
  | name text =>
    cases b with
    | name text' =>
      simp only [before, kind, characters, decide_eq_true_eq, lt_irrefl, false_or, true_and]
      exact Iff.rfl
    | _ => simp [before, kind]
  | _ => cases b <;> simp [before, kind, characters]

theorem listBefore_iff {as bs : List Component} :
    listBefore as bs = true ↔ as.map rank < bs.map rank := by
  induction as generalizing bs with
  | nil => cases bs <;> simp [listBefore]
  | cons a as ih =>
    cases bs with
    | nil => simp [listBefore]
    | cons b bs =>
      simp only [listBefore, List.map_cons, List.cons_lt_cons_iff, Bool.or_eq_true,
        Bool.and_eq_true, decide_eq_true_eq, before_iff, ih, rank_injective.eq_iff]

end Component

/-! ### The order of nodes -/

/-- What a node is known by. -/
abbrev NodeKey := Option String × List Component

namespace NodeLogs

def key (n : NodeLogs) : NodeKey := (n.run, n.node.components)

/-- What runs are ordered by: logs without a run come first. -/
def runRank : Option String → WithBot (List Char)
  | none => ⊥
  | some run => run.toList

/-- What nodes are ordered by. -/
def rankOf (k : NodeKey) : WithBot (List Char) ×ₗ List (ℕ ×ₗ List Char) :=
  toLex (runRank k.1, k.2.map Component.rank)

theorem runRank_injective : Function.Injective runRank := by
  intro a b h
  cases a with
  | none =>
    cases b with
    | none => rfl
    | some b => exact absurd h WithBot.bot_ne_coe
  | some a =>
    cases b with
    | none => exact absurd h WithBot.coe_ne_bot
    | some b => rw [String.toList_inj.1 (WithBot.coe_injective h)]

theorem rankOf_injective : Function.Injective rankOf := by
  intro a b h
  have hpair : (runRank a.1, a.2.map Component.rank) = (runRank b.1, b.2.map Component.rank) :=
    toLex.injective h
  obtain ⟨hrun, hdirectory⟩ := Prod.ext_iff.1 hpair
  exact Prod.ext (runRank_injective hrun) (Component.rank_injective.list_map hdirectory)

theorem runBefore_iff {a b : Option String} : runBefore a b = true ↔ runRank a < runRank b := by
  cases a with
  | none =>
    cases b with
    | none => simp [runBefore]
    | some b => exact iff_of_true rfl (WithBot.bot_lt_coe _)
  | some a =>
    cases b with
    | none => simp [runBefore, runRank]
    | some b =>
      rw [runBefore, decide_eq_true_eq, runRank, runRank, WithBot.coe_lt_coe]
      exact Iff.rfl

theorem before_iff {a b : NodeLogs} : a.before b = true ↔ rankOf a.key < rankOf b.key := by
  simp only [before, Bool.or_eq_true, Bool.and_eq_true, decide_eq_true_eq, runBefore_iff,
    Path.before, Component.listBefore_iff, rankOf, key, Prod.Lex.toLex_lt_toLex,
    runRank_injective.eq_iff]

theorem before_trans {a b c : NodeLogs} (hab : a.before b = true) (hbc : b.before c = true) :
    a.before c = true :=
  before_iff.2 (lt_trans (before_iff.1 hab) (before_iff.1 hbc))

/-- The order of nodes does not depend on their files. -/
theorem pairwise_before_iff {nodes : List NodeLogs} :
    (nodes.Pairwise fun m n => m.before n = true) ↔
      (nodes.map key).Pairwise fun j k => rankOf j < rankOf k := by
  rw [List.pairwise_map]
  simp only [before_iff]

theorem key_ne_of_before {a b : NodeLogs} (h : a.before b = true) : a.key ≠ b.key := by
  intro hkey
  rw [before_iff, hkey] at h
  exact lt_irrefl _ h

theorem key_eq_of_not_before {a b : NodeLogs} (hab : ¬ a.before b = true)
    (hba : ¬ b.before a = true) : a.key = b.key := by
  rw [before_iff] at hab hba
  exact rankOf_injective (le_antisymm (not_lt.1 hba) (not_lt.1 hab))

end NodeLogs

/-! ### Gathering -/

/-- The key of the node that a log belongs to. -/
def RunInput.nodeKey (i : RunInput) : NodeKey := (NodeLogs.ofInput i).key

/-- The logs that nodes wrote of others. -/
def RunInput.peerLogs (logs : List RunInput) : List RunInput :=
  logs.filter (!·.path.isLoopback)

namespace NodeLogs

/-- Nodes in their order, with all logs of each in the order they are named; the first
    one gives the directory its spelling. -/
structure Gathers (logs : List RunInput) (nodes : List NodeLogs) : Prop where
  ascending : nodes.Pairwise fun m n => m.before n = true
  files_eq : ∀ n ∈ nodes, n.files = (logs.filter (·.nodeKey = n.key)).map (·.path)
  first : ∀ n ∈ nodes, ∃ i, logs.find? (·.nodeKey = n.key) = some i ∧ n.node = (ofInput i).node
  exists_node : ∀ i ∈ logs, ∃ n ∈ nodes, n.key = i.nodeKey

/-- A node is put among the others in one of two ways. -/
theorem insert_cases (n : NodeLogs) {nodes : List NodeLogs}
    (h : nodes.Pairwise fun m n => m.before n = true) :
    (∃ front m back, nodes = front ++ m :: back ∧ m.key = n.key ∧
      insert n nodes = front ++ { m with files := m.files ++ n.files } :: back) ∨
    ∃ front back, nodes = front ++ back ∧ (∀ m ∈ front, m.before n = true) ∧
      (∀ m ∈ back, n.before m = true) ∧ insert n nodes = front ++ n :: back := by
  induction nodes with
  | nil => exact .inr ⟨[], [], rfl, by simp, by simp, rfl⟩
  | cons m rest ih =>
    obtain ⟨hm, hrest⟩ := List.pairwise_cons.1 h
    rw [insert]
    by_cases hmn : m.before n = true
    · rw [if_pos hmn]
      obtain ⟨front, same, back, rfl, hkey, heq⟩ | ⟨front, back, rfl, hfront, hback, heq⟩ :=
        ih hrest
      · exact .inl ⟨m :: front, same, back, rfl, hkey, by rw [heq]; rfl⟩
      · exact .inr ⟨m :: front, back, rfl, List.forall_mem_cons.2 ⟨hmn, hfront⟩, hback,
          by rw [heq]; rfl⟩
    · rw [if_neg hmn]
      by_cases hnm : n.before m = true
      · rw [if_pos hnm]
        have hback : ∀ m' ∈ m :: rest, n.before m' = true :=
          List.forall_mem_cons.2 ⟨hnm, fun m' hm' => before_trans hnm (hm m' hm')⟩
        exact .inr ⟨[], m :: rest, rfl, by simp, hback, rfl⟩
      · rw [if_neg hnm]
        exact .inl ⟨[], m, rest, rfl, key_eq_of_not_before hmn hnm, rfl⟩

namespace Gathers

variable {logs : List RunInput} {nodes : List NodeLogs} {i : RunInput} {n : NodeLogs}

theorem nodup_keys (h : Gathers logs nodes) : (nodes.map key).Nodup :=
  List.pairwise_map.2 (h.ascending.imp key_ne_of_before)

theorem exists_log (h : Gathers logs nodes) (hn : n ∈ nodes) :
    ∃ i ∈ logs, i.nodeKey = n.key := by
  obtain ⟨i, hi, -⟩ := h.first n hn
  exact ⟨i, List.mem_of_find?_eq_some hi, by simpa using List.find?_some hi⟩

/-- A node stays as it is when a log of another node is added. -/
theorem files_eq_append (h : Gathers logs nodes) (hn : n ∈ nodes) (hkey : i.nodeKey ≠ n.key) :
    n.files = ((logs ++ [i]).filter (·.nodeKey = n.key)).map (·.path) := by
  rw [List.filter_append, List.filter_singleton, decide_eq_false hkey, h.files_eq n hn]
  simp

theorem first_append (h : Gathers logs nodes) (hn : n ∈ nodes) :
    ∃ first, (logs ++ [i]).find? (·.nodeKey = n.key) = some first ∧
      n.node = (ofInput first).node := by
  obtain ⟨first, hfirst, hnode⟩ := h.first n hn
  exact ⟨first, by rw [List.find?_append, hfirst, Option.some_or], hnode⟩

/-- One more log of a node that there is. -/
theorem append_merged {front back : List NodeLogs} (h : Gathers logs (front ++ n :: back))
    (hkey : n.key = i.nodeKey) :
    Gathers (logs ++ [i]) (front ++ { n with files := n.files ++ [i.path] } :: back) := by
  have hkeys := h.nodup_keys
  rw [List.map_append, List.map_cons, List.nodup_middle, List.nodup_cons, ← List.map_append]
    at hkeys
  have hother : ∀ m ∈ front ++ back, i.nodeKey ≠ m.key ∧ m ∈ front ++ n :: back := by
    intro m hm
    constructor
    · intro hsame
      exact hkeys.1 (List.mem_map.2 ⟨m, hm, hsame.symm.trans hkey.symm⟩)
    · rw [List.mem_append, List.mem_cons]
      exact (List.mem_append.1 hm).imp_right .inr
  have hn : n ∈ front ++ n :: back := List.mem_append_cons_self
  have hcases : ∀ m ∈ front ++ { n with files := n.files ++ [i.path] } :: back,
      m = { n with files := n.files ++ [i.path] } ∨ m ∈ front ++ back := by
    intro m hm
    rw [List.mem_append, List.mem_cons] at hm
    rw [List.mem_append]
    tauto
  refine ⟨?_, fun m hm => ?_, fun m hm => ?_, fun log hlog => ?_⟩
  · have hkeys := pairwise_before_iff.1 h.ascending
    rw [List.map_append, List.map_cons] at hkeys
    exact pairwise_before_iff.2 (by rw [List.map_append]; exact hkeys)
  · rcases hcases m hm with rfl | hm
    · have hkept : (logs ++ [i]).filter (·.nodeKey = n.key) =
          logs.filter (·.nodeKey = n.key) ++ [i] := by
        rw [List.filter_append, List.filter_singleton, decide_eq_true hkey.symm]
        rfl
      change n.files ++ [i.path] = ((logs ++ [i]).filter (·.nodeKey = n.key)).map (·.path)
      rw [hkept, List.map_append, ← h.files_eq n hn]
      rfl
    · exact h.files_eq_append (hother m hm).2 (hother m hm).1
  · rcases hcases m hm with rfl | hm
    · exact h.first_append (n := n) hn
    · exact h.first_append (hother m hm).2
  · have hmerged : ∃ m ∈ front ++ n :: back, m.key = log.nodeKey := by
      rcases List.mem_append.1 hlog with hlog | hlog
      · exact h.exists_node log hlog
      · rw [List.mem_singleton.1 hlog]
        exact ⟨n, hn, hkey⟩
    obtain ⟨m, hm, hlogkey⟩ := hmerged
    rw [List.mem_append, List.mem_cons] at hm
    rcases hm with hm | rfl | hm
    · exact ⟨m, List.mem_append_left _ hm, hlogkey⟩
    · exact ⟨_, List.mem_append_cons_self, hlogkey⟩
    · exact ⟨m, List.mem_append_right _ (List.mem_cons_of_mem _ hm), hlogkey⟩

/-- The first log of a node. -/
theorem append_new {front back : List NodeLogs} (h : Gathers logs (front ++ back))
    (hfront : ∀ m ∈ front, m.before (ofInput i) = true)
    (hback : ∀ m ∈ back, (ofInput i).before m = true) :
    Gathers (logs ++ [i]) (front ++ ofInput i :: back) := by
  have hother : ∀ m ∈ front ++ back, i.nodeKey ≠ m.key := by
    intro m hm
    rcases List.mem_append.1 hm with hm | hm
    · exact (key_ne_of_before (hfront m hm)).symm
    · exact key_ne_of_before (hback m hm)
  have hnone : ∀ log ∈ logs, ¬ log.nodeKey = i.nodeKey := by
    intro log hlog hsame
    obtain ⟨m, hm, hkey⟩ := h.exists_node log hlog
    exact hother m hm (hkey.trans hsame).symm
  have hcases : ∀ m, m ∈ front ++ ofInput i :: back ↔ m = ofInput i ∨ m ∈ front ++ back := by
    intro m
    rw [List.mem_append, List.mem_append, List.mem_cons]
    tauto
  refine ⟨?_, fun m hm => ?_, fun m hm => ?_, fun log hlog => ?_⟩
  · obtain ⟨hf, hb, hfb⟩ := List.pairwise_append.1 h.ascending
    refine List.pairwise_append.2 ⟨hf, List.pairwise_cons.2 ⟨hback, hb⟩, fun m hm => ?_⟩
    exact List.forall_mem_cons.2 ⟨hfront m hm, hfb m hm⟩
  · rcases (hcases m).1 hm with rfl | hm
    · change [i.path] = ((logs ++ [i]).filter (·.nodeKey = i.nodeKey)).map (·.path)
      rw [List.filter_append, List.filter_eq_nil_iff.2 (by simpa using hnone)]
      simp
    · exact h.files_eq_append hm (hother m hm)
  · rcases (hcases m).1 hm with rfl | hm
    · change ∃ first, (logs ++ [i]).find? (·.nodeKey = i.nodeKey) = some first ∧ _
      rw [List.find?_append, List.find?_eq_none.2 (by simpa using hnone)]
      exact ⟨i, by simp, rfl⟩
    · exact h.first_append hm
  · rcases List.mem_append.1 hlog with hlog | hlog
    · obtain ⟨m, hm, hkey⟩ := h.exists_node log hlog
      exact ⟨m, (hcases m).2 (.inr hm), hkey⟩
    · rw [List.mem_singleton.1 hlog]
      exact ⟨ofInput i, (hcases _).2 (.inl rfl), rfl⟩

theorem insert (h : Gathers logs nodes) (i : RunInput) :
    Gathers (logs ++ [i]) (NodeLogs.insert (ofInput i) nodes) := by
  obtain ⟨front, m, back, rfl, hkey, heq⟩ | ⟨front, back, rfl, hfront, hback, heq⟩ :=
    insert_cases (ofInput i) h.ascending
  · rw [heq]
    exact h.append_merged hkey
  · rw [heq]
    exact h.append_new hfront hback

theorem foldl_insert (h : Gathers logs nodes) (more : List RunInput) :
    Gathers (logs ++ more) (more.foldl (fun nodes i => NodeLogs.insert (ofInput i) nodes) nodes) := by
  induction more generalizing logs nodes with
  | nil => rwa [List.append_nil]
  | cons i more ih =>
    rw [List.foldl_cons, List.append_cons]
    exact ih (h.insert i)

/-- Nodes are as many as the keys of their logs. -/
theorem keys_perm (h : Gathers logs nodes) :
    (nodes.map key).Perm (logs.map RunInput.nodeKey).dedup := by
  refine (List.perm_ext_iff_of_nodup h.nodup_keys (List.nodup_dedup _)).2 fun k => ?_
  rw [List.mem_dedup, List.mem_map, List.mem_map]
  constructor
  · rintro ⟨n, hn, rfl⟩
    exact h.exists_log hn
  · rintro ⟨i, hi, rfl⟩
    exact h.exists_node i hi

theorem forall_run_iff (h : Gathers logs nodes) {P : Option String → Prop} :
    (∀ n ∈ nodes, P n.run) ↔ ∀ i ∈ logs, P i.run := by
  constructor
  · intro hnodes i hi
    obtain ⟨n, hn, hkey⟩ := h.exists_node i hi
    have hrun : n.run = i.run := congrArg Prod.fst hkey
    rw [← hrun]
    exact hnodes n hn
  · intro hlogs n hn
    obtain ⟨i, hi, hkey⟩ := h.exists_log hn
    have hrun : i.run = n.run := congrArg Prod.fst hkey
    rw [← hrun]
    exact hlogs i hi

theorem forall_files_iff (h : Gathers logs nodes) {P : Path → Prop} :
    (∀ n ∈ nodes, ∀ path ∈ n.files, P path) ↔ ∀ i ∈ logs, P i.path := by
  constructor
  · intro hnodes i hi
    obtain ⟨n, hn, hkey⟩ := h.exists_node i hi
    refine hnodes n hn i.path ?_
    rw [h.files_eq n hn]
    exact List.mem_map_of_mem (List.mem_filter.2 ⟨hi, decide_eq_true hkey.symm⟩)
  · intro hlogs n hn path hpath
    rw [h.files_eq n hn] at hpath
    obtain ⟨i, hi, rfl⟩ := List.mem_map.1 hpath
    exact hlogs i (List.mem_of_mem_filter hi)

theorem files_ne_nil (h : Gathers logs nodes) (hn : n ∈ nodes) : n.files ≠ [] := by
  obtain ⟨i, hi, hkey⟩ := h.exists_log hn
  have hmem : i ∈ logs.filter (·.nodeKey = n.key) :=
    List.mem_filter.2 ⟨hi, decide_eq_true hkey⟩
  rw [h.files_eq n hn]
  exact List.ne_nil_of_mem (List.mem_map_of_mem hmem)

end Gathers

theorem gathers_nil : Gathers [] [] := by
  constructor <;> simp

/-- **What grouping makes of logs.** -/
theorem gathers_group (logs : List RunInput) :
    Gathers (RunInput.peerLogs logs) (group logs) :=
  gathers_nil.foldl_insert _

/-- A node's log of itself does not count. -/
theorem group_peerLogs (logs : List RunInput) : group (RunInput.peerLogs logs) = group logs := by
  rw [group, RunInput.peerLogs, List.filter_filter]
  simp only [Bool.and_self]
  rfl

end NodeLogs

end Throughput
