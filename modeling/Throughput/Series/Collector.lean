/-
  Throughput/Series/Collector.lean
  ================================
  **Collecting samples into series.**  A collector holds one buffer per tag, in
  the order of the tags; that order is part of its type.  Finishing it gives
  the groups.  A daily series can be finished with the missing days filled in
  by groups without samples.
-/
import Throughput.Failure
import Throughput.Series.Key

namespace Throughput

structure TimedSample where
  time : Stamp
  value : Binary64
  deriving DecidableEq

/-- The samples of one series.  Points are the samples with a known time, in
    chronological order. -/
structure Group (κ : Type) where
  metric : Metric
  key : κ
  samples : List Binary64
  points : List TimedSample
  deriving DecidableEq

namespace Group

/-- A group that no sample fell into. -/
def gap {κ : Type} (metric : Metric) (key : κ) : Group κ := ⟨metric, key, [], []⟩

def count {κ : Type} (g : Group κ) : Nat := g.samples.length

def isEmpty {κ : Type} (g : Group κ) : Bool := g.samples.isEmpty

end Group

/-- The samples of a series in the order they came. -/
structure Buffer where
  samples : Array Binary64
  points : Array TimedSample

namespace Buffer

def empty : Buffer := ⟨#[], #[]⟩

/-- Adds a sample, with its time if it has one. -/
def add (time : Option Stamp) (value : Binary64) (b : Buffer) : Buffer where
  samples := b.samples.push value
  points := match time with
    | none => b.points
    | some time => b.points.push ⟨time, value⟩

end Buffer

structure Collector (κ : Type) [SeriesKey κ] where
  buffers : List (Tag κ × Buffer)
  ascending : buffers.Pairwise fun a b => a.1.before b.1 = true

namespace Collector

variable {κ : Type} [SeriesKey κ]

def empty : Collector κ := ⟨[], .nil⟩

/-! ### Updating one buffer -/

/-- Changes the buffer of a tag, which starts out empty. -/
def updateBuffers (tag : Tag κ) (f : Buffer → Buffer) :
    List (Tag κ × Buffer) → List (Tag κ × Buffer)
  | [] => [(tag, f .empty)]
  | (t, b) :: rest =>
    if t.before tag then (t, b) :: updateBuffers tag f rest
    else if tag.before t then (tag, f .empty) :: (t, b) :: rest
    else (t, f b) :: rest

/-- An update brings in no tag but its own. -/
theorem tag_mem_updateBuffers {tag : Tag κ} {f : Buffer → Buffer}
    {buffers : List (Tag κ × Buffer)} {e : Tag κ × Buffer}
    (h : e ∈ updateBuffers tag f buffers) :
    e.1 = tag ∨ ∃ e' ∈ buffers, e'.1 = e.1 := by
  induction buffers with
  | nil =>
    simp only [updateBuffers, List.mem_singleton] at h
    exact .inl (h ▸ rfl)
  | cons head rest ih =>
    obtain ⟨t, b⟩ := head
    unfold updateBuffers at h
    split at h
    · rcases List.mem_cons.1 h with rfl | h
      · exact .inr ⟨_, List.mem_cons_self, rfl⟩
      · rcases ih h with h | ⟨e', he', heq⟩
        · exact .inl h
        · exact .inr ⟨e', List.mem_cons_of_mem _ he', heq⟩
    · split at h
      · rcases List.mem_cons.1 h with rfl | h
        · exact .inl rfl
        · exact .inr ⟨e, h, rfl⟩
      · rcases List.mem_cons.1 h with rfl | h
        · exact .inr ⟨_, List.mem_cons_self, rfl⟩
        · exact .inr ⟨e, List.mem_cons_of_mem _ h, rfl⟩

theorem ascending_updateBuffers (tag : Tag κ) (f : Buffer → Buffer)
    {buffers : List (Tag κ × Buffer)}
    (h : buffers.Pairwise fun a b => a.1.before b.1 = true) :
    (updateBuffers tag f buffers).Pairwise fun a b => a.1.before b.1 = true := by
  induction buffers with
  | nil => exact List.pairwise_singleton _ _
  | cons head rest ih =>
    obtain ⟨t, b⟩ := head
    obtain ⟨hhead, hrest⟩ := List.pairwise_cons.1 h
    unfold updateBuffers
    split
    next hbefore =>
      refine List.pairwise_cons.2 ⟨fun e he => ?_, ih hrest⟩
      rcases tag_mem_updateBuffers he with heq | ⟨e', he', heq⟩
      · exact heq ▸ hbefore
      · exact heq ▸ hhead e' he'
    next =>
      split
      next hbefore =>
        refine List.pairwise_cons.2 ⟨fun e he => ?_, h⟩
        rcases List.mem_cons.1 he with rfl | he
        · exact hbefore
        · exact Tag.before_trans hbefore (hhead e he)
      next => exact List.pairwise_cons.2 ⟨hhead, hrest⟩

def push (c : Collector κ) (tag : Tag κ) (time : Option Stamp) (value : Binary64) :
    Collector κ :=
  ⟨updateBuffers tag (Buffer.add time value) c.buffers, ascending_updateBuffers _ _ c.ascending⟩

/-- Adds the sample of a reading; an unrecognized one is refused. -/
def pushReading (c : Collector κ) (key : κ) (r : Reading) : Except Failure (Collector κ) :=
  match r.verdict with
  | .measured operation => .ok (c.push ⟨.ofOperation operation, key⟩ none r.value)
  | .unrecognized fields => .error (.unrecognizedReading fields)

def sampleCount (c : Collector κ) : Nat := c.buffers.foldl (fun n (_, b) => n + b.samples.size) 0

/-! ### Finishing -/

def group (tag : Tag κ) (b : Buffer) : Group κ where
  metric := tag.metric
  key := tag.key
  samples := b.samples.toList
  points := b.points.toList.mergeSort fun p q => decide (p.time ≤ q.time)

/-- The groups, by metric and then by key. -/
def finish (c : Collector κ) : List (Group κ) := c.buffers.map fun (tag, b) => group tag b

/-- Puts a gap for every day that is missing between two groups of one metric. -/
def fillGaps : List (Group Date) → List (Group Date)
  | [] => []
  | [g] => [g]
  | g :: h :: rest =>
    let gaps :=
      if g.metric = h.metric then (Date.daysBetween g.key h.key).map (Group.gap g.metric) else []
    g :: gaps ++ fillGaps (h :: rest)

/-- The groups of a daily series without missing days. -/
def finishContiguous (c : Collector Date) : List (Group Date) := fillGaps c.finish

end Collector

end Throughput
