/-
  Throughput/Proofs/Series/Grouping.lean
  ======================================
  **What finishing gives.**  Whatever is pushed into a collector, its groups are
  the grouping of the observations pushed: ascending by tag, one group for each
  tag observed, the samples of a group in the order they came and its points in
  chronological order (`finish_isGrouping`).  A reading that was not recognized
  is refused and changes nothing.

  The argument goes through look-ups: a buffer stands among ascending buffers
  exactly if its tag leads to it (`mem_iff_buffer?`), and `buffer?_pushAll`
  says what that is.
-/
import Throughput.Proofs.Series.Counting

namespace Throughput

variable {κ : Type}

/-! ### Chronological order -/

/-- The second list holds the points of the first one by time; points of one time
    keep their order. -/
structure InTimeOrder (points ordered : List TimedSample) : Prop where
  ascending : ordered.Pairwise fun p q => p.time ≤ q.time
  perm : ordered.Perm points
  stable : ∀ time, ordered.filter (·.time = time) = points.filter (·.time = time)

theorem Stamp.le_trans {a b c : Stamp} (hab : a ≤ b) (hbc : b ≤ c) : a ≤ c :=
  Int.le_trans hab hbc

theorem Stamp.le_total (a b : Stamp) : a ≤ b ∨ b ≤ a := Int.le_total a.rank b.rank

theorem inTimeOrder_mergeSort (points : List TimedSample) :
    InTimeOrder points (points.mergeSort fun p q => decide (p.time ≤ q.time)) := by
  have htrans : ∀ p q r : TimedSample, decide (p.time ≤ q.time) = true →
      decide (q.time ≤ r.time) = true → decide (p.time ≤ r.time) = true := by
    intro p q r hpq hqr
    simp only [decide_eq_true_eq] at *
    exact Stamp.le_trans hpq hqr
  have htotal : ∀ p q : TimedSample,
      (decide (p.time ≤ q.time) || decide (q.time ≤ p.time)) = true := by
    intro p q
    simpa using Stamp.le_total p.time q.time
  have hperm := List.mergeSort_perm points fun p q => decide (p.time ≤ q.time)
  refine ⟨?_, hperm, fun time => ?_⟩
  · have hsorted := List.pairwise_mergeSort htrans htotal points
    simpa only [decide_eq_true_eq] using hsorted
  · -- the points of one time are a sorted sublist, which the sort keeps as it is
    have hsorted : (points.filter (·.time = time)).Pairwise fun p q =>
        decide (p.time ≤ q.time) = true := by
      refine List.pairwise_iff_forall_sublist.2 fun {p q} hpq => ?_
      have hp := hpq.subset List.mem_cons_self
      have hq := hpq.subset (List.mem_cons_of_mem _ List.mem_cons_self)
      simp only [List.mem_filter, decide_eq_true_eq] at hp hq ⊢
      rw [hp.2, hq.2]
      exact Int.le_refl _
    have hsublist := (List.sublist_mergeSort htrans htotal hsorted
      List.filter_sublist).filter fun p => decide (p.time = time)
    rw [List.filter_filter] at hsublist
    simp only [Bool.and_self] at hsublist
    exact (hsublist.eq_of_length (hperm.filter _).length_eq.symm).symm

/-! ### Groupings -/

def Group.tag (g : Group κ) : Tag κ := ⟨g.metric, g.key⟩

/-- The groups hold what was observed and nothing else, in the order of their
    tags; some of them may be empty. -/
structure IsArrangement [SeriesKey κ] [DecidableEq κ] (os : List (Observation κ))
    (groups : List (Group κ)) : Prop where
  ascending : groups.Pairwise fun g h => g.tag.before h.tag = true
  exists_group : ∀ o ∈ os, ∃ g ∈ groups, g.tag = o.tag
  samples_eq : ∀ g ∈ groups, g.samples = (os.filter (·.tag = g.tag)).map (·.value)
  points : ∀ g ∈ groups,
    InTimeOrder ((os.filter (·.tag = g.tag)).filterMap Observation.point?) g.points

/-- The groups hold what was observed, and there is none for any other tag. -/
structure IsGrouping [SeriesKey κ] [DecidableEq κ] (os : List (Observation κ))
    (groups : List (Group κ)) : Prop extends IsArrangement os groups where
  samples_ne_nil : ∀ g ∈ groups, g.samples ≠ []

namespace Collector

@[simp] theorem tag_group (tag : Tag κ) (b : Buffer) : (group tag b).tag = tag := rfl

theorem samples_group_addAll (tag : Tag κ) (os : List (Observation κ)) :
    (group tag (Buffer.empty.addAll os)).samples = os.map (·.value) := by
  rw [group, Buffer.samples_addAll]
  rfl

theorem inTimeOrder_group_addAll (tag : Tag κ) (os : List (Observation κ)) :
    InTimeOrder (os.filterMap Observation.point?) (group tag (Buffer.empty.addAll os)).points := by
  have hpoints : (Buffer.empty.addAll os).points.toList = os.filterMap Observation.point? := by
    rw [Buffer.points_addAll]
    rfl
  rw [group, hpoints]
  exact inTimeOrder_mergeSort _

variable [SeriesKey κ]

/-- Among ascending buffers every tag stands once, so that it leads to its buffer. -/
theorem mem_iff_buffer? {buffers : List (Tag κ × Buffer)}
    (h : buffers.Pairwise fun a b => a.1.before b.1 = true) {e : Tag κ × Buffer} :
    e ∈ buffers ↔ buffer? e.1 buffers = some e.2 := by
  induction buffers with
  | nil => simp [buffer?]
  | cons first rest ih =>
    obtain ⟨hfirst, hrest⟩ := List.pairwise_cons.1 h
    obtain ⟨tag, b⟩ := first
    rw [List.mem_cons]
    constructor
    · rintro (rfl | he)
      · exact buffer?_cons_self _ _ _
      · have hbefore : tag.before e.1 = true := hfirst e he
        simp only [buffer?, hbefore, if_true]
        exact (ih hrest).1 he
    · intro hfound
      simp only [buffer?] at hfound
      split at hfound
      next => exact .inr ((ih hrest).2 hfound)
      next hnot =>
        split at hfound
        next => cases hfound
        next hnot' =>
          have htag : tag = e.1 := Tag.eq_of_not_before (by simpa using hnot) (by simpa using hnot')
          cases hfound
          exact .inl (Prod.ext htag.symm rfl)

theorem mem_buffers_pushAll [DecidableEq κ] {os : List (Observation κ)} {e : Tag κ × Buffer} :
    e ∈ (empty.pushAll os).buffers ↔
      os.filter (·.tag = e.1) ≠ [] ∧ e.2 = Buffer.empty.addAll (os.filter (·.tag = e.1)) := by
  rw [mem_iff_buffer? (empty.pushAll os).ascending, buffer?_pushAll]
  by_cases hnil : os.filter (·.tag = e.1) = []
  · simp only [hnil, if_true, ne_eq, not_true_eq_false, false_and, iff_false]
    intro hfound
    cases hfound
  · simp only [hnil, if_false, ne_eq, not_false_eq_true, true_and]
    rw [Option.some_inj, eq_comm]
    rfl

theorem mem_finish_pushAll [DecidableEq κ] {os : List (Observation κ)} {g : Group κ} :
    g ∈ (empty.pushAll os).finish ↔ ∃ tag, os.filter (·.tag = tag) ≠ [] ∧
      g = group tag (Buffer.empty.addAll (os.filter (·.tag = tag))) := by
  rw [finish, List.mem_map]
  constructor
  · rintro ⟨⟨tag, b⟩, he, rfl⟩
    obtain ⟨hne, hb⟩ := mem_buffers_pushAll.1 he
    exact ⟨tag, hne, congrArg (group tag) hb⟩
  · rintro ⟨tag, hne, rfl⟩
    exact ⟨(tag, _), mem_buffers_pushAll.2 ⟨hne, rfl⟩, rfl⟩

/-- Pushing observations into an empty collector groups them. -/
theorem isGrouping_pushAll [DecidableEq κ] (os : List (Observation κ)) :
    IsGrouping os (empty.pushAll os).finish where
  ascending := by
    rw [finish, List.pairwise_map]
    exact (empty.pushAll os).ascending
  exists_group := by
    intro o ho
    have hne : os.filter (·.tag = o.tag) ≠ [] :=
      List.ne_nil_of_mem (List.mem_filter.2 ⟨ho, by simp⟩)
    exact ⟨_, mem_finish_pushAll.2 ⟨o.tag, hne, rfl⟩, rfl⟩
  samples_eq := by
    intro g hg
    obtain ⟨tag, -, rfl⟩ := mem_finish_pushAll.1 hg
    rw [samples_group_addAll, tag_group]
  points := by
    intro g hg
    obtain ⟨tag, -, rfl⟩ := mem_finish_pushAll.1 hg
    rw [tag_group]
    exact inTimeOrder_group_addAll tag _
  samples_ne_nil := by
    intro g hg
    obtain ⟨tag, hne, rfl⟩ := mem_finish_pushAll.1 hg
    rw [samples_group_addAll]
    simpa using hne

end Collector

/-! ### Pushes -/

/-- One call that offers a sample to a collector: plainly, with its time, or as a
    reading that may not have been recognized. -/
inductive Push (κ : Type) where
  | sample (tag : Tag κ) (value : Binary64)
  | timed (tag : Tag κ) (time : Stamp) (value : Binary64)
  | reading (key : κ) (r : Reading)

def Push.observation? : Push κ → Option (Observation κ)
  | sample tag value => some ⟨tag, none, value⟩
  | timed tag time value => some ⟨tag, some time, value⟩
  | reading key r =>
    match r.verdict with
    | .measured operation => some ⟨⟨.ofOperation operation, key⟩, none, r.value⟩
    | .unrecognized _ => none

namespace Collector

variable [SeriesKey κ]

/-- The outcome of a push and the collector that it leaves. -/
def take (c : Collector κ) : Push κ → Except Failure Unit × Collector κ
  | .sample tag value => (.ok (), c.push tag none value)
  | .timed tag time value => (.ok (), c.push tag (some time) value)
  | .reading key r =>
    match c.pushReading key r with
    | .ok after => (.ok (), after)
    | .error failure => (.error failure, c)

/-- The outcomes of pushes in their order and the collector that they leave. -/
def takeAll : Collector κ → List (Push κ) → List (Except Failure Unit) × Collector κ
  | c, [] => ([], c)
  | c, p :: rest =>
    let (outcome, after) := c.take p
    let (outcomes, last) := takeAll after rest
    (outcome :: outcomes, last)

theorem take_unrecognized (c : Collector κ) (key : κ) (fields : List String) (value : Binary64)
    (signature : String) :
    c.take (.reading key ⟨.unrecognized fields, value, signature⟩) =
      (.error (.unrecognizedReading fields), c) := rfl

/-- What one push does: it succeeds and adds its observation, or it has none,
    fails and leaves the collector as it was. -/
theorem take_cases (c : Collector κ) (p : Push κ) :
    (∃ o, p.observation? = some o ∧ c.take p = (.ok (), c.push o.tag o.time o.value)) ∨
      p.observation? = none ∧ ∃ failure, c.take p = (.error failure, c) := by
  cases p with
  | sample tag value => exact .inl ⟨_, rfl, rfl⟩
  | timed tag time value => exact .inl ⟨_, rfl, rfl⟩
  | reading key r =>
    obtain ⟨verdict, value, signature⟩ := r
    cases verdict with
    | measured operation => exact .inl ⟨_, rfl, rfl⟩
    | unrecognized fields => exact .inr ⟨rfl, _, c.take_unrecognized key fields value signature⟩

/-- What a run of pushes does. -/
theorem takeAll_spec (c : Collector κ) (pushes : List (Push κ)) :
    (c.takeAll pushes).2 = c.pushAll (pushes.filterMap Push.observation?) ∧
      (c.takeAll pushes).1.countP Except.isOk =
        (pushes.filterMap Push.observation?).length := by
  induction pushes generalizing c with
  | nil => exact ⟨rfl, rfl⟩
  | cons p pushes ih =>
    rcases c.take_cases p with ⟨o, ho, htake⟩ | ⟨hnone, failure, htake⟩
    · obtain ⟨hlast, hcount⟩ := ih (c.push o.tag o.time o.value)
      simp only [takeAll, htake, List.filterMap_cons, ho, pushAll_cons, List.length_cons]
      refine ⟨hlast, ?_⟩
      rw [List.countP_cons_of_pos rfl, hcount]
    · obtain ⟨hlast, hcount⟩ := ih c
      simp only [takeAll, htake, List.filterMap_cons, hnone]
      refine ⟨hlast, ?_⟩
      rw [List.countP_cons_of_neg (by simp [Except.isOk, Except.toBool]), hcount]

theorem sampleCount_pushAll (c : Collector κ) (os : List (Observation κ)) :
    (c.pushAll os).sampleCount = c.sampleCount + os.length := by
  induction os generalizing c with
  | nil => rfl
  | cons o os ih =>
    rw [pushAll_cons, ih, sampleCount_push, List.length_cons]
    omega

/-- **Finishing groups what was pushed.**  After any pushes the groups are the
    grouping of what was observed, they count every sample once, and there are
    as many samples as pushes that succeeded.  An unrecognized reading is
    refused with its fields and leaves the collector as it was. -/
theorem finish_isGrouping [DecidableEq κ] (pushes : List (Push κ)) :
    let (outcomes, c) := empty.takeAll pushes
    IsGrouping (pushes.filterMap Push.observation?) c.finish ∧
      (c.finish.map Group.count).sum = c.sampleCount ∧
      c.sampleCount = outcomes.countP Except.isOk ∧
      ∀ (key : κ) (fields : List String) (value : Binary64) (signature : String),
        c.take (.reading key ⟨.unrecognized fields, value, signature⟩) =
          (.error (.unrecognizedReading fields), c) := by
  obtain ⟨hlast, hcount⟩ := empty.takeAll_spec pushes
  refine ⟨?_, sum_count_finish _, ?_, take_unrecognized _⟩
  · rw [hlast]
    exact isGrouping_pushAll _
  · rw [hcount, hlast, sampleCount_pushAll]
    exact Nat.zero_add _

/-- A run that was taken before the one in front of it, two points of one time, a
    write, and a reading that is refused. -/
theorem finish_isGrouping_out_of_order :
    let day : Date := ⟨2015, 8, 1, by decide⟩
    let late := day.atClock 15 0 0
    let early := day.atClock 9 0 0
    let reads : Tag String := ⟨.read, "r, a"⟩
    let pushes : List (Push String) := [
      .reading "w, a" ⟨.measured .write, .ofNat 7, "w, a"⟩, .timed reads late (.ofNat 30),
      .timed reads early (.ofNat 10), .reading "r, a" ⟨.unrecognized ["r", "a"], .nan false, "r"⟩,
      .sample reads (.ofNat 5), .timed reads early (.ofNat 20)]
    let (outcomes, c) := empty.takeAll pushes
    IsGrouping (pushes.filterMap Push.observation?) c.finish ∧
      c.sampleCount = outcomes.countP Except.isOk ∧ outcomes.length = 6 ∧ c.sampleCount = 5 ∧
      c.finish.map (fun g => (g.tag, g.samples)) = [
        (reads, [.ofNat 30, .ofNat 10, .ofNat 5, .ofNat 20]),
        (⟨.write, "w, a"⟩, [.ofNat 7])] := by
  intro day late early reads pushes
  obtain ⟨hgrouping, -, hcount, -⟩ := finish_isGrouping pushes
  exact ⟨hgrouping, hcount, by decide +kernel, by decide +kernel, by decide +kernel⟩

end Collector

end Throughput
