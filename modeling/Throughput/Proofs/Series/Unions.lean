/-
  Throughput/Proofs/Series/Unions.lean
  ====================================
  **Groups put together again.**  The samples of the groups whose tags have some
  property are, as a multiset, the values observed under such tags
  (`IsArrangement.samplesWhere_perm`).  So series of the same values under
  coarser and finer keys can be compared through what was observed.  Filling a
  daily series changes nothing about that (`IsDaily.isArrangement`).
-/
import Mathlib.Data.List.Nodup
import Mathlib.Data.List.Perm.Subperm
import Throughput.Proofs.Series.Contiguous

namespace Throughput

/-! ### Splitting a list by a key -/

section Splitting

variable {α β : Type} [DecidableEq β] (f : α → β)

/-- The parts of a list under different keys, one after the other, hold what the
    list has under these keys. -/
theorem flatMap_filter_perm (xs : List α) {keys : List β} (h : keys.Nodup) :
    (keys.flatMap fun key => xs.filter (f · = key)).Perm (xs.filter (f · ∈ keys)) := by
  induction keys with
  | nil => simp
  | cons key keys ih =>
    obtain ⟨hkey, hkeys⟩ := List.nodup_cons.1 h
    have hsplit := List.filter_append_perm (fun x => decide (f x = key))
      (xs.filter (f · ∈ key :: keys))
    have hfirst : (xs.filter (f · ∈ key :: keys)).filter (f · = key) = xs.filter (f · = key) := by
      rw [List.filter_filter]
      refine List.filter_congr fun x _ => ?_
      by_cases hx : f x = key <;> simp [hx]
    have hrest : (xs.filter (f · ∈ key :: keys)).filter (fun x => !decide (f x = key)) =
        xs.filter (f · ∈ keys) := by
      rw [List.filter_filter]
      refine List.filter_congr fun x _ => ?_
      by_cases hx : f x = key <;> simp [hx, hkey]
    rw [hfirst, hrest] at hsplit
    rw [List.flatMap_cons]
    exact ((ih hkeys).append_left _).trans hsplit

end Splitting

/-! ### Points and values -/

variable {κ : Type}

/-- Only what has a time makes a point. -/
theorem Observation.values_sublist (os : List (Observation κ)) :
    ((os.filterMap point?).map (·.value)).Sublist (os.map (·.value)) := by
  induction os with
  | nil => exact .slnil
  | cons o os ih =>
    obtain ⟨tag, time, value⟩ := o
    cases time with
    | none => exact ih.cons value
    | some time => exact ih.cons_cons value

variable [SeriesKey κ]

/-! ### Arrangements -/

theorem Group.nodup_tags {groups : List (Group κ)}
    (h : groups.Pairwise fun g h => g.tag.before h.tag = true) :
    (groups.map Group.tag).Nodup := by
  rw [List.Nodup, List.pairwise_map]
  refine h.imp fun {g g'} hbefore heq => ?_
  rw [heq, Tag.before_irrefl] at hbefore
  cases hbefore

theorem Group.eq_of_tag_eq {groups : List (Group κ)}
    (h : groups.Pairwise fun g h => g.tag.before h.tag = true) {g g' : Group κ}
    (hg : g ∈ groups) (hg' : g' ∈ groups) (htag : g.tag = g'.tag) : g = g' :=
  List.inj_on_of_nodup_map (Group.nodup_tags h) hg hg' htag

/-- The samples of the groups whose tags have a property. -/
def samplesWhere (p : Tag κ → Bool) (groups : List (Group κ)) : List Binary64 :=
  (groups.filter (p ·.tag)).flatMap (·.samples)

namespace IsArrangement

variable [DecidableEq κ] {os : List (Observation κ)} {groups : List (Group κ)}

theorem samplesWhere_perm (h : IsArrangement os groups) (p : Tag κ → Bool) :
    (samplesWhere p groups).Perm ((os.filter (p ·.tag)).map (·.value)) := by
  have hkeys : ((groups.filter (p ·.tag)).map Group.tag).Nodup :=
    (Group.nodup_tags h.ascending).sublist (List.filter_sublist.map _)
  have hsamples : samplesWhere p groups =
      (((groups.filter (p ·.tag)).map Group.tag).flatMap fun tag =>
        os.filter (·.tag = tag)).map (·.value) := by
    rw [samplesWhere, List.flatMap_map, List.map_flatMap]
    refine List.flatMap_congr fun g hg => ?_
    exact h.samples_eq g (List.mem_of_mem_filter hg)
  have hfilter : os.filter (·.tag ∈ (groups.filter (p ·.tag)).map Group.tag) =
      os.filter (p ·.tag) := by
    refine List.filter_congr fun o ho => ?_
    obtain ⟨g, hg, htag⟩ := h.exists_group o ho
    rw [Bool.eq_iff_iff, decide_eq_true_iff, List.mem_map]
    constructor
    · rintro ⟨g', hg', htag'⟩
      rw [← htag']
      exact (List.mem_filter.1 hg').2
    · intro hp
      exact ⟨g, List.mem_filter.2 ⟨hg, by rw [htag]; exact hp⟩, htag⟩
  rw [hsamples, ← hfilter]
  exact (flatMap_filter_perm Observation.tag os hkeys).map _

/-- A group holds samples exactly if its tag was observed. -/
theorem samples_eq_nil_iff (h : IsArrangement os groups) {g : Group κ} (hg : g ∈ groups) :
    g.samples = [] ↔ ∀ o ∈ os, o.tag ≠ g.tag := by
  rw [h.samples_eq g hg]
  simp

/-! ### Points -/

theorem exists_of_mem_points (h : IsArrangement os groups) {g : Group κ} (hg : g ∈ groups)
    {p : TimedSample} (hp : p ∈ g.points) : ∃ o ∈ os, o.tag = g.tag ∧ o.time = some p.time := by
  have hmem := (h.points g hg).perm.mem_iff.1 hp
  obtain ⟨o, ho, hpoint⟩ := List.mem_filterMap.1 hmem
  obtain ⟨time, htime, rfl⟩ := Option.map_eq_some_iff.1 hpoint
  have htag := (List.mem_filter.1 ho).2
  exact ⟨o, List.mem_of_mem_filter ho, by simpa using htag, htime⟩

/-- The points of a group are samples of it, each of them once. -/
theorem values_subperm_samples (h : IsArrangement os groups) {g : Group κ} (hg : g ∈ groups) :
    (g.points.map (·.value)).Subperm g.samples := by
  have hperm := (h.points g hg).perm.map (·.value)
  rw [h.samples_eq g hg]
  exact hperm.subperm.trans (Observation.values_sublist _).subperm

theorem value_mem_samples (h : IsArrangement os groups) {g : Group κ} (hg : g ∈ groups)
    {p : TimedSample} (hp : p ∈ g.points) : p.value ∈ g.samples :=
  (h.values_subperm_samples hg).subset (List.mem_map_of_mem hp)

/-- Where every time is known, every sample of a group is one of its points. -/
theorem values_perm_samples (h : IsArrangement os groups) (hos : ∀ o ∈ os, o.time.isSome = true)
    {g : Group κ} (hg : g ∈ groups) : (g.points.map (·.value)).Perm g.samples := by
  have hperm := (h.points g hg).perm.map (·.value)
  rw [List.map_filterMap] at hperm
  rw [h.samples_eq g hg]
  refine hperm.trans (List.Perm.of_eq ?_)
  rw [← List.filterMap_eq_map]
  refine List.filterMap_congr fun o ho => ?_
  obtain ⟨time, htime⟩ := Option.isSome_iff_exists.1 (hos o (List.mem_of_mem_filter ho))
  simp [Observation.point?, htime]

end IsArrangement

/-- There is no group for a tag that was not observed. -/
theorem IsGrouping.exists_observation [DecidableEq κ] {os : List (Observation κ)}
    {groups : List (Group κ)} (h : IsGrouping os groups) {g : Group κ} (hg : g ∈ groups) :
    ∃ o ∈ os, o.tag = g.tag := by
  simpa [h.samples_eq_nil_iff hg] using h.samples_ne_nil g hg

/-! ### Filled series -/

namespace IsDaily

variable {os : List (Observation Date)} {groups filled : List (Group Date)}

theorem mem_filled (h : IsDaily groups filled) {g : Group Date} (hg : g ∈ groups) :
    g ∈ filled := by
  rw [← h.observed_eq] at hg
  exact List.mem_of_mem_filter hg

/-- A group of a filled series was there before, or is a gap under a tag that was
    never observed. -/
theorem mem_or_gap (h : IsDaily groups filled) (hgroups : IsGrouping os groups) {g : Group Date}
    (hg : g ∈ filled) : g ∈ groups ∨ g = .gap g.metric g.key ∧ ∀ o ∈ os, o.tag ≠ g.tag := by
  cases hempty : g.isEmpty with
  | false =>
    refine .inl ?_
    rw [← h.observed_eq]
    exact List.mem_filter.2 ⟨hg, by rw [hempty]; rfl⟩
  | true =>
    refine .inr ⟨(h.gaps g hg hempty).1, fun o ho htag => ?_⟩
    -- a group of this tag would be a second one, and not empty
    obtain ⟨g', hg', htag'⟩ := hgroups.exists_group o ho
    have heq : g' = g := Group.eq_of_tag_eq h.ascending (h.mem_filled hg') hg (htag'.trans htag)
    refine hgroups.samples_ne_nil g' hg' ?_
    rw [heq]
    exact List.isEmpty_iff.1 hempty

theorem isArrangement (h : IsDaily groups filled) (hgroups : IsGrouping os groups) :
    IsArrangement os filled := by
  have hnone : ∀ g : Group Date, (∀ o ∈ os, o.tag ≠ g.tag) → os.filter (·.tag = g.tag) = [] := by
    intro g hg
    rw [List.filter_eq_nil_iff]
    exact fun o ho => by simpa using hg o ho
  constructor
  case ascending => exact h.ascending
  case exists_group =>
    intro o ho
    obtain ⟨g, hg, htag⟩ := hgroups.exists_group o ho
    exact ⟨g, h.mem_filled hg, htag⟩
  case samples_eq =>
    intro g hg
    rcases h.mem_or_gap hgroups hg with hg | ⟨hgap, htag⟩
    · exact hgroups.samples_eq g hg
    · rw [hnone g htag, hgap]
      rfl
  case points =>
    intro g hg
    rcases h.mem_or_gap hgroups hg with hg | ⟨hgap, htag⟩
    · exact hgroups.points g hg
    · rw [hnone g htag, hgap]
      exact ⟨.nil, .nil, fun _ => rfl⟩

end IsDaily

end Throughput
