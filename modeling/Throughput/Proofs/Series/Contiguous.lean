/-
  Throughput/Proofs/Series/Contiguous.lean
  ========================================
  **Daily series without missing days.**  Filling gaps keeps the observed groups
  as they are and puts an empty group on every day that is missing between two
  observed days of one metric, and nowhere else (`finishContiguous_isDaily`).

  `fillGaps` looks at two neighbours at a time.  Building the series from its
  front, with the day to go on from read off the end of what is there, comes to
  the same (`fillGaps_eq_foldl`).
-/
import Throughput.Proofs.Calendar.Days
import Throughput.Proofs.Series.Grouping

namespace Throughput

/-! ### Tags with dates -/

theorem Tag.before_iff_of_metric_eq {a b : Tag Date} (h : a.metric = b.metric) :
    a.before b = true ↔ a.key < b.key := by
  simp only [before, h, Nat.lt_irrefl, decide_false, decide_true, Bool.false_or, Bool.true_and,
    SeriesKey.le, Bool.not_eq_true', decide_eq_false_iff_not, Date.lt_iff_rank_lt]
  omega

/-- Groups of one metric stand by date. -/
theorem Group.before_iff_of_metric_eq {g h : Group Date} (hmetric : g.metric = h.metric) :
    g.tag.before h.tag = true ↔ g.key < h.key :=
  Tag.before_iff_of_metric_eq (a := g.tag) (b := h.tag) hmetric

theorem Group.before_gap {g : Group Date} {day : Date} :
    g.tag.before (gap g.metric day).tag = true ↔ g.key < day :=
  before_iff_of_metric_eq (h := gap g.metric day) rfl

theorem Group.gap_before_gap {m : Metric} {day day' : Date} :
    (gap m day).tag.before (gap m day').tag = true ↔ day < day' :=
  before_iff_of_metric_eq (g := gap m day) (h := gap m day') rfl

theorem Group.gap_before {h : Group Date} {m : Metric} {day : Date} (hmetric : m = h.metric) :
    (gap m day).tag.before h.tag = true ↔ day < h.key :=
  before_iff_of_metric_eq (g := gap m day) hmetric

theorem Tag.place_le_of_before {κ : Type} [SeriesKey κ] {a b : Tag κ} (h : a.before b = true) :
    a.metric.place ≤ b.metric.place := by
  simp only [before, Bool.or_eq_true, Bool.and_eq_true, decide_eq_true_eq] at h
  rcases h with h | ⟨h, -⟩
  · exact Nat.le_of_lt h
  · rw [h]

/-- A metric between two equal ones is the same. -/
theorem Tag.metric_eq_of_before {κ : Type} [SeriesKey κ] {a b c : Tag κ}
    (hab : a.before b = true) (hbc : b.before c = true) (h : a.metric = c.metric) :
    a.metric = b.metric := by
  have h₁ := place_le_of_before hab
  have h₂ := place_le_of_before hbc
  rw [← h] at h₂
  exact Metric.place_injective (Nat.le_antisymm h₁ h₂)

/-! ### Daily series -/

/-- The keys of the groups of a metric. -/
def keysOf {κ : Type} (m : Metric) (groups : List (Group κ)) : List κ :=
  (groups.filter (·.metric = m)).map (·.key)

/-- The filled groups are the given ones, in one series of days for each metric:
    every day from the first to the last one observed, and no other, with empty
    groups where nothing was observed. -/
structure IsDaily (groups filled : List (Group Date)) : Prop where
  ascending : filled.Pairwise fun g h => g.tag.before h.tag = true
  observed_eq : filled.filter (!·.isEmpty) = groups
  gaps : ∀ g ∈ filled, g.isEmpty = true → g = .gap g.metric g.key ∧
    ∃ a ∈ groups, ∃ b ∈ groups, a.metric = g.metric ∧ b.metric = g.metric ∧
      a.key < g.key ∧ g.key < b.key
  mem_keys : ∀ (m : Metric) (d : Date), d ∈ keysOf m filled ↔
    ∃ a ∈ groups, ∃ b ∈ groups, a.metric = m ∧ b.metric = m ∧ a.key ≤ d ∧ d ≤ b.key
  keys_ascending : ∀ m, (keysOf m filled).Pairwise (· < ·)
  keys_consecutive : ∀ m, (keysOf m filled).IsChain fun a b => a.nextDay? = some b

namespace Collector

/-! ### Filling gaps -/

variable {groups : List (Group Date)}

theorem filter_gaps (m : Metric) (days : List Date) :
    (days.map (Group.gap m)).filter (!·.isEmpty) = [] := by
  rw [List.filter_eq_nil_iff]
  intro g hg
  obtain ⟨day, -, rfl⟩ := List.mem_map.1 hg
  simp [Group.gap, Group.isEmpty]

theorem filter_fillGaps (h : ∀ g ∈ groups, g.isEmpty = false) :
    (fillGaps groups).filter (!·.isEmpty) = groups := by
  fun_induction fillGaps groups with
  | case1 => rfl
  | case2 g =>
    have hg := h g List.mem_cons_self
    simp [hg]
  | case3 g next rest gaps ih =>
    have hg := h g List.mem_cons_self
    have hgaps : gaps.filter (!·.isEmpty) = [] := by
      dsimp only [gaps]
      split
      · exact filter_gaps _ _
      · rfl
    rw [List.filter_append, ih fun g' hg' => h g' (List.mem_cons_of_mem _ hg'),
      List.filter_cons_of_pos (by simp [hg]), hgaps]
    rfl

theorem mem_fillGaps_of_mem (h : ∀ g ∈ groups, g.isEmpty = false) {g : Group Date}
    (hg : g ∈ groups) : g ∈ fillGaps groups := by
  rw [← filter_fillGaps h] at hg
  exact List.mem_of_mem_filter hg

/-- Every group of a filled series was there, or is a gap between two that were. -/
theorem mem_fillGaps_cases {g : Group Date} (hg : g ∈ fillGaps groups) :
    g ∈ groups ∨ ∃ a ∈ groups, ∃ b ∈ groups, a.metric = b.metric ∧ ∃ day,
      a.key < day ∧ day < b.key ∧ g = .gap a.metric day := by
  fun_induction fillGaps groups with
  | case1 => cases hg
  | case2 g' => exact .inl hg
  | case3 first next rest gaps ih =>
    rcases List.mem_append.1 hg with hg | hg
    · rcases List.mem_cons.1 hg with rfl | hg
      · exact .inl List.mem_cons_self
      · dsimp only [gaps] at hg
        split at hg
        next hmetric =>
          obtain ⟨day, hday, rfl⟩ := List.mem_map.1 hg
          obtain ⟨hlower, hupper⟩ := Date.mem_daysBetween.1 hday
          exact .inr ⟨first, List.mem_cons_self, next,
            List.mem_cons_of_mem _ List.mem_cons_self, hmetric, day, hlower, hupper, rfl⟩
        next => cases hg
    · rcases ih hg with hg | ⟨a, ha, b, hb, hgap⟩
      · exact .inl (List.mem_cons_of_mem _ hg)
      · exact .inr ⟨a, List.mem_cons_of_mem _ ha, b, List.mem_cons_of_mem _ hb, hgap⟩

/-- What stands behind another group is not the first one. -/
theorem mem_tail_of_before {first a b : Group Date} {rest : List (Group Date)}
    (hfirst : ∀ g ∈ rest, first.tag.before g.tag = true) (ha : a ∈ first :: rest)
    (hb : b ∈ first :: rest) (h : a.tag.before b.tag = true) : b ∈ rest := by
  rcases List.mem_cons.1 hb with rfl | hb
  · rcases List.mem_cons.1 ha with rfl | ha
    · rw [Tag.before_irrefl] at h
      cases h
    · rw [Tag.before_asymm (hfirst a ha)] at h
      cases h
  · exact hb

/-- No day is left out between two observed days of one metric. -/
theorem exists_mem_fillGaps (h : ∀ g ∈ groups, g.isEmpty = false)
    (hascending : groups.Pairwise fun g h => g.tag.before h.tag = true) {a b : Group Date}
    (ha : a ∈ groups) (hb : b ∈ groups) (hmetric : a.metric = b.metric) {day : Date}
    (hlower : a.key < day) (hupper : day < b.key) :
    ∃ g ∈ fillGaps groups, g.metric = a.metric ∧ g.key = day := by
  have hkeys : a.tag.before b.tag = true :=
    (Group.before_iff_of_metric_eq hmetric).2 (Int.lt_trans hlower hupper)
  fun_induction fillGaps groups generalizing a with
  | case1 => cases ha
  | case2 first =>
    rw [List.mem_singleton.1 ha, List.mem_singleton.1 hb, Tag.before_irrefl] at hkeys
    cases hkeys
  | case3 first next rest gaps ih =>
    obtain ⟨hfirst, hrest⟩ := List.pairwise_cons.1 hascending
    have hnonempty : ∀ g ∈ next :: rest, g.isEmpty = false := fun g hg =>
      h g (List.mem_cons_of_mem _ hg)
    have hb' : b ∈ next :: rest := mem_tail_of_before hfirst ha hb hkeys
    have hlater : (∃ g ∈ fillGaps (next :: rest), g.metric = a.metric ∧ g.key = day) →
        ∃ g ∈ first :: gaps ++ fillGaps (next :: rest), g.metric = a.metric ∧ g.key = day := by
      rintro ⟨g, hg, hgap⟩
      exact ⟨g, List.mem_append_right _ hg, hgap⟩
    rcases List.mem_cons.1 ha with rfl | ha
    · -- the next group has the metric of both, so the days up to it are filled in
      have hnext : a.metric = next.metric := by
        rcases List.mem_cons.1 hb' with rfl | hb'
        · exact hmetric
        · exact Tag.metric_eq_of_before (hfirst next List.mem_cons_self)
            ((List.pairwise_cons.1 hrest).1 b hb') hmetric
      rcases Date.le_or_lt next.key day with hle | hlt
      · refine hlater ?_
        rcases Date.eq_or_lt_of_le hle with heq | hlt
        · exact ⟨next, mem_fillGaps_of_mem hnonempty List.mem_cons_self, hnext.symm, heq⟩
        · have hmetric' : next.metric = b.metric := hnext.symm.trans hmetric
          rw [hnext]
          exact ih hnonempty hrest List.mem_cons_self hb' hmetric' hlt
            ((Group.before_iff_of_metric_eq hmetric').2 (Int.lt_trans hlt hupper))
      · have hgaps : Group.gap a.metric day ∈ gaps := by
          dsimp only [gaps]
          rw [if_pos hnext]
          exact List.mem_map_of_mem (Date.mem_daysBetween.2 ⟨hlower, hlt⟩)
        exact ⟨_, List.mem_append_left _ (List.mem_cons_of_mem _ hgaps), rfl, rfl⟩
    · exact hlater (ih hnonempty hrest ha hb' hmetric hlower hkeys)

theorem eq_or_before_of_mem_fillGaps {first : Group Date}
    (hfirst : ∀ g ∈ groups, first.tag.before g.tag = true) {g : Group Date}
    (hg : g ∈ fillGaps (first :: groups)) : g = first ∨ first.tag.before g.tag = true := by
  rcases mem_fillGaps_cases hg with hg | ⟨a, ha, b, -, -, day, hlower, -, rfl⟩
  · exact (List.mem_cons.1 hg).imp_right (hfirst g)
  · have hgap : a.tag.before (Group.gap a.metric day).tag = true :=
      Group.before_gap.2 hlower
    rcases List.mem_cons.1 ha with rfl | ha
    · exact .inr hgap
    · exact .inr (Tag.before_trans (hfirst a ha) hgap)

theorem pairwise_fillGaps (h : groups.Pairwise fun g h => g.tag.before h.tag = true) :
    (fillGaps groups).Pairwise fun g h => g.tag.before h.tag = true := by
  fun_induction fillGaps groups with
  | case1 => exact .nil
  | case2 g => exact List.pairwise_singleton _ g
  | case3 first next rest gaps ih =>
    obtain ⟨hfirst, hrest⟩ := List.pairwise_cons.1 h
    have hgaps : ∀ g ∈ gaps, first.tag.before g.tag = true ∧ g.tag.before next.tag = true := by
      intro g hg
      dsimp only [gaps] at hg
      split at hg
      next hmetric =>
        obtain ⟨day, hday, rfl⟩ := List.mem_map.1 hg
        obtain ⟨hlower, hupper⟩ := Date.mem_daysBetween.1 hday
        exact ⟨Group.before_gap.2 hlower, (Group.gap_before hmetric).2 hupper⟩
      next => cases hg
    have hordered : gaps.Pairwise fun g h => g.tag.before h.tag = true := by
      dsimp only [gaps]
      split
      · rw [List.pairwise_map]
        exact (Date.pairwise_daysBetween _ _).imp Group.gap_before_gap.2
      · exact .nil
    refine List.pairwise_append.2 ⟨.cons (fun g hg => (hgaps g hg).1) hordered, ih hrest, ?_⟩
    intro g hg g' hg'
    have hnext : g.tag.before next.tag = true := by
      rcases List.mem_cons.1 hg with rfl | hg
      · exact hfirst next List.mem_cons_self
      · exact (hgaps g hg).2
    rcases eq_or_before_of_mem_fillGaps (List.pairwise_cons.1 hrest).1 hg' with rfl | hbefore
    · exact hnext
    · exact Tag.before_trans hnext hbefore

/-! ### From the front -/

/-- Puts a group behind a daily series, with the days that are missing in front of
    it.  The day to go on from is read off the end of the series. -/
def appendDaily (out : List (Group Date)) (g : Group Date) : List (Group Date) :=
  match out.getLast? with
  | none => [g]
  | some last =>
    if last.metric = g.metric then
      out ++ (Date.daysBetween last.key g.key).map (Group.gap g.metric) ++ [g]
    else out ++ [g]

theorem foldl_appendDaily (out : List (Group Date)) (g : Group Date) (rest : List (Group Date)) :
    rest.foldl appendDaily (out ++ [g]) = out ++ fillGaps (g :: rest) := by
  induction rest generalizing out g with
  | nil => rfl
  | cons next rest ih =>
    rw [List.foldl_cons, appendDaily, List.getLast?_concat, fillGaps]
    dsimp only
    split
    next hmetric => rw [ih, hmetric]; simp
    next => rw [ih]; simp

theorem fillGaps_eq_foldl (groups : List (Group Date)) :
    fillGaps groups = groups.foldl appendDaily [] := by
  cases groups with
  | nil => rfl
  | cons g rest => exact (foldl_appendDaily [] g rest).symm

/-! ### What a filled series holds -/

theorem mem_keysOf {κ : Type} {m : Metric} {key : κ} {groups : List (Group κ)} :
    key ∈ keysOf m groups ↔ ∃ g ∈ groups, g.metric = m ∧ g.key = key := by
  simp [keysOf, and_assoc]

section Ascending

variable (h : ∀ g ∈ groups, g.isEmpty = false)
  (hascending : groups.Pairwise fun g h => g.tag.before h.tag = true)
include hascending

include h in
theorem mem_keysOf_fillGaps (m : Metric) (d : Date) : d ∈ keysOf m (fillGaps groups) ↔
    ∃ a ∈ groups, ∃ b ∈ groups, a.metric = m ∧ b.metric = m ∧ a.key ≤ d ∧ d ≤ b.key := by
  rw [mem_keysOf]
  constructor
  · rintro ⟨g, hg, rfl, rfl⟩
    rcases mem_fillGaps_cases hg with hg | ⟨a, ha, b, hb, hmetric, day, hlower, hupper, rfl⟩
    · exact ⟨g, hg, g, hg, rfl, rfl, Int.le_refl _, Int.le_refl _⟩
    · exact ⟨a, ha, b, hb, rfl, hmetric.symm, Int.le_of_lt hlower, Int.le_of_lt hupper⟩
  · rintro ⟨a, ha, b, hb, rfl, hmetric, hlower, hupper⟩
    rcases Date.eq_or_lt_of_le hlower with rfl | hlower
    · exact ⟨a, mem_fillGaps_of_mem h ha, rfl, rfl⟩
    rcases Date.eq_or_lt_of_le hupper with rfl | hupper
    · exact ⟨b, mem_fillGaps_of_mem h hb, hmetric, rfl⟩
    exact exists_mem_fillGaps h hascending ha hb hmetric.symm hlower hupper

theorem pairwise_keysOf_fillGaps (m : Metric) :
    (keysOf m (fillGaps groups)).Pairwise (· < ·) := by
  rw [keysOf, List.pairwise_map]
  refine ((pairwise_fillGaps hascending).filter _).imp_of_mem fun {g g'} hg hg' hbefore => ?_
  have hm := (List.mem_filter.1 hg).2
  have hm' := (List.mem_filter.1 hg').2
  simp only [decide_eq_true_eq] at hm hm'
  exact (Group.before_iff_of_metric_eq (hm.trans hm'.symm)).1 hbefore

include h in
theorem isDaily_fillGaps : IsDaily groups (fillGaps groups) := by
  have hmem := mem_keysOf_fillGaps h hascending
  have hkeys := pairwise_keysOf_fillGaps hascending
  constructor
  case ascending => exact pairwise_fillGaps hascending
  case observed_eq => exact filter_fillGaps h
  case gaps =>
    intro g hg hempty
    rcases mem_fillGaps_cases hg with hg | ⟨a, ha, b, hb, hmetric, day, hlower, hupper, rfl⟩
    · rw [h g hg] at hempty
      cases hempty
    · exact ⟨rfl, a, ha, b, hb, rfl, hmetric.symm, hlower, hupper⟩
  case mem_keys => exact hmem
  case keys_ascending => exact hkeys
  case keys_consecutive =>
    -- a day between two keys is a key itself, so keys that follow each other are neighbours
    intro m
    refine Date.isChain_nextDay? (hkeys m) fun a ha b hb d had hdb => ?_
    obtain ⟨first, hfirst, -, -, hm, -, hlower, -⟩ := (hmem m a).1 ha
    obtain ⟨-, -, last, hlast, -, hm', -, hupper⟩ := (hmem m b).1 hb
    exact (hmem m d).2 ⟨first, hfirst, last, hlast, hm, hm',
      Int.le_trans hlower (Int.le_of_lt had), Int.le_trans (Int.le_of_lt hdb) hupper⟩

end Ascending

theorem isDaily_of_isGrouping {os : List (Observation Date)} (h : IsGrouping os groups) :
    IsDaily groups (fillGaps groups) := by
  refine isDaily_fillGaps (fun g hg => ?_) h.ascending
  rw [Group.isEmpty, List.isEmpty_eq_false_iff]
  exact h.samples_ne_nil g hg

/-- **Days go on without a gap.**  Whatever was pushed, a daily series is what
    comes of building it from its front: for each metric it has one group for
    every day from the first to the last one observed, and the groups with
    samples are those of the plain series. -/
theorem finishContiguous_isDaily (pushes : List (Push Date)) :
    let c := (empty.takeAll pushes).2
    c.finishContiguous = c.finish.foldl appendDaily [] ∧ IsDaily c.finish c.finishContiguous := by
  intro c
  constructor
  · exact fillGaps_eq_foldl c.finish
  · have hgrouping : IsGrouping (pushes.filterMap Push.observation?) c.finish := by
      dsimp only [c]
      rw [(empty.takeAll_spec pushes).1]
      exact isGrouping_pushAll _
    exact isDaily_of_isGrouping hgrouping

/-- Reads around a leap day, and writes on the last days there are. -/
theorem finishContiguous_isDaily_leap_day :
    let reads (month day : Nat) (h : IsDate 2016 month day) : Push Date :=
      .sample ⟨.read, ⟨2016, month, day, h⟩⟩ (.ofNat 1)
    let writes (day : Nat) (h : IsDate lastYear 12 day) : Push Date :=
      .sample ⟨.write, ⟨lastYear, 12, day, h⟩⟩ (.ofNat 1)
    let c := (empty.takeAll [reads 3 1 (by decide), writes 31 (by decide), reads 2 28 (by decide),
      writes 29 (by decide)]).2
    IsDaily c.finish c.finishContiguous ∧ c.finish.length = 4 ∧
      ⟨2016, 2, 29, by decide⟩ ∈ keysOf .read c.finishContiguous ∧
      ⟨2016, 3, 2, by decide⟩ ∉ keysOf .read c.finishContiguous ∧
      ⟨lastYear, 12, 30, by decide⟩ ∈ keysOf .write c.finishContiguous := by
  intro reads writes c
  obtain ⟨-, hdaily⟩ := finishContiguous_isDaily [reads 3 1 (by decide), writes 31 (by decide),
    reads 2 28 (by decide), writes 29 (by decide)]
  refine ⟨hdaily, by decide +kernel, ?_, ?_, ?_⟩
  · exact (hdaily.mem_keys _ _).2 (by decide +kernel)
  · exact fun hmem => absurd ((hdaily.mem_keys _ _).1 hmem) (by decide +kernel)
  · exact (hdaily.mem_keys _ _).2 (by decide +kernel)

end Collector

end Throughput
