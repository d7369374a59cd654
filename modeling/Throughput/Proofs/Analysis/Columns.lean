/-
  Throughput/Proofs/Analysis/Columns.lean
  =======================================
  **The columns of the markdown table.**  The ranks of the columns are taken from one
  series and the cells under them are looked up in another one, by the number of the
  rank.  All summaries of a report were asked for the same ranks, so if no two of these
  are one number, every look-up finds the percentile of its own series
  (`Statistics.percentile?_of_mem`), and a table shows each group by the statistics of
  its own samples (`Collection.markdown_shows_groups`).  Ranks that are equal as numbers
  would share the first of their percentiles.  Whoever cuts the lines at their bars finds
  the cells they were made of; only a label that is no cell itself stands in the way.
-/
import Throughput.Proofs.Analysis.Tables
import Throughput.Proofs.Report.Ranks

namespace Throughput

/-! ### Looking up a percentile -/

namespace Binary64

theorem numericEq_self {x : Binary64} (h : x.isNaN = false) : x.numericEq x = true := by
  simp [numericEq, h]

theorem isNaN_of_isRank {rank : Binary64} (h : Quantity.isRank rank = true) :
    rank.isNaN = false :=
  isNaN_eq_false (isFinite_of_isRank h)

/-- No two of the numbers are equal. -/
def Differ (xs : List Binary64) : Prop := xs.Pairwise fun x y => x.numericEq y = false

instance (xs : List Binary64) : Decidable (Differ xs) :=
  inferInstanceAs (Decidable (List.Pairwise _ _))

end Binary64

/-- Among ranks that differ the look-up finds the percentile that it is asked for. -/
theorem Statistics.percentile?_of_mem {t : Statistics Binary64}
    (hdiffer : Binary64.Differ (t.percentiles.map (·.rank))) {p : Percentile Binary64}
    (hp : p ∈ t.percentiles) (hnumber : p.rank.isNaN = false) :
    t.percentile? p.rank = some p.value := by
  obtain ⟨before, after, hpercentiles⟩ := List.append_of_mem hp
  rw [hpercentiles, Binary64.Differ, List.pairwise_map] at hdiffer
  have hbefore : ∀ q ∈ before, q.rank.numericEq p.rank = false := fun q hq =>
    (List.pairwise_append.1 hdiffer).2.2 q hq p List.mem_cons_self
  have hfind : t.percentiles.find? (fun q => q.rank.numericEq p.rank) = some p := by
    refine List.find?_eq_some_iff_append.2
      ⟨Binary64.numericEq_self hnumber, before, after, hpercentiles, ?_⟩
    intro q hq
    rw [hbefore q hq]
    rfl
  rw [percentile?, hfind, Option.map_some]

/-- The percentiles of samples stand under their ranks. -/
theorem Ascending.exists_percentile_of_mem {s : Ascending Binary64} {ranks : List Binary64}
    {ps : List (Percentile Binary64)} (h : s.percentiles ranks = .ok ps) {rank : Binary64}
    (hrank : rank ∈ ranks) : ∃ p ∈ ps, p.rank = rank ∧ s.percentile rank = .ok p.value := by
  rw [← ranks_of_percentiles h] at hrank
  obtain ⟨p, hp, rfl⟩ := List.mem_map.1 hrank
  refine ⟨p, hp, rfl, ?_⟩
  obtain ⟨rank, -, hentry⟩ := exists_of_mem_mapM h hp
  rw [bind_pure_eq_map, map_eq_ok_iff] at hentry
  obtain ⟨value, hvalue, rfl⟩ := hentry
  exact hvalue

/-! ### Cells of a row -/

/-- A number with two decimal places is longer than a dash. -/
theorem Binary64.fixed_ne_dash (x : Binary64) : x.fixed 2 ≠ "-" := by
  intro h
  have hlength : (x.fixed 2).toList.length = 1 := by rw [h]; decide
  have hpointed : ∀ ds, 4 ≤ (withPoint 2 ds).length := by
    intro ds
    rw [withPoint, if_neg (by decide), List.length_append, List.length_take, List.length_cons,
      List.length_drop, length_padLeft]
    omega
  simp only [fixed] at hlength
  generalize roundHalfEven _ _ = rounded at hlength
  split_ifs at hlength
  · exact absurd hlength (by decide)
  · have hinf : "inf".toList.length = 3 := by decide
    rw [String.toList_append, List.length_append, hinf] at hlength
    omega
  · have hdigits := hpointed (digitsOf rounded)
    rw [String.toList_append, List.length_append, String.toList_ofList] at hlength
    omega

namespace Analysis

/-- The cells of a row that show samples: the five statistics of all of them and their
    percentile for each rank, in two decimal places, or dashes if there are no samples. -/
structure ShowsSamples (ranks samples : List Binary64) (statistics percentiles : List String) :
    Prop where
  length_statistics : statistics.length = 5
  length_percentiles : percentiles.length = ranks.length
  dash_iff : ∀ text ∈ statistics ++ percentiles, text = "-" ↔ samples.length = 0
  shows : samples ≠ [] → ∃ s : Ascending Binary64, Ascending.ofSamples samples = .ok s ∧
    statistics =
      [s.least, s.greatest, s.mean, s.valueAtRank (.ofNat 50), s.deviation].map (·.fixed 2) ∧
    List.Forall₂ (fun rank text => ∃ x, s.percentile rank = .ok x ∧ text = x.fixed 2)
      ranks percentiles

/-- The cells of a group: what it is and how many samples it has, and then its samples. -/
def groupCells {κ : Type} [SeriesKey κ] (g : Group κ) (statistics percentiles : List String) :
    List String :=
  [g.metric.name, keyText (SeriesKey.label g.key), g.metric.unit, natText g.count] ++
    (statistics ++ percentiles)

/-- The row of a group is made of its cells, and they are read back from it unless the
    label does not fit in a cell. -/
def ShowsGroup {κ : Type} [SeriesKey κ] (ranks : List Binary64) (g : Group κ) (row : String) :
    Prop :=
  ∃ statistics percentiles, ShowsSamples ranks g.samples statistics percentiles ∧
    row = tableRow (groupCells g statistics percentiles) ∧
    (IsCell (SeriesKey.label g.key).toList →
      cellsOf row = (groupCells g statistics percentiles).map padded)

/-- Without samples all cells are dashes, whatever columns there are. -/
theorem showsSamples_nil (ranks : List Binary64) :
    ShowsSamples ranks [] (List.replicate 5 "-") (List.replicate ranks.length "-") := by
  constructor
  case length_statistics => exact List.length_replicate
  case length_percentiles => exact List.length_replicate
  case dash_iff =>
    intro text htext
    rw [← List.replicate_add] at htext
    exact iff_of_true (List.eq_of_mem_replicate htext) rfl
  case shows => exact fun hne => absurd rfl hne

section Samples

variable {ranks samples : List Binary64} {statistics percentiles : List String}
  {t : Statistics Binary64}

/-- Dashes and numbers are cells. -/
theorem ShowsSamples.isCell (h : ShowsSamples ranks samples statistics percentiles) :
    ∀ text ∈ statistics ++ percentiles, IsCell text.toList := by
  intro text htext
  by_cases hsamples : samples = []
  · rw [(h.dash_iff text htext).2 (List.length_eq_zero_iff.2 hsamples)]
    decide
  · obtain ⟨s, -, hstatistics, hpercentiles⟩ := h.shows hsamples
    rcases List.mem_append.1 htext with htext | htext
    · rw [hstatistics] at htext
      obtain ⟨x, -, rfl⟩ := List.mem_map.1 htext
      exact isCell_cell (some x)
    · obtain ⟨rank, -, x, -, rfl⟩ := exists_right_of_forall₂ hpercentiles.flip htext
      exact isCell_cell (some x)

/-- Statistics that were made of samples are shown as those of the samples. -/
theorem showsSamples_of_ofSamples (hranks : ∀ rank ∈ ranks, Quantity.isRank rank = true)
    (hdiffer : Binary64.Differ ranks) (h : Statistics.ofSamples samples ranks = .ok t) :
    ShowsSamples ranks samples
      ([t.least, t.greatest, t.mean, t.median, t.deviation].map (·.fixed 2))
      (ranks.map fun rank => cell (t.percentile? rank)) := by
  have hsamples : samples ≠ [] := Statistics.ne_nil_of_ofSamples h
  obtain ⟨s, hs, hsummary⟩ := exceptBind_eq_ok.1 h
  obtain ⟨ps, hps, rfl⟩ := Ascending.summarize_eq_ok_iff.1 hsummary
  have hfound : ∀ rank ∈ ranks, ∃ x, s.percentile rank = .ok x ∧
      cell (Statistics.percentile? ⟨s.count, s.least, s.greatest, s.mean,
        s.valueAtRank (.ofNat 50), s.deviation, ps⟩ rank) = x.fixed 2 := by
    intro rank hrank
    obtain ⟨p, hp, rfl, hvalue⟩ := Ascending.exists_percentile_of_mem hps hrank
    refine ⟨p.value, hvalue, ?_⟩
    rw [Statistics.percentile?_of_mem _ hp (Binary64.isNaN_of_isRank (hranks _ hrank))]
    · rfl
    · rwa [Ascending.ranks_of_percentiles hps]
  constructor
  case length_statistics => rfl
  case length_percentiles => exact List.length_map _
  case dash_iff =>
    intro text htext
    refine iff_of_false ?_ (mt List.length_eq_zero_iff.1 hsamples)
    rcases List.mem_append.1 htext with htext | htext
    · obtain ⟨x, -, rfl⟩ := List.mem_map.1 htext
      exact x.fixed_ne_dash
    · obtain ⟨rank, hrank, rfl⟩ := List.mem_map.1 htext
      obtain ⟨x, -, hx⟩ := hfound rank hrank
      rw [hx]
      exact x.fixed_ne_dash
  case shows =>
    intro _
    refine ⟨s, hs, rfl, ?_⟩
    rw [List.forall₂_map_right_iff, List.forall₂_same]
    exact hfound

end Samples

section Groups

variable {κ : Type} [SeriesKey κ] {ranks shown : List Binary64} {g : Group κ}
  {statistics percentiles : List String} {summary : GroupSummary κ}

/-- Of the cells of a group only its label can fail to be one. -/
theorem isCell_groupCells (hlabel : IsCell (SeriesKey.label g.key).toList)
    (h : ShowsSamples ranks g.samples statistics percentiles) :
    ∀ c ∈ groupCells g statistics percentiles, IsCell c.toList := by
  rw [groupCells, List.forall_mem_append, and_iff_left h.isCell]
  simp [isCell_name, isCell_keyText_iff, hlabel, isCell_unit, isCell_natText]

theorem showsGroup_of_showsSamples (h : ShowsSamples ranks g.samples statistics percentiles) :
    ShowsGroup ranks g (tableRow (groupCells g statistics percentiles)) :=
  ⟨statistics, percentiles, h, rfl, fun hlabel => cellsOf_tableRow (isCell_groupCells hlabel h)⟩

/-- The row of a summary shows its group, at the ranks that were asked for. -/
theorem showsGroup_of_summarize (hranks : ∀ rank ∈ ranks, Quantity.isRank rank = true)
    (hdiffer : Binary64.Differ ranks) (h : g.summarize ranks = .ok summary)
    (hshown : g.samples ≠ [] → shown = ranks) :
    ShowsGroup shown g (seriesRow shown (.ofGroup summary)) := by
  rcases Group.summarize_eq_ok_iff.1 h with ⟨hnil, rfl⟩ | ⟨t, ht, rfl⟩
  · have hrow : seriesRow shown (.ofGroup ⟨g.metric, g.key, 0, none⟩) =
        tableRow (groupCells g (List.replicate 5 "-") (List.replicate shown.length "-")) := by
      rw [groupCells, Group.count, hnil, ← List.map_const']
      rfl
    rw [hrow]
    apply showsGroup_of_showsSamples
    rw [hnil]
    exact showsSamples_nil shown
  · have hrow : seriesRow ranks (.ofGroup ⟨g.metric, g.key, g.count, some t⟩) =
        tableRow (groupCells g ([t.least, t.greatest, t.mean, t.median, t.deviation].map (·.fixed 2))
          (ranks.map fun rank => cell (t.percentile? rank))) := rfl
    rw [hshown (Statistics.ne_nil_of_ofSamples ht), hrow]
    exact showsGroup_of_showsSamples (showsSamples_of_ofSamples hranks hdiffer ht)

end Groups

end Analysis

/-! ### Tables -/

/-- Columns are shown exactly if some group has samples. -/
theorem Analysis.shownRanks_eq {κ : Type} (ranks : List Binary64) (c : Collection κ) :
    shownRanks ranks c = if ∃ g ∈ c.groups, g.samples ≠ [] then ranks else [] := by
  rw [shownRanks, ← ite_not]
  congr 1
  simp [Group.isEmpty]

namespace Collection

open Analysis

variable {κ : Type} [SeriesKey κ]

/-- **Every cell shows the series of its row at the rank of its column.**  A trustworthy
    collection has a report at valid ranks.  The ranks over the columns of its table are
    those asked for, in their order, if there are any samples, and none otherwise.  If no
    two of them are equal as numbers, the row of each group shows the statistics of its
    own samples and for each column their percentile at its rank; dashes stand there
    exactly if the group counts no samples.  The headings are read back from the header,
    and the cells of a group from its row if its label is a cell. -/
theorem markdown_shows_groups (c : Collection κ) (htrust : c.isTrustworthy = true)
    {ranks : List Binary64} (hranks : ∀ rank ∈ ranks, Quantity.isRank rank = true)
    (hdiffer : Binary64.Differ ranks) (title : String) (generated : Stamp) :
    ∃ report, c.summarize ranks = .ok report ∧
      let a := ofReport title generated report
      let shown := if ∃ g ∈ c.groups, g.samples ≠ [] then ranks else []
      a.markdown = a.lead ++ a.table.text ++ a.closing ∧
      a.table.header = tableRow (headings shown) ∧
      cellsOf a.table.header = (headings shown).map padded ∧
      List.Forall₂ (ShowsGroup shown) c.groups a.table.rows := by
  obtain ⟨report, hreport⟩ := c.exists_summarize hranks
  have hwithheld : (ofReport title generated report).withheld = false := by
    have hwithheld := withheld_of_summarize hreport
    rwa [htrust] at hwithheld
  have hcolumns := columnRanks_of_summarize htrust hreport title generated
  rw [shownRanks_eq] at hcolumns
  refine ⟨report, hreport, markdown_of_not_withheld hwithheld, ?_, ?_, ?_⟩
  · rw [table, hcolumns]
    rfl
  · rw [table, hcolumns]
    exact cellsOf_tableRow isCell_of_mem_headings
  · change List.Forall₂ _ _ (List.map _ _)
    rw [hcolumns]
    obtain ⟨-, series, hseries, rfl⟩ | ⟨hnot, -⟩ := summarize_eq_ok_iff.1 hreport
    · rw [ofReport, List.map_map, List.forall₂_map_right_iff]
      have hgroups : List.Forall₂ (fun g summary => g ∈ c.groups ∧
          g.summarize ranks = .ok summary) c.groups series :=
        (List.forall₂_and_left _ _).2 ⟨fun g hg => hg, mapM_eq_ok_iff.1 hseries⟩
      apply hgroups.imp
      rintro g summary ⟨hg, hsummary⟩
      apply showsGroup_of_summarize hranks hdiffer hsummary
      intro hsamples
      exact if_pos ⟨g, hg, hsamples⟩
    · rw [htrust] at hnot
      cases hnot

/-- Runs on two days with a day missing between them, the gap without samples in the
    middle, at two ranks. -/
theorem markdown_shows_groups_gap_day :
    let days := (Session.after .comma .standard [
      .daily ⟨"27", Date.atClock ⟨2016, 3, 1, by decide⟩ 0 0 0⟩ "r, a, 4\nr, b, 2\n",
      .daily ⟨"27", Date.atClock ⟨2016, 2, 28, by decide⟩ 0 0 0⟩ "r, a, 3\n"]).finishContiguous
    let generated := Date.atClock ⟨1970, 1, 1, by decide⟩ 0 0 0
    let ranks : List Binary64 := [.ofNat 95, .zero true]
    days.isTrustworthy = true ∧ (∀ rank ∈ ranks, Quantity.isRank rank = true) ∧
    Binary64.Differ ranks ∧ days.groups.map (·.count) = [1, 0, 2] ∧
    ∃ report, days.summarize ranks = .ok report ∧
      let a := ofReport "disk" generated report
      let columns := ["Metric", "Key", "Unit", "Count", "Min", "Max", "Mean", "Median", "Std",
        "p95", "p-0"]
      a.table.header = tableRow columns ∧ cellsOf a.table.header = columns.map padded ∧
      List.Forall₂ (ShowsGroup ranks) days.groups a.table.rows ∧
      ∀ g ∈ days.groups, IsCell (SeriesKey.label g.key).toList := by
  intro days generated ranks
  have htrust : days.isTrustworthy = true := by decide +kernel
  have hranks : ∀ rank ∈ ranks, Quantity.isRank rank = true := by decide +kernel
  have hdiffer : Binary64.Differ ranks := by decide +kernel
  have hshown : (if ∃ g ∈ days.groups, g.samples ≠ [] then ranks else []) = ranks := by
    decide +kernel
  have hheadings : headings ranks = ["Metric", "Key", "Unit", "Count", "Min", "Max", "Mean",
      "Median", "Std", "p95", "p-0"] := by decide +kernel
  obtain ⟨report, hreport, -, hheader, hcells, hrows⟩ := markdown_shows_groups days htrust hranks
    hdiffer "disk" generated
  rw [hshown] at hheader hcells hrows
  rw [hheadings] at hheader hcells
  exact ⟨htrust, hranks, hdiffer, by decide +kernel, report, hreport, hheader, hcells, hrows,
    fun g _ => fitsCells_date g.key⟩

end Collection

end Throughput
