/-
  Throughput/Proofs/Session/Labels.lean
  =====================================
  **Series labelled by their signatures.**  A session can group the readings of disk
  logs by signature, which is text of the log.  Such a label is a single line, whatever
  bytes the log holds (`Source.newline_not_mem_signature`), but a bar in it ends the cell
  of the markdown table that it stands in.  So the table of a session is well-formed
  exactly if there is no such bar (`Analysis.markdown_tabulates`); dates, times and the key
  of an undivided session never hold one.
-/
import Throughput.Proofs.Analysis.Tables
import Throughput.Proofs.Reading.Fields

namespace Throughput

/-! ### Signatures -/

namespace Reading

theorem mem_intercalate_singleton {s c : Char} {parts : List (List Char)}
    (h : c ∈ [s].intercalate parts) : c = s ∨ ∃ part ∈ parts, c ∈ part := by
  induction parts with
  | nil => exact absurd h List.not_mem_nil
  | cons part rest ih =>
    cases rest with
    | nil => exact .inr ⟨part, List.mem_cons_self, by simpa using h⟩
    | cons next rest =>
      rw [List.intercalate_cons_cons, List.mem_append, List.mem_append, List.mem_singleton] at h
      rcases h with (h | h) | h
      · exact .inr ⟨part, List.mem_cons_self, h⟩
      · exact .inl h
      · obtain hs | ⟨part', hpart', hc⟩ := ih h
        · exact .inl hs
        · exact .inr ⟨part', List.mem_cons_of_mem _ hpart', hc⟩

/-- A signature is made of characters of its line and what is put between fields. -/
theorem mem_of_mem_signature {d : Delimiter} {text : List Char} {r : Reading}
    (h : parse? d text = some r) {c : Char} (hc : c ∈ r.signature.toList) :
    c = d.separatorChar ∨ c ∈ text := by
  rw [parse?_eq] at h
  split at h
  next =>
    cases h
    change c ∈ (d.join _).toList at hc
    rw [Delimiter.toList_join] at hc
    obtain hs | ⟨field, hfield, hc⟩ := mem_intercalate_singleton hc
    · exact .inl hs
    · have hline := Delimiter.mem_of_mem_fields ((List.dropLast_sublist _).subset hfield) hc
      exact .inr ((List.rdropWhile_prefix _ text).subset hline)
  next => cases h

end Reading

namespace Source

theorem newline_not_mem_of_mem_lines {log : Source} {line : List UInt8} (h : line ∈ log.lines) :
    Text.newline ∉ line := by
  have hpieces : line ∈ Text.pieces (· == Text.newline) log.bytes := by
    rw [lines] at h
    split at h
    · rw [Text.byteLines] at h
      split at h
      · exact (List.dropLast_sublist _).subset h
      · exact h
    · exact (List.dropLast_sublist _).subset h
  intro hmem
  exact absurd (Text.mem_pieces_uncut _ hpieces _ hmem) (by decide)

/-- The line of a reading is a single one, and so is its signature. -/
theorem newline_not_mem_signature {d : Delimiter} {log : Source} {r : Reading}
    (h : r ∈ log.readings d) : '\n' ∉ r.signature.toList := by
  obtain ⟨line, hline, hparse⟩ := List.mem_filterMap.1 h
  intro hmem
  rcases Reading.mem_of_mem_signature hparse hmem with hs | htext
  · cases d <;> exact absurd hs (by decide)
  · obtain ⟨a, ha, hnewline⟩ := Text.exists_of_mem_decodeUtf8 htext (by decide)
    obtain rfl : a = Text.newline := UInt8.toNat_inj.1 hnewline
    exact newline_not_mem_of_mem_lines hline ha

end Source

/-! ### Labels of a session -/

/-- Groups have the keys that samples were observed under. -/
theorem IsGrouping.exists_key_iff {κ : Type} [SeriesKey κ] [DecidableEq κ]
    {os : List (Observation κ)} {groups : List (Group κ)} (h : IsGrouping os groups) {key : κ} :
    (∃ g ∈ groups, g.key = key) ↔ ∃ o ∈ os, o.tag.key = key := by
  constructor
  · rintro ⟨g, hg, rfl⟩
    obtain ⟨o, ho, htag⟩ := h.exists_observation hg
    exact ⟨o, ho, congrArg Tag.key htag⟩
  · rintro ⟨o, ho, rfl⟩
    obtain ⟨g, hg, htag⟩ := h.exists_group o ho
    exact ⟨g, hg, congrArg Tag.key htag⟩

/-- A reading is observed under its key if it was recognized. -/
theorem Finding.exists_observation_iff {κ : Type} {time : Option Stamp} {key : Reading → κ}
    {r : Reading} {k : κ} :
    (∃ o, (ofReading time key r).observation? = some o ∧ o.tag.key = k) ↔
      r.isRecognized = true ∧ key r = k := by
  rw [ofReading, Reading.isRecognized]
  cases r.verdict <;> simp [observation?]

namespace Session

variable (d : Delimiter) (rule : BandwidthRule)

/-- The session that takes in disk logs and groups their readings by signature. -/
def bySignature (logs : List Source) : Session String :=
  after d rule (logs.map (Feed.disk Reading.signature))

theorem mem_labels_bySignature {logs : List Source} {label : String} :
    label ∈ Analysis.labels (bySignature d rule logs).finish ↔
      ∃ log ∈ logs, ∃ r ∈ log.readings d, r.isRecognized = true ∧ r.signature = label := by
  have hgrouping := isGrouping_after d rule (logs.map (Feed.disk Reading.signature))
  have hlabels : label ∈ Analysis.labels (bySignature d rule logs).finish ↔
      ∃ g ∈ (bySignature d rule logs).finish.groups, g.key = label := List.mem_map
  rw [hlabels, bySignature, hgrouping.exists_key_iff]
  constructor
  · rintro ⟨o, ho, hkey⟩
    obtain ⟨f, hf, hobserved⟩ := List.mem_filterMap.1 ho
    obtain ⟨step, hstep, hf⟩ := List.mem_flatMap.1 hf
    obtain ⟨log, hlog, rfl⟩ := List.mem_map.1 hstep
    obtain ⟨r, hr, rfl⟩ := List.mem_map.1 hf
    exact ⟨log, hlog, r, hr, Finding.exists_observation_iff.1 ⟨o, hobserved, hkey⟩⟩
  · rintro ⟨log, hlog, r, hr, hrecognized⟩
    obtain ⟨o, hobserved, hkey⟩ := Finding.exists_observation_iff.2 hrecognized
    have hstep : Feed.disk Reading.signature log ∈ logs.map (Feed.disk Reading.signature) :=
      List.mem_map_of_mem hlog
    have hfinding : Finding.ofReading none Reading.signature r ∈
        (Feed.disk Reading.signature log).findings d rule := List.mem_map_of_mem hr
    refine ⟨o, List.mem_filterMap.2 ⟨_, ?_, hobserved⟩, hkey⟩
    exact List.mem_flatMap.2 ⟨_, hstep, hfinding⟩

/-- Bars alone keep the labels of logs out of a cell. -/
theorem isCell_labels_bySignature_iff {logs : List Source} :
    (∀ label ∈ Analysis.labels (bySignature d rule logs).finish, Analysis.IsCell label.toList) ↔
      ∀ log ∈ logs, ∀ r ∈ log.readings d, r.isRecognized = true → '|' ∉ r.signature.toList := by
  simp only [mem_labels_bySignature]
  constructor
  · intro h log hlog r hr hrecognized hbar
    exact absurd (h _ ⟨log, hlog, r, hr, hrecognized, rfl⟩ _ hbar) (by decide)
  · rintro h label ⟨log, hlog, r, hr, hrecognized, rfl⟩ c hc
    apply Analysis.isCellChar_iff.2
    constructor
    · rintro rfl
      exact h log hlog r hr hrecognized hc
    · rintro rfl
      exact Source.newline_not_mem_signature hr hc

end Session

/-! ### Tables of sessions -/

namespace Analysis

/-- **The markdown report is a table wherever its labels are cells.**  A trustworthy
    collection has a report at any ranks between 0 and 100.  Its table has the nine fixed
    columns and one for each rank, in the heading and in the rule under it, and a row for
    each series in order; every row has as many cells and shows its label exactly if all
    labels are cells.  Keys that are no text of a log are labelled by cells; signatures
    are unless a recognized reading has a bar in front of its last field. -/
theorem markdown_tabulates (d : Delimiter) (rule : BandwidthRule) :
    (∀ {κ : Type} [SeriesKey κ] (c : Collection κ) (ranks : List Binary64),
      c.isTrustworthy = true → (∀ rank ∈ ranks, Quantity.isRank rank = true) →
        ∀ title generated, ∃ report, c.summarize ranks = .ok report ∧
          (ofReport title generated report).Tabulates ranks c) ∧
    FitsCells Unit ∧ FitsCells Date ∧ FitsCells Stamp ∧
    ∀ logs : List Source,
      (∀ label ∈ labels (Session.bySignature d rule logs).finish, IsCell label.toList) ↔
        ∀ log ∈ logs, ∀ r ∈ log.readings d, r.isRecognized = true → '|' ∉ r.signature.toList := by
  refine ⟨?_, fitsCells_unit, fitsCells_date, fitsCells_stamp, ?_⟩
  · intro κ _ c ranks htrust hranks title generated
    obtain ⟨report, hreport⟩ := c.exists_summarize hranks
    exact ⟨report, hreport, tabulates_of_summarize htrust hreport title generated⟩
  · intro logs
    exact Session.isCell_labels_bySignature_iff d rule

/-- Runs on two days with a day missing between them, at two ranks, and a disk log under
    its signatures. -/
theorem markdown_tabulates_gap_day :
    let days := (Session.after .comma .standard [
      .daily ⟨"27", Date.atClock ⟨2016, 3, 1, by decide⟩ 0 0 0⟩ "r, a, 4\n",
      .daily ⟨"27", Date.atClock ⟨2016, 2, 28, by decide⟩ 0 0 0⟩ "r, a|b, 3\n"]).finishContiguous
    let log : Source := .ofText "r, a, 4\nr, b, 5|\n"
    let generated := Date.atClock ⟨1970, 1, 1, by decide⟩ 0 0 0
    (∃ report, days.summarize [.ofNat 95, .zero true] = .ok report ∧
      (ofReport "disk" generated report).table.IsWellFormed 11
        ["2016-02-28", "2016-02-29", "2016-03-01"]) ∧
    ∀ label ∈ labels (Session.bySignature .comma .standard [log]).finish,
      IsCell label.toList := by
  intro days log generated
  obtain ⟨htables, -, hdays, -, hlogs⟩ := markdown_tabulates .comma .standard
  constructor
  · obtain ⟨report, hreport, htable⟩ := htables days [.ofNat 95, .zero true]
      (by decide +kernel) (by decide +kernel) "disk" generated
    have hcolumns : 9 + (shownRanks [.ofNat 95, .zero true] days).length = 11 := by
      decide +kernel
    have hlabels : labels days = ["2016-02-28", "2016-02-29", "2016-03-01"] := by
      decide +kernel
    refine ⟨report, hreport, ?_⟩
    rw [← hcolumns, ← hlabels, htable.isWellFormed_iff]
    intro label hlabel
    obtain ⟨g, -, rfl⟩ := List.mem_map.1 hlabel
    exact hdays g.key
  · apply (hlogs [log]).2
    decide +kernel

/-- A bar in a signature makes a row one cell longer than its heading. -/
theorem markdown_breaks_at_bar :
    let log : Source := .ofText "r, a|b, 5\n"
    let c := (Session.bySignature .comma .standard [log]).finish
    let generated := Date.atClock ⟨1970, 1, 1, by decide⟩ 0 0 0
    c.isTrustworthy = true ∧ labels c = ["r, a|b"] ∧
    ∃ report, c.summarize [] = .ok report ∧
      let a := ofReport "session" generated report
      a.markdown = a.lead ++ a.table.text ++ a.closing ∧
      (cellsOf a.table.header).length = 9 ∧ (cellsOf a.table.rule).length = 9 ∧
      a.table.rows.map (fun row => (cellsOf row).length) = [10] := by
  intro log c generated
  have hwidths : (c.summarize []).toOption.any (fun report =>
      let a := ofReport "session" generated report
      !a.withheld && decide ((cellsOf a.table.header).length = 9 ∧
        (cellsOf a.table.rule).length = 9 ∧
        a.table.rows.map (fun row => (cellsOf row).length) = [10])) = true := by
    decide +kernel
  obtain ⟨report, hreport, hwidths⟩ := Collection.exists_report_of_any hwidths
  rw [Bool.and_eq_true, Bool.not_eq_true', decide_eq_true_iff] at hwidths
  refine ⟨by decide +kernel, by decide +kernel, report, hreport, ?_, hwidths.2⟩
  exact markdown_of_not_withheld hwidths.1

end Analysis

end Throughput
