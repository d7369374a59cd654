/-
  Throughput/Proofs/Analysis/Tables.lean
  ======================================
  **The table of the markdown report.**  A row made of cells reads as these cells if
  none of them holds a bar or a line end, and only then (`isRow_tableRow_iff`).  All
  cells but the label are numbers or words of the program, so a table is well-formed
  exactly if its labels are cells (`markdown_isWellFormed_iff`).  Dates and times always
  are; a label taken from a log need not be, since nothing in it is escaped.
-/
import Throughput.Analysis.Markdown
import Throughput.Proofs.Calendar.Written
import Throughput.Proofs.Number.PlainText
import Throughput.Proofs.Session.Exports
import Throughput.Proofs.Text.Lines

namespace Throughput.Analysis

/-! ### Lines and their cells -/

/-- A character that ends neither a cell nor a line. -/
def isCellChar (c : Char) : Bool := c != '|' && c != '\n'

theorem isCellChar_iff {c : Char} : isCellChar c = true ↔ c ≠ '|' ∧ c ≠ '\n' := by
  simp [isCellChar]

/-- A text that can stand in a cell. -/
def IsCell (text : List Char) : Prop := ∀ c ∈ text, isCellChar c = true

instance (text : List Char) : Decidable (IsCell text) :=
  decidable_of_iff (text.all isCellChar = true) List.all_eq_true

/-- The cells of a line: what stands between its bars. -/
def cellsOf (line : String) : List (List Char) :=
  ((Text.pieces (· == '|') line.toList).drop 1).dropLast

/-- A single line with so many cells. -/
structure IsRow (columns : Nat) (line : String) : Prop where
  ends : ∃ text, line.toList = text ++ ['\n'] ∧ '\n' ∉ text
  cells : (cellsOf line).length = columns

theorem length_cellsOf (line : String) :
    (cellsOf line).length = line.toList.count '|' - 1 := by
  rw [cellsOf, List.length_dropLast, List.length_drop, Text.length_pieces]
  rfl

theorem toList_textLine (parts : List String) :
    (textLine parts).toList = parts.flatMap String.toList ++ ['\n'] := by
  simp [textLine, String.toList_join]

/-- A cell with the blanks around it. -/
def padded (text : String) : List Char := ' ' :: text.toList ++ [' ']

theorem toList_tableRow (cells : List String) :
    (tableRow cells).toList = '|' :: (cells.flatMap fun c => padded c ++ ['|']) ++ ['\n'] := by
  simp [tableRow, toList_textLine, padded, String.toList_join, List.flatMap_map]

theorem count_bars_tableRow (cells : List String) :
    (tableRow cells).toList.count '|' =
      (cells.map fun c => c.toList.count '|').sum + cells.length + 1 := by
  have hcells : (cells.flatMap fun c => padded c ++ ['|']).count '|' =
      (cells.map fun c => c.toList.count '|').sum + cells.length := by
    induction cells with
    | nil => rfl
    | cons c cells ih =>
      have hc : (padded c ++ ['|']).count '|' = c.toList.count '|' + 1 := by simp [padded]
      rw [List.flatMap_cons, List.count_append, ih, hc, List.map_cons, List.sum_cons,
        List.length_cons]
      omega
  rw [toList_tableRow, List.count_append, List.count_cons_self, hcells]
  rfl

theorem pieces_cells {cells : List String} (h : ∀ c ∈ cells, IsCell c.toList) (rest : List Char) :
    Text.pieces (· == '|') ((cells.flatMap fun c => padded c ++ ['|']) ++ rest) =
      cells.map padded ++ Text.pieces (· == '|') rest := by
  induction cells with
  | nil => rfl
  | cons c cells ih =>
    have hc : ∀ x ∈ padded c, (x == '|') = false := by
      intro x hx
      have hcases : x = ' ' ∨ x ∈ c.toList := by simpa [padded, or_comm] using hx
      rcases hcases with rfl | hx
      · rfl
      · exact beq_eq_false_iff_ne.2 (isCellChar_iff.1 (h c List.mem_cons_self x hx)).1
    have hcut := Text.pieces_append_cons (· == '|') hc (beq_self_eq_true '|')
      ((cells.flatMap fun c => padded c ++ ['|']) ++ rest)
    rw [ih fun c' hc' => h c' (List.mem_cons_of_mem _ hc')] at hcut
    simpa using hcut

/-- The cells of a row are the ones it was made of. -/
theorem cellsOf_tableRow {cells : List String} (h : ∀ c ∈ cells, IsCell c.toList) :
    cellsOf (tableRow cells) = cells.map padded := by
  have hend : Text.pieces (· == '|') ['\n'] = [['\n']] := by decide
  rw [cellsOf, toList_tableRow, List.cons_append, Text.pieces_cons, if_pos (by decide),
    pieces_cells h, hend]
  simp

theorem isRow_tableRow_iff {cells : List String} :
    IsRow cells.length (tableRow cells) ↔ ∀ c ∈ cells, IsCell c.toList := by
  constructor
  · rintro ⟨⟨text, hline, htext⟩, hcells⟩ c hc x hx
    apply isCellChar_iff.2
    constructor
    · -- the bars between the cells are already as many as the row may have
      rintro rfl
      rw [length_cellsOf, count_bars_tableRow] at hcells
      have hsum : (cells.map fun c => c.toList.count '|').sum = 0 := by omega
      have hzero := List.sum_eq_zero_iff_forall_eq_nat.1 hsum _ (List.mem_map_of_mem hc)
      exact List.count_eq_zero.1 hzero hx
    · rintro rfl
      rw [toList_tableRow] at hline
      obtain rfl := List.append_cancel_right hline
      apply htext
      exact List.mem_cons_of_mem _ (List.mem_flatMap.2 ⟨c, hc, by simp [padded, hx]⟩)
  · intro h
    constructor
    · refine ⟨_, toList_tableRow cells, ?_⟩
      intro hmem
      rcases List.mem_cons.1 hmem with heq | hmem
      · exact absurd heq (by decide)
      · obtain ⟨c, hc, hmem⟩ := List.mem_flatMap.1 hmem
        have hnewline : '\n' ∈ c.toList := by simpa [padded] using hmem
        exact (isCellChar_iff.1 (h c hc _ hnewline)).2 rfl
    · rw [cellsOf_tableRow h, List.length_map]

/-! ### Texts of the program -/

theorem isCellChar_of_isDigit (c : Char) (h : Decimal.isDigit c = true) : isCellChar c = true :=
  isCellChar_iff.2 ⟨Decimal.ne_of_isDigit h (by decide), Decimal.ne_of_isDigit h (by decide)⟩

theorem isCell_of_isDigit {text : List Char} (h : ∀ c ∈ text, Decimal.isDigit c = true) :
    IsCell text :=
  fun c hc => isCellChar_of_isDigit c (h c hc)

theorem isCell_append {xs ys : List Char} : IsCell (xs ++ ys) ↔ IsCell xs ∧ IsCell ys :=
  List.forall_mem_append

theorem isCell_cons {c : Char} {cs : List Char} :
    IsCell (c :: cs) ↔ isCellChar c = true ∧ IsCell cs :=
  List.forall_mem_cons

theorem isCell_name (metric : Metric) : IsCell metric.name.toList := by
  cases metric <;> decide

theorem isCell_unit (metric : Metric) : IsCell metric.unit.toList := by
  cases metric <;> decide

theorem isCell_natText (n : Nat) : IsCell (natText n).toList := by
  rw [natText, String.toList_ofList]
  exact isCell_of_isDigit fun _ => Decimal.isDigit_digitsOf

theorem isCell_plain (x : Binary64) : IsCell x.plain.toList :=
  Binary64.plain_all isCellChar_of_isDigit (by decide) x

theorem isCell_cell (x : Option Binary64) : IsCell (cell x).toList := by
  cases x with
  | none => decide
  | some x => exact Binary64.fixed_all isCellChar_of_isDigit (by decide) 2 x

theorem isCell_twoDigits (n : Nat) : IsCell (Date.twoDigits n) :=
  isCell_of_isDigit (isDigit_padLeft_digitsOf n 2)

theorem isCell_date (d : Date) : IsCell d.text := by
  have hyear : IsCell (Date.yearText d.year) := by
    have hdigits := isCell_of_isDigit (isDigit_padLeft_digitsOf d.year.natAbs 4)
    rw [Date.yearText]
    split_ifs
    · exact hdigits
    · exact isCell_cons.2 ⟨by decide, hdigits⟩
    · exact isCell_cons.2 ⟨by decide, hdigits⟩
  simp [Date.text, isCell_append, isCell_cons, isCellChar_iff, hyear, isCell_twoDigits]

theorem isCell_stamp (s : Stamp) : IsCell s.label.toList := by
  simp [Stamp.label, Stamp.clockText, isCell_append, isCell_cons, isCellChar_iff, isCell_date,
    isCell_twoDigits]

/-! ### The lines of a table -/

/-- The text in the cell of a label. -/
def keyText (label : String) : String := if label = "" then "-" else label

/-- The cells of a data row. -/
def rowCells (ranks : List Binary64) (s : SeriesSummary) : List String :=
  [s.metric.name, keyText s.label, s.unit, natText s.count,
    cell (s.statistics.map (·.least)), cell (s.statistics.map (·.greatest)),
    cell (s.statistics.map (·.mean)), cell (s.statistics.map (·.median)),
    cell (s.statistics.map (·.deviation))] ++
  ranks.map fun rank => cell (s.statistics.bind (·.percentile? rank))

theorem length_rowCells (ranks : List Binary64) (s : SeriesSummary) :
    (rowCells ranks s).length = 9 + ranks.length := by
  rw [rowCells, List.length_append, List.length_map]
  rfl

theorem isCell_keyText_iff {label : String} :
    IsCell (keyText label).toList ↔ IsCell label.toList := by
  rw [keyText]
  split
  next h =>
    rw [h]
    decide
  next => rfl

/-- Numbers and words of the program fill all cells of a row but that of its label. -/
theorem isCell_rowCells_iff {ranks : List Binary64} {s : SeriesSummary}
    (hunit : s.unit = s.metric.unit) :
    (∀ c ∈ rowCells ranks s, IsCell c.toList) ↔ IsCell s.label.toList := by
  have hranks : ∀ c ∈ ranks.map fun rank => cell (s.statistics.bind (·.percentile? rank)),
      IsCell c.toList :=
    List.forall_mem_map.2 fun _ _ => isCell_cell _
  rw [rowCells, List.forall_mem_append, and_iff_left hranks]
  simp [isCell_name, isCell_keyText_iff, hunit, isCell_unit, isCell_natText, isCell_cell]

/-- The headings over the columns of a table. -/
def headings (ranks : List Binary64) : List String :=
  ["Metric", "Key", "Unit", "Count", "Min", "Max", "Mean", "Median", "Std"] ++
    ranks.map fun rank => "p" ++ rank.plain

theorem length_headings (ranks : List Binary64) : (headings ranks).length = 9 + ranks.length := by
  rw [headings, List.length_append, List.length_map]
  rfl

theorem isCell_of_mem_headings {ranks : List Binary64} :
    ∀ c ∈ headings ranks, IsCell c.toList := by
  have hfixed : ∀ c ∈ ["Metric", "Key", "Unit", "Count", "Min", "Max", "Mean", "Median", "Std"],
      IsCell c.toList := by
    decide
  have hranks : ∀ c ∈ ranks.map fun rank => "p" ++ rank.plain, IsCell c.toList := by
    intro c hc
    obtain ⟨rank, -, rfl⟩ := List.mem_map.1 hc
    rw [String.toList_append]
    exact isCell_append.2 ⟨by decide, isCell_plain rank⟩
  exact List.forall_mem_append.2 ⟨hfixed, hranks⟩

theorem isRow_headerRow (ranks : List Binary64) : IsRow (9 + ranks.length) (headerRow ranks) := by
  rw [← length_headings]
  exact isRow_tableRow_iff.2 isCell_of_mem_headings

/-- The rule under the nine fixed headings. -/
def fixedRule : String := "|--------|-----|------|-------|-----|-----|------|--------|-----|"

theorem toList_rule (first column : String) (ranks : List Binary64) :
    (textLine [first, String.join (ranks.map fun _ => column)]).toList =
      first.toList ++ (ranks.flatMap fun _ => column.toList) ++ ['\n'] := by
  rw [toList_textLine, List.flatMap_cons, List.flatMap_cons, List.flatMap_nil, List.append_nil,
    String.toList_join, List.flatMap_map]

theorem count_bars_rule (ranks : List Binary64) :
    (ranks.flatMap fun _ => "-----|".toList).count '|' = ranks.length := by
  induction ranks with
  | nil => rfl
  | cons rank ranks ih =>
    have hone : "-----|".toList.count '|' = 1 := by decide
    rw [List.flatMap_cons, List.count_append, ih, hone, List.length_cons, Nat.add_comm]

theorem isRow_ruleRow (ranks : List Binary64) : IsRow (9 + ranks.length) (ruleRow ranks) := by
  have hrule : (ruleRow ranks).toList =
      fixedRule.toList ++ (ranks.flatMap fun _ => "-----|".toList) ++ ['\n'] :=
    toList_rule fixedRule "-----|" ranks
  constructor
  · have hfixed : '\n' ∉ fixedRule.toList := by decide
    have hcolumn : '\n' ∉ "-----|".toList := by decide
    refine ⟨_, hrule, ?_⟩
    rw [List.mem_append, List.mem_flatMap]
    rintro (h | ⟨_, -, h⟩)
    · exact hfixed h
    · exact hcolumn h
  · have hfixed : fixedRule.toList.count '|' = 10 := by decide
    have hend : ['\n'].count '|' = 0 := by decide
    rw [length_cellsOf, hrule, List.count_append, List.count_append, count_bars_rule, hfixed, hend]
    omega

/-- A line of the table with one row for a label, which stands in its second cell. -/
structure ShowsLabel (columns : Nat) (label line : String) : Prop where
  isRow : IsRow columns line
  key : (cellsOf line)[1]? = some (padded (keyText label))

theorem showsLabel_seriesRow_iff {ranks : List Binary64} {s : SeriesSummary}
    (hunit : s.unit = s.metric.unit) :
    ShowsLabel (9 + ranks.length) s.label (seriesRow ranks s) ↔ IsCell s.label.toList := by
  have hrow : seriesRow ranks s = tableRow (rowCells ranks s) := rfl
  have hcells : (∀ c ∈ rowCells ranks s, IsCell c.toList) ↔ IsCell s.label.toList :=
    isCell_rowCells_iff hunit
  rw [hrow, ← hcells, ← isRow_tableRow_iff, length_rowCells]
  constructor
  · intro h
    exact h.isRow
  · intro h
    refine ⟨h, ?_⟩
    rw [← length_rowCells ranks s, isRow_tableRow_iff] at h
    rw [cellsOf_tableRow h]
    rfl

/-! ### Tables -/

/-- A table in its lines. -/
structure Table where
  header : String
  rule : String
  rows : List String

namespace Table

def text (t : Table) : String := t.header ++ t.rule ++ String.join t.rows

/-- All lines hold the same number of cells, and there is one row for each label. -/
structure IsWellFormed (columns : Nat) (labels : List String) (t : Table) : Prop where
  header : IsRow columns t.header
  rule : IsRow columns t.rule
  rows : List.Forall₂ (ShowsLabel columns) labels t.rows

end Table

def table (a : Analysis) : Table where
  header := headerRow (columnRanks a.series)
  rule := ruleRow (columnRanks a.series)
  rows := a.series.map (seriesRow (columnRanks a.series))

/-- What stands above the table. -/
def lead (a : Analysis) : String :=
  String.join [
    textLine ["# ", a.title, " summary"],
    textLine [],
    textLine ["Generated: ", a.generatedText],
    textLine [],
    textLine ["Readings: ", natText a.readings],
    textLine []]

/-- What stands below the table. -/
def closing (a : Analysis) : String :=
  String.join [textLine [], textLine ["---"], textLine ["Total series: ", natText a.series.length]]

theorem markdown_of_not_withheld {a : Analysis} (h : a.withheld = false) :
    a.markdown = a.lead ++ a.table.text ++ a.closing := by
  rw [markdown, if_neg (by simp [h])]
  simp only [lead, Table.text, table, closing, String.join_cons, String.join_nil]
  simp [String.append_assoc]

theorem table_isWellFormed_iff {a : Analysis} (hunit : ∀ s ∈ a.series, s.unit = s.metric.unit) :
    a.table.IsWellFormed (9 + (columnRanks a.series).length) (a.series.map (·.label)) ↔
      ∀ s ∈ a.series, IsCell s.label.toList := by
  have hrows : List.Forall₂ (ShowsLabel (9 + (columnRanks a.series).length))
      (a.series.map (·.label)) a.table.rows ↔ ∀ s ∈ a.series, IsCell s.label.toList := by
    rw [table, List.forall₂_map_left_iff, List.forall₂_map_right_iff, List.forall₂_same]
    exact forall₂_congr fun s hs => showsLabel_seriesRow_iff (hunit s hs)
  rw [← hrows]
  constructor
  · intro h
    exact h.rows
  · intro h
    exact ⟨isRow_headerRow _, isRow_ruleRow _, h⟩

/-! ### Tables of collections -/

/-- Keys whose labels can all stand in a cell. -/
def FitsCells (κ : Type) [SeriesKey κ] : Prop := ∀ key : κ, IsCell (SeriesKey.label key).toList

theorem fitsCells_unit : FitsCells Unit := by
  intro key
  change IsCell "".toList
  decide

theorem fitsCells_date : FitsCells Date := by
  intro d
  change IsCell (String.ofList d.text).toList
  rw [String.toList_ofList]
  exact isCell_date d

theorem fitsCells_stamp : FitsCells Stamp := isCell_stamp

section

variable {κ : Type} [SeriesKey κ]

/-- The ranks that have a column, if there are any samples at all. -/
def shownRanks (ranks : List Binary64) (c : Collection κ) : List Binary64 :=
  if c.groups.all Group.isEmpty then [] else ranks

def labels (c : Collection κ) : List String := c.groups.map fun g => SeriesKey.label g.key

/-- What the markdown report of a collection says as a table. -/
structure Tabulates (a : Analysis) (ranks : List Binary64) (c : Collection κ) : Prop where
  markdown_eq : a.markdown = a.lead ++ a.table.text ++ a.closing
  header : IsRow (9 + (shownRanks ranks c).length) a.table.header
  rule : IsRow (9 + (shownRanks ranks c).length) a.table.rule
  length_rows : a.table.rows.length = c.groups.length
  isWellFormed_iff : a.table.IsWellFormed (9 + (shownRanks ranks c).length) (labels c) ↔
    ∀ label ∈ labels c, IsCell label.toList

variable {c : Collection κ} {ranks : List Binary64}

/-- The first series with statistics has a percentile for each rank, as have all others. -/
theorem columnRanks_of_portrays {series : List SeriesSummary} {charts : List ChartSeries}
    (h : List.Forall₂ (SeriesSummary.Portrays ranks) series charts) :
    columnRanks series = if charts.all (·.samples.isEmpty) then [] else ranks := by
  induction h with
  | nil => rfl
  | @cons s chart series charts hportrays _ ih =>
    rw [columnRanks, List.findSome?_cons, List.all_cons]
    cases hs : s.statistics with
    | none =>
      rw [hportrays.statistics_eq_none_iff.1 hs]
      exact ih
    | some t =>
      have hne : chart.samples.isEmpty = false := by
        rw [List.isEmpty_eq_false_iff, Ne, ← hportrays.statistics_eq_none_iff, hs]
        exact Option.some_ne_none t
      rw [hne]
      exact (hportrays.describes t hs).ranks_eq

/-- The columns of a table are those of the ranks that are shown. -/
theorem columnRanks_of_summarize (htrust : c.isTrustworthy = true) {report : Report κ}
    (h : c.summarize ranks = .ok report) (title : String) (generated : Stamp) :
    columnRanks (ofReport title generated report).series = shownRanks ranks c := by
  rw [columnRanks_of_portrays (Collection.portrays_of_summarize htrust h title generated),
    List.all_map]
  rfl

/-- The table of a trustworthy collection shows every series in its row, unless the label
    of some series does not fit in a cell. -/
theorem tabulates_of_summarize (htrust : c.isTrustworthy = true) {report : Report κ}
    (h : c.summarize ranks = .ok report) (title : String) (generated : Stamp) :
    (ofReport title generated report).Tabulates ranks c := by
  have hportrays := Collection.portrays_of_summarize htrust h title generated
  have hranks := columnRanks_of_summarize htrust h title generated
  have hwithheld : (ofReport title generated report).withheld = false := by
    have hreport := Collection.withheld_of_summarize h
    rwa [htrust] at hreport
  have hunit : ∀ s ∈ (ofReport title generated report).series, s.unit = s.metric.unit :=
    List.forall_mem_map.2 fun _ _ => rfl
  generalize ofReport title generated report = a at hportrays hranks hwithheld hunit
  have hlength : a.table.rows.length = c.groups.length := by
    have hlength := hportrays.length_eq
    rwa [List.length_map, ← List.length_map (seriesRow (columnRanks a.series))] at hlength
  rw [List.forall₂_map_right_iff] at hportrays
  have hlabels : a.series.map (·.label) = labels c := by
    rw [labels, ← List.forall₂_eq_eq_eq, List.forall₂_map_left_iff, List.forall₂_map_right_iff]
    exact hportrays.imp fun _ _ hseries => hseries.label_eq
  constructor
  case markdown_eq => exact markdown_of_not_withheld hwithheld
  case header => exact hranks ▸ isRow_headerRow _
  case rule => exact hranks ▸ isRow_ruleRow _
  case length_rows => exact hlength
  case isWellFormed_iff =>
    rw [← hranks, ← hlabels, table_isWellFormed_iff hunit, List.forall_mem_map]

end

end Throughput.Analysis
