/-
  Throughput/Proofs/Settings/RoundTrip.lean
  =========================================
  **Settings that are shown come back from a file.**  The text of settings is that of a
  document of sound lines (`tomlText?_eq`, `isSound_lines`), and what such a document says
  is read as these settings again (`ofText?_lines`, `ofEntries?_entries`).  So `status`
  shows whatever can be loaded as what loads as the same (`Invocation.status_restores`),
  but for a count of header lines that is no whole number of a settings file: it can be
  loaded, and `status` fails for it (`status_fails_rounded_count`).
-/
import Throughput.Command.Run
import Throughput.Proofs.Settings.Loaded
import Throughput.Proofs.Settings.Sources
import Throughput.Proofs.Toml.Documents
import Throughput.Proofs.Toml.Values

namespace Throughput

namespace Settings

open Toml (Line)

/-! ### The text -/

/-- The lines of the text of settings. -/
def lines (s : Settings) : List Line :=
  [.entry "delimiter" ('"' :: (delimiterName s.delimiter).toList ++ ['"'])
      (.string (delimiterName s.delimiter)),
    .entry "percentiles" (Toml.numbersText s.percentiles).toList
      (.array (s.percentiles.map .number)),
    .blank,
    .header "manifest",
    .entry "marker" (Toml.charText s.manifest.marker)
      (.string (String.ofList [s.manifest.marker])),
    .entry "header_lines" (natText s.manifest.headerLines).toList
      (.integer s.manifest.headerLines),
    .entry "default_year" (intText s.manifest.defaultYear).toList
      (.integer s.manifest.defaultYear),
    .blank,
    .header "bandwidth",
    .entry "gbit_factor" s.bandwidth.gbitFactor.pointed.toList
      (.number s.bandwidth.gbitFactor)]

theorem tomlText?_eq {s : Settings} (h : Word.fitsSigned 64 s.manifest.headerLines = true) :
    s.tomlText? = some (String.ofList (s.lines.flatMap Line.chars)) := by
  refine (if_pos h).trans (congrArg some ?_)
  rw [← String.toList_inj, String.toList_ofList]
  simp [lines, Line.chars]

theorem isSound_lines {s : Settings} (h : s.InRange)
    (hlines : Word.fitsSigned 64 s.manifest.headerLines = true) :
    ∀ line ∈ s.lines, line.IsSound := by
  have hyear : Word.fitsSigned 64 s.manifest.defaultYear = true := by
    have hleast : Word.leastSigned 64 ≤ Word.leastSigned 32 := by decide
    have hgreatest : Word.greatestSigned 32 ≤ Word.greatestSigned 64 := by decide
    have hshort := h.defaultYear
    simp only [Word.fitsSigned, Bool.and_eq_true, decide_eq_true_eq] at hshort ⊢
    omega
  have hdelimiter : Toml.ReadsAs Toml.depthLimit
      ('"' :: (delimiterName s.delimiter).toList ++ ['"'])
      (.string (delimiterName s.delimiter)) := by
    cases s.delimiter <;>
      exact Toml.readsAs_of_string? _ rfl (.inl rfl) fun rest _ => rfl
  have hfactor : Toml.ReadsAs Toml.depthLimit s.bandwidth.gbitFactor.pointed.toList
      (.number s.bandwidth.gbitFactor) := by
    rcases h.gbitFactor with hfinite | hinfinite
    · exact Toml.readsAs_pointed _ hfinite
    · rw [hinfinite]
      exact Toml.readsAs_infinity _
  simp only [lines, List.forall_mem_cons]
  exact ⟨.entry (by decide) hdelimiter,
    .entry (by decide) (Toml.readsAs_numbersText 78 h.percentiles), .blank, .header (by decide),
    .entry (by decide) (Toml.readsAs_charText _ _),
    .entry (by decide) (Toml.readsAs_natText _ hlines),
    .entry (by decide) (Toml.readsAs_intText _ hyear), .blank, .header (by decide),
    .entry (by decide) hfactor, List.forall_mem_nil _⟩

/-! ### The entries -/

/-- The entries of a file with all settings. -/
def entries (s : Settings) : Toml.Entries :=
  [("delimiter", .string (delimiterName s.delimiter)),
    ("percentiles", .array (s.percentiles.map .number)),
    ("manifest", .table
      [("marker", .string (String.ofList [s.manifest.marker])),
        ("header_lines", .integer s.manifest.headerLines),
        ("default_year", .integer s.manifest.defaultYear)]),
    ("bandwidth", .table [("gbit_factor", .number s.bandwidth.gbitFactor)])]

theorem foldlM_lines (s : Settings) :
    ∃ p, s.lines.foldlM Line.takeUp? .start = some p ∧
      Toml.Draft.entriesToToml p.entries = s.entries := by
  exact ⟨_, rfl, rfl⟩

theorem withDates?_entries (s : Settings) :
    (Toml.table s.entries).withDates? = some (.table s.entries) := by
  simp [entries, Toml.withDates?, Toml.marked?, Toml.dateMark, Toml.entriesWithDates?,
    Toml.itemsWithDates?_numbers]

theorem path_name : ∀ name ∈ Setting.groups ++ ["delimiter", "percentiles"],
    Toml.path name = [.entry name] := by
  decide

theorem lowerKey_name : ∀ name ∈ ["marker", "header_lines", "default_year", "gbit_factor"],
    Toml.lowerKey name = name := by
  decide

theorem layKey_eq_lay {name : String} (h : Toml.path name = [.entry name])
    (entries : Toml.Entries) (value : Toml) :
    Toml.layKey entries name value = .ok (Toml.lay name value entries) := by
  rw [Toml.layKey, h]
  rfl

/-- Laid over nothing, the entries stay as they are. -/
theorem layers_entries (s : Settings) : Toml.layers s.entries [] = .ok s.entries := by
  have hpath := path_name
  have hkey := lowerKey_name
  simp only [Setting.groups, List.cons_append, List.nil_append, List.forall_mem_cons] at hpath hkey
  obtain ⟨hmanifest, hbandwidth, hdelimiter, hpercentiles, -⟩ := hpath
  obtain ⟨hmarker, hlines, hyear, hfactor, -⟩ := hkey
  simp only [Toml.layers, entries, List.foldlM_cons, List.foldlM_nil, layKey_eq_lay hmanifest,
    layKey_eq_lay hbandwidth, layKey_eq_lay hdelimiter, layKey_eq_lay hpercentiles, Toml.lay,
    Toml.layAll, hmarker, hlines, hyear, hfactor]
  rfl

theorem toDelimiter?_delimiterName (d : Delimiter) :
    Toml.toDelimiter? (.string (delimiterName d)) = some d := by
  cases d <;> decide

theorem toList?_numbers (xs : List Binary64) :
    Toml.toList? Toml.toNumber? (.array (xs.map .number)) = some xs := by
  rw [Toml.toList?]
  induction xs with
  | nil => rfl
  | cons x xs ih =>
    rw [List.map_cons, List.mapM_cons, ih]
    rfl

theorem toChar?_singleton (c : Char) : Toml.toChar? (.string (String.ofList [c])) = some c := by
  rw [Toml.toChar?, String.toList_ofList]

theorem toNatural?_natCast (n : Nat) : Toml.toNatural? (.integer n) = some n := by
  rw [Toml.toNatural?, if_pos (Int.natCast_nonneg n), Int.toNat_natCast]

theorem grouped_entries (s : Settings) : Setting.Grouped s.entries := by
  intro group hgroup value hvalue
  rcases (by simpa [Setting.groups] using hgroup : group = "manifest" ∨ group = "bandwidth")
    with rfl | rfl <;> exact ⟨_, (Option.some_inj.1 hvalue).symm⟩

/-- **The entries of settings are read as these settings**, if the year has 32 bits. -/
theorem ofEntries?_entries {s : Settings} (h : Word.fitsSigned 32 s.manifest.defaultYear = true) :
    ofEntries? s.entries = some s := by
  rw [ofEntries?_eq_some_iff s.grouped_entries]
  exact {
    delimiter := toDelimiter?_delimiterName s.delimiter
    percentiles := toList?_numbers s.percentiles
    marker := toChar?_singleton s.manifest.marker
    headerLines := toNatural?_natCast s.manifest.headerLines
    defaultYear := (Option.filter_some ..).trans (if_pos h)
    gbitFactor := rfl }

/-! ### Reading it back -/

/-- The entries of a file with the text of settings. -/
theorem ofText?_lines {s : Settings} (h : s.InRange)
    (hlines : Word.fitsSigned 64 s.manifest.headerLines = true) :
    Toml.ofText? (s.lines.flatMap Line.chars) = some s.entries := by
  obtain ⟨p, hp, hentries⟩ := s.foldlM_lines
  refine Toml.ofText?_flatMap (isSound_lines h hlines) hp ?_
  rw [hentries]
  exact s.withDates?_entries

/-- Variables that set nothing change nothing. -/
theorem layers_of_forall {environment : Environment}
    (h : ∀ v ∈ environment, Toml.variableKey? v.1 = none) (file : Toml.Entries) :
    Toml.layers file environment = Toml.layers file [] := by
  have hnone : variableWrites environment = [] := by
    simpa [variableWrites] using h
  rw [layers_eq_foldlM, layers_eq_foldlM, hnone]
  rfl

/-- **A file with the text of settings brings these settings back**, where the environment
    sets nothing. -/
theorem load_of_tomlText? {s : Settings} (h : s.InRange) (hcheck : s.check = .ok s)
    {text : String} (htext : s.tomlText? = some text) {files : Files} {path : Path}
    (hbytes : fileBytes files path = .ok (textBytes text)) {environment : Environment}
    (hnone : ∀ v ∈ environment, Toml.variableKey? v.1 = none) :
    load files environment (some path) = .ok s := by
  have hlines : Word.fitsSigned 64 s.manifest.headerLines = true := by
    by_contra hlarge
    rw [tomlText?, if_neg hlarge] at htext
    cases htext
  rw [tomlText?_eq hlines] at htext
  obtain rfl := Option.some_inj.1 htext
  have hread := ofText?_lines h hlines
  rw [textBytes, String.toList_ofList] at hbytes
  rw [load_of_fileLayer (fileLayer_eq_ok hbytes hread), layers_of_forall hnone, layers_entries]
  simp only [bind, Except.bind, ofEntries?_entries h.defaultYear, hcheck]

end Settings

/-! ### The command -/

/-- What stands above the settings that are shown. -/
def Plan.statusHeading (file : Option Path) (emphasis : Emphasis) : String :=
  emphasis.heading "Benchlog" ++ "\nVersion: " ++ version ++ "\n" ++ fileLine file ++ "\n\n" ++
    emphasis.heading "Effective configuration:" ++ "\n"

namespace Invocation

variable {w : World} {environment : Environment} {path : Option Path} {s : Settings}

theorem run_status (h : Settings.load w.tree.read environment path = .ok s)
    (emphasis : Emphasis) (now : Stamp) :
    run environment emphasis now w ⟨path, .status⟩ =
      match s.tomlText? with
      | some text =>
        (.ok (), { w with printed := w.printed ++ Plan.statusHeading path emphasis ++ text })
      | none =>
        (.error .settingTooLarge,
          { w with printed := w.printed ++ Plan.statusHeading path emphasis }) := by
  have hplan : plan w.tree.read environment emphasis now ⟨path, .status⟩ =
      .ok (Plan.status s path emphasis) := by
    rw [plan, h]
    rfl
  rw [run, hplan]
  simp only [Plan.status]
  cases s.tomlText? <;> rfl

/-- **What `status` shows of settings brings them back.**  If the count of header lines is
    below `2 ^ 63`, `status` succeeds, and a file with the text below its heading loads as the
    same settings where no variable sets one, wherever they came from.  From `2 ^ 63` up, which
    rounding a number with a fraction or an exponent can give, it fails with nothing but its
    heading printed. -/
theorem status_restores (h : Settings.load w.tree.read environment path = .ok s)
    (emphasis : Emphasis) (now : Stamp) :
    (s.manifest.headerLines < 2 ^ 63 → ∃ text,
      run environment emphasis now w ⟨path, .status⟩ =
        (.ok (), { w with printed := w.printed ++ Plan.statusHeading path emphasis ++ text }) ∧
      ∀ (files : Files) (saved : Path) (others : Environment),
        Settings.fileBytes files saved = .ok (textBytes text) →
        (∀ v ∈ others, Toml.variableKey? v.1 = none) →
        Settings.load files others (some saved) = .ok s) ∧
    (2 ^ 63 ≤ s.manifest.headerLines →
      run environment emphasis now w ⟨path, .status⟩ =
        (.error .settingTooLarge,
          { w with printed := w.printed ++ Plan.statusHeading path emphasis })) := by
  have hfits : Word.fitsSigned 64 s.manifest.headerLines = true ↔
      s.manifest.headerLines < 2 ^ 63 := by
    have hgreatest : Word.greatestSigned 64 = 2 ^ 63 - 1 := rfl
    have hleast : Word.leastSigned 64 = -2 ^ 63 := rfl
    simp only [Word.fitsSigned, Bool.and_eq_true, decide_eq_true_eq, hgreatest, hleast]
    omega
  rw [run_status h]
  constructor
  · intro hsmall
    have htext := Settings.tomlText?_eq (hfits.2 hsmall)
    refine ⟨_, by rw [htext], fun files saved others hbytes hnone => ?_⟩
    exact Settings.load_of_tomlText? (Settings.inRange_of_load h) (Settings.exists_of_load h).2
      htext hbytes hnone
  · intro hlarge
    rw [Settings.tomlText?, if_neg (by rw [hfits]; omega)]

/-- A marker that no line can hold, a negative zero, an infinite factor and a count that was
    rounded, all from variables, come back from a file. -/
theorem status_restores_extremes :
    let w : World := ⟨⟨[], []⟩, ""⟩
    let environment : Environment := [("BENCHLOG_MANIFEST__MARKER", "\n"),
      ("BENCHLOG_PERCENTILES", "-0,50"), ("BENCHLOG_BANDWIDTH__GBIT_FACTOR", "inf"),
      ("BENCHLOG_MANIFEST__HEADER_LINES", "9e18")]
    let s : Settings := { Settings.standard with
      percentiles := [.zero true, .ofNat 50]
      manifest := ⟨'\n', 9000000000000000000, 2015⟩
      bandwidth := ⟨.infinity false⟩ }
    let now := Date.atClock ⟨2015, 8, 31, by decide⟩ 9 0 0
    Settings.load w.tree.read environment none = .ok s ∧ ∃ text,
      run environment .plain now w ⟨none, .status⟩ =
        (.ok (), { w with printed := w.printed ++ Plan.statusHeading none .plain ++ text }) ∧
      Settings.load (.only ⟨"c.toml"⟩ text) [("HOME", "/")] (some ⟨"c.toml"⟩) = .ok s := by
  intro w environment s now
  have hload : Settings.load w.tree.read environment none = .ok s := by
    decide +kernel
  obtain ⟨text, hrun, hback⟩ := (status_restores hload .plain now).1 (by decide)
  have hbytes := Settings.fileBytes_only (by decide : Path.extension? ⟨"c.toml"⟩ = _) text
  exact ⟨hload, text, hrun, hback _ _ _ hbytes (by decide)⟩

/-- A count of header lines that `status` cannot show: it is read from a number beyond the
    whole numbers of a settings file. -/
theorem status_fails_rounded_count :
    let w : World := ⟨⟨[], []⟩, ""⟩
    let environment : Environment := [("BENCHLOG_MANIFEST__HEADER_LINES", "1e19")]
    let now := Date.atClock ⟨2015, 8, 31, by decide⟩ 9 0 0
    Settings.load w.tree.read environment none = .ok { Settings.standard with
        manifest := { ManifestRule.standard with headerLines := 10000000000000000000 } } ∧
      (run environment .plain now w ⟨none, .status⟩).1 = .error .settingTooLarge := by
  decide +kernel

end Invocation

end Throughput
