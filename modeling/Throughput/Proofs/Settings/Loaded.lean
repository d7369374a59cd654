/-
  Throughput/Proofs/Settings/Loaded.lean
  ======================================
  **What settings that are loaded are like.**  They were read from some entries and pass
  the check (`exists_of_load`), which between them keep every value but the count of header
  lines in its range (`inRange_of_load`).
-/
import Throughput.Proofs.Number.PlainText
import Throughput.Proofs.Report.Ranks
import Throughput.Settings.Load

namespace Throughput.Settings

variable {files : Files} {environment : Environment} {path : Option Path} {s : Settings}

/-! ### The check -/

/-- Settings that are loaded are read from some entries and pass the check. -/
theorem exists_of_load (h : load files environment path = .ok s) :
    (∃ entries, ofEntries? entries = some s) ∧ s.check = .ok s := by
  unfold load at h
  cases path <;>
  · obtain ⟨file, -, h⟩ := exceptBind_eq_ok.1 h
    obtain ⟨entries, -, h⟩ := exceptBind_eq_ok.1 h
    split at h
    next settings hsettings =>
      obtain rfl := (check_eq_ok_iff.1 h).1
      exact ⟨⟨entries, hsettings⟩, h⟩
    next => cases h

theorem isRank_of_load (h : load files environment path = .ok s) :
    ∀ rank ∈ s.percentiles, Quantity.isRank rank = true :=
  (check_eq_ok_iff.1 (exists_of_load h).2).2.1

/-! ### Ranges -/

/-- Every value is in the range that it can be loaded in, the count of header lines apart. -/
structure InRange (s : Settings) : Prop where
  percentiles : ∀ x ∈ s.percentiles, x.isFinite = true
  gbitFactor : s.bandwidth.gbitFactor.isFinite = true ∨ s.bandwidth.gbitFactor = .infinity false
  defaultYear : Word.fitsSigned 32 s.manifest.defaultYear = true

theorem fitsYear_of_orStandard {value : Option Toml} {year : Int}
    (h : Toml.orStandard (fun v => v.toInteger?.filter (Word.fitsSigned 32))
      ManifestRule.standard.defaultYear value = some year) : Word.fitsSigned 32 year = true := by
  cases value with
  | none =>
    obtain rfl := Option.some_inj.1 h
    decide
  | some v => exact (Option.filter_eq_some_iff.1 h).2

theorem fitsYear_of_toManifestRule? {value : Toml} {rule : ManifestRule}
    (h : Toml.toManifestRule? value = some rule) :
    Word.fitsSigned 32 rule.defaultYear = true := by
  simp only [Toml.toManifestRule?, Option.bind_eq_bind, Option.bind_eq_some_iff] at h
  obtain ⟨fields, -, h⟩ := h
  split at h
  next =>
    simp only [Option.bind_eq_some_iff, Option.pure_def, Option.some_inj] at h
    obtain ⟨_, -, _, -, year, hyear, rfl⟩ := h
    exact fitsYear_of_orStandard hyear
  next => cases h

theorem fitsYear_of_ofEntries? {entries : Toml.Entries} {s : Settings}
    (h : ofEntries? entries = some s) : Word.fitsSigned 32 s.manifest.defaultYear = true := by
  simp only [ofEntries?, Option.bind_eq_bind, Option.bind_eq_some_iff, Option.pure_def,
    Option.some_inj] at h
  obtain ⟨_, -, _, -, rule, hrule, _, -, rfl⟩ := h
  cases hvalue : entries.lookup "manifest" with
  | none =>
    rw [hvalue] at hrule
    obtain rfl := Option.some_inj.1 hrule
    exact (by decide : Word.fitsSigned 32 standard.manifest.defaultYear = true)
  | some value =>
    rw [hvalue] at hrule
    exact fitsYear_of_toManifestRule? hrule

/-- A positive number is finite, or the positive infinity. -/
theorem isFinite_or_of_positive {x : Binary64}
    (h : Binary64.numericLt (.zero false) x = true) :
    x.isFinite = true ∨ x = .infinity false := by
  have hzero : (Binary64.zero false).numericKey = 0 := rfl
  simp only [Binary64.numericLt, hzero, Bool.and_eq_true, Bool.not_eq_true', decide_eq_true_eq,
    Binary64.isNaN, decide_eq_false_iff_not] at h
  obtain ⟨⟨-, hnumber⟩, hpositive⟩ := h
  by_cases hfinite : x.ordinal < infinityOrdinal
  · exact .inl (decide_eq_true hfinite)
  · have hnegative : x.negative = false := by
      cases hsign : x.negative with
      | false => rfl
      | true =>
        rw [Binary64.numericKey, if_pos hsign] at hpositive
        omega
    have hordinal : x.ordinal = infinityOrdinal := by omega
    exact .inr (Binary64.eq_of_ordinal hnegative hordinal)

/-- **Settings that are loaded are in range.** -/
theorem inRange_of_load (h : load files environment path = .ok s) : s.InRange := by
  obtain ⟨⟨entries, hentries⟩, hcheck⟩ := exists_of_load h
  obtain ⟨-, hranks, hfactor⟩ := check_eq_ok_iff.1 hcheck
  exact {
    percentiles := fun x hx => Binary64.isFinite_of_isRank (hranks x hx)
    gbitFactor := isFinite_or_of_positive hfactor
    defaultYear := fitsYear_of_ofEntries? hentries }

end Throughput.Settings
