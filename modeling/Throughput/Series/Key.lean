/-
  Throughput/Series/Key.lean
  ==========================
  **Grouping keys.**  Samples are grouped by a key from a total order: nothing,
  a label, a date or a point in time.  The tag of a series is its metric with
  its key; tags are ordered by metric first.
-/
import Throughput.Calendar.Stamp
import Throughput.Json.Value
import Throughput.Series.Metric

namespace Throughput

/-- A type of grouping keys: a total order whose keys have a written form. -/
class SeriesKey (κ : Type) where
  le : κ → κ → Bool
  le_total : ∀ a b, le a b || le b a
  le_trans : ∀ a b c, le a b → le b c → le a c
  le_antisymm : ∀ a b, le a b → le b a → a = b
  /-- The key for a reader; empty if there is nothing to say. -/
  label : κ → String
  json : κ → Json

instance : SeriesKey Unit where
  le _ _ := true
  le_total _ _ := rfl
  le_trans _ _ _ _ _ := rfl
  le_antisymm _ _ _ _ := rfl
  label _ := ""
  json _ := .null

instance : SeriesKey String where
  le a b := decide (a ≤ b)
  le_total a b := by simpa using String.le_total a b
  le_trans a b c hab hbc := by
    simp only [decide_eq_true_eq] at *
    exact String.le_trans hab hbc
  le_antisymm a b hab hba := by
    simp only [decide_eq_true_eq] at *
    exact String.le_antisymm hab hba
  label := id
  json := Json.ofString

instance : SeriesKey Date where
  le a b := decide (a.rank ≤ b.rank)
  le_total a b := by simpa using Int.le_total a.rank b.rank
  le_trans a b c hab hbc := by
    simp only [decide_eq_true_eq] at *
    exact Int.le_trans hab hbc
  le_antisymm a b hab hba := by
    simp only [decide_eq_true_eq] at *
    exact Date.rank_injective (Int.le_antisymm hab hba)
  label d := String.ofList d.text
  json d := .ofString (String.ofList d.text)

instance : SeriesKey Stamp where
  le a b := decide (a.rank ≤ b.rank)
  le_total a b := by simpa using Int.le_total a.rank b.rank
  le_trans a b c hab hbc := by
    simp only [decide_eq_true_eq] at *
    exact Int.le_trans hab hbc
  le_antisymm a b hab hba := by
    simp only [decide_eq_true_eq] at *
    exact Stamp.rank_injective (Int.le_antisymm hab hba)
  label := Stamp.label
  json s := .ofString (String.ofList s.iso)

/-- What tells series apart. -/
structure Tag (κ : Type) where
  metric : Metric
  key : κ
  deriving DecidableEq

namespace Tag

variable {κ : Type} [SeriesKey κ]

/-- Whether a series is reported before another one. -/
def before (a b : Tag κ) : Bool :=
  decide (a.metric.place < b.metric.place) ||
    (decide (a.metric = b.metric) && !SeriesKey.le b.key a.key)

theorem before_irrefl (a : Tag κ) : a.before a = false := by
  have h := SeriesKey.le_total a.key a.key
  simp only [Bool.or_self] at h
  simp [before, h]

theorem before_trans {a b c : Tag κ} (hab : a.before b = true) (hbc : b.before c = true) :
    a.before c = true := by
  simp only [before, Bool.or_eq_true, Bool.and_eq_true, decide_eq_true_eq,
    Bool.not_eq_true'] at *
  rcases hab with hab | ⟨hab, kab⟩ <;> rcases hbc with hbc | ⟨hbc, kbc⟩
  · exact .inl (Nat.lt_trans hab hbc)
  · exact .inl (hbc ▸ hab)
  · exact .inl (hab ▸ hbc)
  · refine .inr ⟨hab.trans hbc, ?_⟩
    cases hca : SeriesKey.le c.key a.key with
    | false => rfl
    | true =>
      have hab' : SeriesKey.le a.key b.key = true := by
        have := SeriesKey.le_total a.key b.key
        simpa [kab] using this
      rw [SeriesKey.le_trans _ _ _ hca hab'] at kbc
      cases kbc

theorem eq_of_not_before {a b : Tag κ} (hab : a.before b = false) (hba : b.before a = false) :
    a = b := by
  simp only [before, Bool.or_eq_false_iff, decide_eq_false_iff_not] at hab hba
  have hm : a.metric = b.metric := Metric.place_injective (by omega)
  have h₁ := hab.2
  have h₂ := hba.2
  simp only [hm, decide_true, Bool.true_and, Bool.not_eq_false'] at h₁ h₂
  obtain ⟨ma, ka⟩ := a
  obtain ⟨mb, kb⟩ := b
  cases hm
  rw [SeriesKey.le_antisymm ka kb h₂ h₁]

end Tag

end Throughput
