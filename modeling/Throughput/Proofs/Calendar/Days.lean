/-
  Throughput/Proofs/Calendar/Days.lean
  ====================================
  **One day after another.**  No date lies between a date and the day after it,
  and only the last date in use has no day after it (`exists_nextDay?_of_lt`).
  So `daysBetween` lists all dates between two others, in order
  (`mem_daysBetween`, `pairwise_daysBetween`), and an ascending list with
  nothing left out goes from each date to the next day (`isChain_nextDay?`).
-/
import Mathlib.Data.List.Chain
import Throughput.Calendar.Date

namespace Throughput.Date

theorem lt_iff_rank_lt {a b : Date} : a < b ↔ a.rank < b.rank := Iff.rfl

theorem le_iff_rank_le {a b : Date} : a ≤ b ↔ a.rank ≤ b.rank := Iff.rfl

theorem le_or_lt (a b : Date) : a ≤ b ∨ b < a := by
  rw [le_iff_rank_le, lt_iff_rank_lt]
  omega

theorem eq_or_lt_of_le {a b : Date} (h : a ≤ b) : a = b ∨ a < b := by
  rw [le_iff_rank_le] at h
  rcases Int.lt_or_eq_of_le h with h | h
  · exact .inr h
  · exact .inl (rank_injective h)

/-! ### The following day -/

theorem ofFields?_of_isDate {year : Int} {month day : Nat} (h : IsDate year month day) :
    ofFields? year month day = some ⟨year, month, day, h⟩ := dif_pos h

theorem one_le_daysInMonth {year : Int} {month : Nat} (h : 1 ≤ month) (h' : month ≤ 12) :
    1 ≤ daysInMonth year month := by
  unfold daysInMonth
  grind

/-- A date with a later one has a following day, and none lies in between. -/
theorem exists_nextDay?_of_lt {d e : Date} (h : d < e) :
    ∃ next, d.nextDay? = some next ∧ next ≤ e := by
  obtain ⟨hyear, hyear', hmonth, hmonth', hday, hday'⟩ := d.isDate
  obtain ⟨heyear, heyear', hemonth, hemonth', heday, heday'⟩ := e.isDate
  simp only [lt_iff_rank_lt, rank] at h
  have hdays : e.day ≤ 31 := e.bounds.2.2.2
  have hdays' : d.day ≤ 31 := d.bounds.2.2.2
  unfold nextDay?
  by_cases hmore : d.day < daysInMonth d.year d.month
  · have hdate : IsDate d.year d.month (d.day + 1) :=
      ⟨hyear, hyear', hmonth, hmonth', by omega, hmore⟩
    rw [if_pos hmore, ofFields?_of_isDate hdate]
    refine ⟨_, rfl, ?_⟩
    simp only [le_iff_rank_le, rank]
    omega
  · -- the month is over, so the later date is in another one
    have hother : ¬ (e.year = d.year ∧ e.month = d.month) := by
      rintro ⟨hy, hm⟩
      rw [hy, hm] at heday' h
      omega
    rw [if_neg hmore]
    by_cases hrest : d.month < 12
    · have hdate : IsDate d.year (d.month + 1) 1 :=
        ⟨hyear, hyear', by omega, by omega, Nat.le_refl 1,
          one_le_daysInMonth (by omega) (by omega)⟩
      rw [if_pos hrest, ofFields?_of_isDate hdate]
      refine ⟨_, rfl, ?_⟩
      simp only [le_iff_rank_le, rank]
      omega
    · have hlater : d.year < e.year := by omega
      have hdate : IsDate (d.year + 1) 1 1 :=
        ⟨by omega, by omega, Nat.le_refl 1, by decide, Nat.le_refl 1,
          one_le_daysInMonth (Nat.le_refl 1) (by decide)⟩
      rw [if_neg hrest, ofFields?_of_isDate hdate]
      refine ⟨_, rfl, ?_⟩
      simp only [le_iff_rank_le, rank]
      omega

/-! ### The days between two dates -/

theorem daysBetween_of_none {first : Date} (h : first.nextDay? = none) (last : Date) :
    daysBetween first last = [] := by
  rw [daysBetween]
  split
  next => rfl
  next next hnext => rw [h] at hnext; cases hnext

theorem daysBetween_of_some {first next : Date} (h : first.nextDay? = some next) (last : Date) :
    daysBetween first last = if next < last then next :: daysBetween next last else [] := by
  rw [daysBetween]
  split
  next hnone => rw [h] at hnone; cases hnone
  next next' hnext =>
    obtain rfl : next = next' := Option.some_inj.1 (h.symm.trans hnext)
    rfl

theorem lt_of_nextDay? {d next : Date} (h : d.nextDay? = some next) : d < next :=
  rank_lt_of_nextDay? h

/-- Nothing lies between a date and the following day. -/
theorem lt_iff_eq_or_lt_of_nextDay? {first next d : Date} (h : first.nextDay? = some next) :
    first < d ↔ d = next ∨ next < d := by
  constructor
  · intro hfirst
    obtain ⟨next', hnext', hle⟩ := exists_nextDay?_of_lt hfirst
    obtain rfl : next = next' := Option.some_inj.1 (h.symm.trans hnext')
    exact (eq_or_lt_of_le hle).imp_left Eq.symm
  · rintro (rfl | hlt)
    · exact lt_of_nextDay? h
    · exact Int.lt_trans (lt_of_nextDay? h) hlt

theorem mem_daysBetween {first last d : Date} :
    d ∈ daysBetween first last ↔ first < d ∧ d < last := by
  induction first using daysBetween.induct last with
  | case1 first hnone =>
    rw [daysBetween_of_none hnone]
    simp only [List.not_mem_nil, false_iff, not_and]
    intro hfirst
    obtain ⟨next, hnext, -⟩ := exists_nextDay?_of_lt hfirst
    rw [hnone] at hnext
    cases hnext
  | case2 first next hnext hlt ih =>
    rw [daysBetween_of_some hnext, if_pos hlt, List.mem_cons, ih, lt_iff_eq_or_lt_of_nextDay? hnext]
    constructor
    · rintro (rfl | ⟨hd, hd'⟩)
      · exact ⟨.inl rfl, hlt⟩
      · exact ⟨.inr hd, hd'⟩
    · rintro ⟨rfl | hd, hd'⟩
      · exact .inl rfl
      · exact .inr ⟨hd, hd'⟩
  | case3 first next hnext hnot =>
    rw [daysBetween_of_some hnext, if_neg hnot, lt_iff_eq_or_lt_of_nextDay? hnext]
    simp only [List.not_mem_nil, false_iff, not_and]
    rintro (rfl | hd) hd'
    · exact hnot hd'
    · exact hnot (Int.lt_trans hd hd')

theorem pairwise_daysBetween (first last : Date) :
    (daysBetween first last).Pairwise (· < ·) := by
  induction first using daysBetween.induct last with
  | case1 first hnone =>
    rw [daysBetween_of_none hnone]
    exact .nil
  | case2 first next hnext hlt ih =>
    rw [daysBetween_of_some hnext, if_pos hlt]
    exact .cons (fun d hd => (mem_daysBetween.1 hd).1) ih
  | case3 first next hnext hnot =>
    rw [daysBetween_of_some hnext, if_neg hnot]
    exact .nil

/-! ### Lists without missing days -/

/-- An ascending list that holds every date between two of its own goes from each
    date to the following day. -/
theorem isChain_nextDay? {days : List Date} (hascending : days.Pairwise (· < ·))
    (hbetween : ∀ a ∈ days, ∀ b ∈ days, ∀ d, a < d → d < b → d ∈ days) :
    days.IsChain fun a b => a.nextDay? = some b := by
  induction days with
  | nil => exact .nil
  | cons a rest ih =>
    cases rest with
    | nil => exact .singleton a
    | cons b rest =>
      obtain ⟨hfirst, hrest⟩ := List.pairwise_cons.1 hascending
      obtain ⟨hsecond, -⟩ := List.pairwise_cons.1 hrest
      refine .cons_cons ?_ (ih hrest fun c hc e he d hcd hde => ?_)
      · -- the following day is not below the second date, which is the least of the rest
        have hab : a < b := hfirst b List.mem_cons_self
        obtain ⟨next, hnext, hle⟩ := exists_nextDay?_of_lt hab
        rcases eq_or_lt_of_le hle with rfl | hlt
        · exact hnext
        · have hmem := hbetween a List.mem_cons_self b (List.mem_cons_of_mem _ List.mem_cons_self)
            next (lt_of_nextDay? hnext) hlt
          rcases List.mem_cons.1 hmem with rfl | hmem
          · exact absurd (lt_of_nextDay? hnext) (Int.lt_irrefl _)
          rcases List.mem_cons.1 hmem with rfl | hmem
          · exact hnext
          · exact absurd (Int.lt_trans hlt (hsecond next hmem)) (Int.lt_irrefl _)
      · have hmem := hbetween c (List.mem_cons_of_mem _ hc) e (List.mem_cons_of_mem _ he) d hcd hde
        rcases List.mem_cons.1 hmem with rfl | hmem
        · exact absurd (Int.lt_trans hcd (hfirst c hc)) (Int.lt_irrefl _)
        · exact hmem

end Throughput.Date
