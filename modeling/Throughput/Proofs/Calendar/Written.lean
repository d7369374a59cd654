/-
  Throughput/Proofs/Calendar/Written.lean
  =======================================
  **Times read back.**  The written form of a time, with the letter of universal
  time behind it, is read as that time (`Stamp.ofZonedText?_iso`): dates of every
  year, fractions of each length, and the leap second as second 60.  Only a
  fraction beyond the second at another second than 59 is no time of a clock,
  and is written as the second after it (`exists_iso_eq`); so every written form
  is read as some time.
-/
import Mathlib.Algebra.Ring.Nat
import Throughput.Calendar.Scan
import Throughput.Proofs.Calendar.Days
import Throughput.Proofs.Number.Digits

namespace Throughput

/-! ### Numbers of a fixed width -/

theorem length_digitsOf_le {n width : Nat} (hwidth : 0 < width) (h : n < 10 ^ width) :
    (digitsOf n).length ≤ width :=
  (Nat.length_toDigits_le_iff (by decide) hwidth).2 h

theorem length_padLeft_digitsOf {n width : Nat} (hwidth : 0 < width) (h : n < 10 ^ width) :
    (padLeft width (digitsOf n)).length = width := by
  rw [length_padLeft]
  exact Nat.max_eq_left (length_digitsOf_le hwidth h)

theorem isDigit_padLeft_digitsOf (n width : Nat) :
    ∀ c ∈ padLeft width (digitsOf n), Decimal.isDigit c = true :=
  Decimal.isDigit_padLeft width fun _ => Decimal.isDigit_digitsOf

theorem Stamp.at?_self (s : Stamp) : at? s.date s.hour s.minute s.second s.nano = some s :=
  dif_pos ⟨s.hour_lt, s.minute_lt, s.second_lt, s.nano_lt⟩

namespace Scan

theorem skipBlanks_cons {c : Char} (h : Text.isBlank c = false) (cs : List Char) :
    skipBlanks (c :: cs) = c :: cs := by
  simp [skipBlanks, h]

theorem skipBlanks_digits {ds : List Char} (hne : ds ≠ [])
    (hdigits : ∀ c ∈ ds, Decimal.isDigit c = true) (rest : List Char) :
    skipBlanks (ds ++ rest) = ds ++ rest := by
  obtain ⟨c, cs, rfl⟩ := List.exists_cons_of_ne_nil hne
  exact skipBlanks_cons (Decimal.isBlank_of_isDigit (hdigits c (by simp))) _

/-- As many digits as may be taken are taken whatever follows. -/
theorem number?_append {most : Nat} {ds : List Char} (hlength : ds.length = most)
    (hmost : 0 < most) (hdigits : ∀ c ∈ ds, Decimal.isDigit c = true) (rest : List Char) :
    number? most (ds ++ rest) = some (Decimal.ofDigits ds, rest) := by
  have hne : ds ≠ [] := by
    rintro rfl
    simp at hlength
    omega
  have htake : (ds ++ rest).take most = ds := by rw [← hlength, List.take_left']; rfl
  have hwhile : ds.takeWhile Decimal.isDigit = ds := by
    simpa using takeWhile_append_of_ends hdigits ends_nil
  have hempty : ds.isEmpty = false := by simpa using hne
  simp only [number?, skipBlanks_digits hne hdigits, htake, hwhile, hempty, Bool.false_eq_true,
    if_false, List.drop_left]

theorem number?_padLeft {n width : Nat} (hwidth : 0 < width) (h : n < 10 ^ width)
    (rest : List Char) : number? width (padLeft width (digitsOf n) ++ rest) = some (n, rest) := by
  rw [number?_append (length_padLeft_digitsOf hwidth h) hwidth (isDigit_padLeft_digitsOf n width),
    Decimal.ofDigits_padLeft, Decimal.ofDigits_digitsOf]

theorem number?_twoDigits {n : Nat} (h : n < 100) (rest : List Char) :
    number? 2 (Date.twoDigits n ++ rest) = some (n, rest) :=
  number?_padLeft (by decide) h rest

theorem exactly?_self {c : Char} (h : Text.isBlank c = false) (rest : List Char) :
    exactly? c (skipBlanks (c :: rest)) = some rest := by
  simp [skipBlanks_cons h, exactly?]

/-! ### Dates -/

/-- Behind a sign a year is all digits that follow. -/
theorem signed?_padLeft (sign : Int) (n width : Nat) {rest : List Char}
    (hrest : Ends Decimal.isDigit rest) :
    year?.signed? sign (padLeft width (digitsOf n) ++ rest) = some (sign * n, rest) := by
  have hdigits := isDigit_padLeft_digitsOf n width
  have hempty : (padLeft width (digitsOf n)).isEmpty = false := by
    simp [padLeft, digitsOf_ne_nil]
  simp only [year?.signed?, takeWhile_append_of_ends hdigits hrest, hempty, Bool.false_eq_true,
    if_false, Decimal.ofDigits_padLeft, Decimal.ofDigits_digitsOf, List.drop_left]

/-- A year that begins with a digit has at most four of them. -/
theorem year?_of_isDigit {c : Char} (h : Decimal.isDigit c = true) (cs : List Char) :
    year? (c :: cs) = (number? 4 (c :: cs)).map fun (n, rest) => ((n : Int), rest) := by
  have hminus : c ≠ '-' := by
    rintro rfl
    exact absurd h (by decide)
  have hplus : c ≠ '+' := by
    rintro rfl
    exact absurd h (by decide)
  rw [year?, skipBlanks_cons (Decimal.isBlank_of_isDigit h)]
  split
  next heq => exact absurd (List.cons.inj heq).1 hminus
  next heq => exact absurd (List.cons.inj heq).1 hplus
  next => rfl

theorem year?_yearText (year : Int) {rest : List Char} (hrest : Ends Decimal.isDigit rest) :
    year? (Date.yearText year ++ rest) = some (year, rest) := by
  rw [Date.yearText]
  split
  next hyear =>
    have hlt : year.natAbs < 10 ^ 4 := by omega
    have hdigits := isDigit_padLeft_digitsOf year.natAbs 4
    obtain ⟨c, cs, hc⟩ := List.exists_cons_of_ne_nil
      (show padLeft 4 (digitsOf year.natAbs) ≠ [] by simp [padLeft, digitsOf_ne_nil])
    have hread := number?_padLeft (by decide) hlt rest
    rw [hc, List.cons_append] at hread ⊢
    rw [year?_of_isDigit (hdigits c (by simp [hc])), hread, Option.map_some]
    simp only [Option.some.injEq, Prod.mk.injEq, and_true]
    omega
  next hyear =>
    split
    next hneg =>
      have hvalue : -1 * (year.natAbs : Int) = year := by omega
      rw [List.cons_append, year?, skipBlanks_cons (by decide)]
      simp only [signed?_padLeft _ _ _ hrest, hvalue]
    next hpos =>
      have hvalue : 1 * (year.natAbs : Int) = year := by omega
      rw [List.cons_append, year?, skipBlanks_cons (by decide)]
      simp only [signed?_padLeft _ _ _ hrest, hvalue]

theorem date?_text (d : Date) (rest : List Char) : date? (d.text ++ rest) = some (d, rest) := by
  have hbounds := d.bounds
  have hdash : Text.isBlank '-' = false := by decide
  have htext : d.text ++ rest = Date.yearText d.year ++
      '-' :: (Date.twoDigits d.month ++ '-' :: (Date.twoDigits d.day ++ rest)) := by
    simp [Date.text]
  rw [htext, date?, year?_yearText _ (ends_cons.2 (by decide))]
  simp only [Option.bind_eq_bind, Option.bind_some, exactly?_self hdash,
    number?_twoDigits (show d.month < 100 by omega), number?_twoDigits (show d.day < 100 by omega),
    Date.ofFields?_of_isDate d.isDate]
  rfl

/-! ### Clocks -/

theorem fraction?_point {digits : List Char} (hne : digits ≠ [])
    (hdigits : ∀ c ∈ digits, Decimal.isDigit c = true) {rest : List Char}
    (hrest : Ends Decimal.isDigit rest) (hlength : digits.length ≤ 9) :
    fraction? ('.' :: digits ++ rest) =
      some (Decimal.ofDigits digits * 10 ^ (9 - digits.length), rest) := by
  have hempty : digits.isEmpty = false := by simpa using hne
  simp only [List.cons_append, fraction?, takeWhile_append_of_ends hdigits hrest, hempty,
    Bool.false_eq_true, if_false, List.take_of_length_le hlength, List.drop_left]
  rfl

/-- A fraction of few digits leaves out nothing but zeros. -/
theorem fraction?_padLeft {n width : Nat} (hwidth : 0 < width) (hwidth' : width ≤ 9)
    (h : n < 10 ^ width) {rest : List Char} (hrest : Ends Decimal.isDigit rest) :
    fraction? ('.' :: padLeft width (digitsOf n) ++ rest) =
      some (n * 10 ^ (9 - width), rest) := by
  have hlength := length_padLeft_digitsOf hwidth h
  rw [fraction?_point (by simp [padLeft, digitsOf_ne_nil]) (isDigit_padLeft_digitsOf n width) hrest
    (by omega), hlength, Decimal.ofDigits_padLeft, Decimal.ofDigits_digitsOf]

theorem fraction?_fractionText (s : Stamp) {rest : List Char} (hrest : Ends Decimal.isDigit rest)
    (hpoint : rest.head? ≠ some '.') :
    fraction? (s.fractionText ++ rest) = some (s.nano % nanosPerSecond, rest) := by
  have hlt : s.nano % nanosPerSecond < 1000000000 := Nat.mod_lt _ (by decide)
  rw [Stamp.fractionText]
  generalize s.nano % nanosPerSecond = nano at hlt
  split_ifs with hzero hmilli hmicro
  · cases rest with
    | nil => rw [hzero]; rfl
    | cons c rest =>
      have hc : c ≠ '.' := fun hc => hpoint (by rw [hc]; rfl)
      rw [hzero, List.nil_append, fraction?]
      simpa using hc
  · have hvalue : nano / 1000000 * 10 ^ (9 - 3) = nano := by omega
    rw [fraction?_padLeft (by decide) (by decide) (by omega) hrest, hvalue]
  · have hvalue : nano / 1000 * 10 ^ (9 - 6) = nano := by omega
    rw [fraction?_padLeft (by decide) (by decide) (by omega) hrest, hvalue]
  · have hvalue : nano * 10 ^ (9 - 9) = nano := by omega
    rw [fraction?_padLeft (by decide) (by decide) (by omega) hrest, hvalue]

/-- The second of a clock with its fraction: the leap second counts as second 60. -/
theorem clock?_clockText (s : Stamp) (h : s.nano < nanosPerSecond ∨ s.second = 59)
    {rest : List Char} (hrest : Ends Decimal.isDigit rest) (hpoint : rest.head? ≠ some '.') :
    clock? s.date (s.clockText ++ s.fractionText ++ rest) = some (s, skipBlanks rest) := by
  have hhour := s.hour_lt
  have hminute := s.minute_lt
  have hsecond := s.second_lt
  have hnano := s.nano_lt
  have hcolon : Text.isBlank ':' = false := by decide
  have htext : s.clockText ++ s.fractionText ++ rest = Date.twoDigits s.hour ++
      ':' :: (Date.twoDigits s.minute ++
        ':' :: (Date.twoDigits (s.second + s.nano / nanosPerSecond) ++
          (s.fractionText ++ rest))) := by
    simp [Stamp.clockText]
  have hlt : s.second + s.nano / nanosPerSecond < 100 := by
    simp only [nanosPerSecond]
    omega
  rw [htext, clock?]
  simp only [Option.bind_eq_bind, Option.bind_some, exactly?_self hcolon,
    number?_twoDigits (show s.hour < 100 by omega),
    number?_twoDigits (show s.minute < 100 by omega), number?_twoDigits hlt,
    fraction?_fractionText s hrest hpoint]
  rcases Nat.lt_or_ge s.nano nanosPerSecond with hplain | hleap
  · have hquotient : s.nano / nanosPerSecond = 0 := Nat.div_eq_of_lt hplain
    rw [hquotient, Nat.mod_eq_of_lt hplain, Nat.add_zero, if_neg (by omega), s.at?_self]
    rfl
  · -- a fraction beyond the second stands at second 59, which makes it second 60
    have hlast : s.second = 59 := h.resolve_left (Nat.not_lt.2 hleap)
    have hquotient : s.second + s.nano / nanosPerSecond = 60 := by
      simp only [nanosPerSecond] at hleap ⊢
      omega
    have hnano : s.nano % nanosPerSecond + nanosPerSecond = s.nano := by
      simp only [nanosPerSecond] at hleap ⊢
      omega
    rw [if_pos hquotient, hnano, ← hlast, s.at?_self]
    rfl

end Scan

namespace Stamp

theorem shiftBack?_zero (s : Stamp) : s.shiftBack? 0 = some s := by
  have hhour := s.hour_lt
  have hminute := s.minute_lt
  have hsecond := s.second_lt
  have hmoved : (s.secondOfDay : Int) - 0 = s.secondOfDay := by omega
  have hday : s.secondOfDay < 86400 := by
    simp only [secondOfDay]
    omega
  have hwrap : ((s.secondOfDay : Int) % 86400).toNat = s.secondOfDay := by omega
  have hfields : s.secondOfDay / 3600 = s.hour ∧ s.secondOfDay / 60 % 60 = s.minute ∧
      s.secondOfDay % 60 = s.second := by
    simp only [secondOfDay]
    omega
  rw [shiftBack?, hmoved]
  simp only [if_neg (show ¬(s.secondOfDay : Int) < 0 by omega),
    if_neg (show ¬(86400 : Int) ≤ s.secondOfDay by omega), Option.bind_eq_bind, Option.bind_some,
    hwrap, hfields, at?_self]

/-- **A time is read from its written form.** -/
theorem ofZonedText?_iso {s : Stamp} (h : s.nano < nanosPerSecond ∨ s.second = 59) :
    ofZonedText? (s.iso ++ ['Z']) = some s := by
  have htext : s.iso ++ ['Z'] =
      s.date.text ++ 'T' :: (s.clockText ++ s.fractionText ++ ['Z']) := by
    simp [iso]
  rw [htext, ofZonedText?, Scan.date?_text]
  simp only [Option.bind_eq_bind, Option.bind_some, true_or, if_true]
  rw [Scan.clock?_clockText s h (ends_cons.2 (by decide)) (by decide)]
  exact shiftBack?_zero s

/-- A time is read from its written form without the letter of universal time. -/
theorem ofText?_iso {s : Stamp} (h : s.nano < nanosPerSecond ∨ s.second = 59) :
    ofText? s.iso = some s := by
  have hletter : Text.isBlank 'T' = false := by decide
  have htext : s.iso = s.date.text ++ 'T' :: (s.clockText ++ s.fractionText ++ []) := by
    simp [iso]
  rw [htext, ofText?, Scan.date?_text]
  simp only [Option.bind_eq_bind, Option.bind_some, Scan.exactly?_self hletter]
  rw [Scan.clock?_clockText s h ends_nil (by decide)]
  rfl

/-- Every written form is that of a time of a clock. -/
theorem exists_iso_eq (s : Stamp) :
    ∃ t : Stamp, t.iso = s.iso ∧ (t.nano < nanosPerSecond ∨ t.second = 59) := by
  have hsecond := s.second_lt
  have hnano := s.nano_lt
  by_cases hclock : s.nano < nanosPerSecond ∨ s.second = 59
  · exact ⟨s, rfl, hclock⟩
  · -- the whole second of the fraction is written with the seconds
    have hge : 1000000000 ≤ s.nano := Nat.not_lt.1 fun hlt => hclock (.inl hlt)
    have hnext : s.second + 1 < 60 := by
      have : s.second ≠ 59 := fun heq => hclock (.inr heq)
      omega
    let t : Stamp := { s with
      second := s.second + 1
      nano := s.nano - 1000000000
      second_lt := hnext
      nano_lt := by omega }
    have hclock : t.clockText = s.clockText := by
      have hseconds : t.second + t.nano / nanosPerSecond = s.second + s.nano / nanosPerSecond := by
        change s.second + 1 + (s.nano - 1000000000) / 1000000000 = s.second + s.nano / 1000000000
        omega
      rw [clockText, clockText, hseconds]
    have hfraction : t.fractionText = s.fractionText := by
      have hnanos : t.nano % nanosPerSecond = s.nano % nanosPerSecond := by
        change (s.nano - 1000000000) % 1000000000 = s.nano % 1000000000
        omega
      rw [fractionText, fractionText, hnanos]
    refine ⟨t, ?_, .inl (show s.nano - 1000000000 < 1000000000 by omega)⟩
    rw [iso, iso, hclock, hfraction]

/-- **Every written form of a time is that of some time.** -/
theorem isSome_ofZonedText?_iso (s : Stamp) : (ofZonedText? (s.iso ++ ['Z'])).isSome = true := by
  obtain ⟨t, hiso, ht⟩ := s.exists_iso_eq
  rw [← hiso, ofZonedText?_iso ht]
  rfl

theorem isSome_ofText?_iso (s : Stamp) : (ofText? s.iso).isSome = true := by
  obtain ⟨t, hiso, ht⟩ := s.exists_iso_eq
  rw [← hiso, ofText?_iso ht]
  rfl

end Stamp

end Throughput
