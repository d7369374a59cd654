/-
  Throughput/Proofs/Json/Records.lean
  ===================================
  **Data read back from values.**  Each way of building a value has its way of
  reading it, and the two fit together: texts, whole numbers of 64 bits, lists,
  data that may be missing, and records, whose values stand under names that
  differ (`slots?_record`).  What is built has a text as well.
-/
import Throughput.Json.Decoding
import Throughput.Proofs.Json.Texts

namespace Throughput.Json

/-! ### Texts and numbers -/

@[simp] theorem text?_ofString (text : String) : text? (ofString text) = some text := rfl

theorem legible_ofString (text : String) : Legible (ofString text) := .string text

theorem number_ofNat (n : Nat) : ofNat n = .number (Numeral.ofNat n).text := by
  rw [Numeral.text_ofNat, ofNat]

theorem nat?_ofNat_eq (n : Nat) : nat? (ofNat n) = if Word.fits 64 n then some n else none := by
  have hplain : (Numeral.ofNat n).whole.IsPlain := DigitRun.isPlain_ofNat n
  have hdigits : Decimal.ofDigits (DigitRun.ofNat n).digits = n := Decimal.ofDigits_digitsOf n
  rw [number_ofNat, nat?, Numeral.numberParts?_eq_some hplain]
  simp only [Numeral.parts, Numeral.ofNat, Option.map_none, hdigits]

theorem nat?_ofNat {n : Nat} (h : Word.fits 64 n = true) : nat? (ofNat n) = some n := by
  rw [nat?_ofNat_eq, if_pos h]

theorem isSome_nat?_ofNat (n : Nat) : (nat? (ofNat n)).isSome = Word.fits 64 n := by
  rw [nat?_ofNat_eq]
  cases Word.fits 64 n <;> rfl

theorem legible_ofNat (n : Nat) : Legible (ofNat n) := by
  rw [number_ofNat]
  exact .number (DigitRun.isPlain_ofNat n)

theorem legible_ofBinary64 (x : Binary64) : Legible (ofBinary64 x) := by
  rw [ofBinary64]
  split
  case isTrue h =>
    obtain ⟨n, hn, hplain, -⟩ := Binary64.exists_numeral_scientific h
    rw [hn]
    exact .number hplain
  case isFalse => exact .null

/-! ### Lists and data that may be missing -/

theorem mapM_eq_some {α β : Type} {f : α → Option β} {g : α → β} {xs : List α}
    (h : ∀ x ∈ xs, f x = some (g x)) : xs.mapM f = some (xs.map g) := by
  induction xs with
  | nil => rfl
  | cons x xs ih =>
    have hx := h x (by simp)
    have hxs := ih fun y hy => h y (by simp [hy])
    simp [List.mapM_cons, hx, hxs]

theorem list?_ofList {α : Type} {item? : Json → Option α} {f : α → Json} {xs : List α}
    (h : ∀ x ∈ xs, item? (f x) = some x) : list? item? (ofList f xs) = some xs := by
  have hmap : xs.mapM (item? ∘ f) = some (xs.map id) := mapM_eq_some h
  rw [ofList, list?, List.mapM_map, hmap, List.map_id]

theorem isSome_mapM {α β : Type} {f : α → Option β} {xs : List α} :
    (xs.mapM f).isSome = true ↔ ∀ x ∈ xs, (f x).isSome = true := by
  induction xs with
  | nil => simp
  | cons x xs ih =>
    rw [List.mapM_cons, List.forall_mem_cons, ← ih]
    cases f x <;> cases xs.mapM f <;> simp

/-- A list is read exactly if each of its items is. -/
theorem isSome_list?_ofList {α : Type} {item? : Json → Option α} {f : α → Json} {xs : List α} :
    (list? item? (ofList f xs)).isSome = true ↔ ∀ x ∈ xs, (item? (f x)).isSome = true := by
  rw [ofList, list?, List.mapM_map, isSome_mapM]
  rfl

theorem legible_ofList {α : Type} {f : α → Json} {xs : List α} (h : ∀ x ∈ xs, Legible (f x)) :
    Legible (ofList f xs) := by
  refine .array fun item hitem => ?_
  obtain ⟨x, hx, rfl⟩ := List.mem_map.1 hitem
  exact h x hx

/-- Data is told from its absence if it is never written as `null`. -/
theorem option?_ofOption {α : Type} {value? : Json → Option α} {f : α → Json} {x : Option α}
    (hnull : ∀ x, f x ≠ null) (h : ∀ y ∈ x, value? (f y) = some y) :
    option? value? (ofOption f x) = some x := by
  cases x with
  | none => rfl
  | some x =>
    have hx := h x rfl
    rw [ofOption, option?, hx, Option.map_some]
    exact hnull x

theorem isSome_option?_ofOption {α : Type} {value? : Json → Option α} {f : α → Json}
    {x : Option α} (hnull : ∀ x, f x ≠ null) :
    (option? value? (ofOption f x)).isSome = true ↔ ∀ y ∈ x, (value? (f y)).isSome = true := by
  cases x with
  | none => simp [ofOption, option?]
  | some x =>
    rw [ofOption, option?, Option.isSome_map]
    · simp
    · exact hnull x

theorem legible_ofOption {α : Type} {f : α → Json} {x : Option α} (h : ∀ y ∈ x, Legible (f y)) :
    Legible (ofOption f x) := by
  cases x with
  | none => exact .null
  | some x => exact h x rfl

/-! ### Records -/

variable {entries : List (String × Json)}

theorem record_eq : record entries = object (entries.map fun e => (some e.1, e.2)) := rfl

theorem record_ne_null : record entries ≠ null := by
  intro h
  cases h

theorem legible_record (h : ∀ e ∈ entries, Legible e.2) : Legible (record entries) := by
  refine .object (fun e he => ?_) fun e he => ?_
  · obtain ⟨e, -, rfl⟩ := List.mem_map.1 he
    rfl
  · obtain ⟨first, hfirst, rfl⟩ := List.mem_map.1 he
    exact h first hfirst

/-- Under each of different names stands its own value. -/
theorem filter_eq_singleton (h : (entries.map (·.1)).Nodup) {e : String × Json}
    (he : e ∈ entries) : entries.filter (fun other => other.1 = e.1) = [e] := by
  induction entries with
  | nil => cases he
  | cons first rest ih =>
    rw [List.map_cons, List.nodup_cons] at h
    rcases List.mem_cons.1 he with rfl | he
    · have hrest : rest.filter (fun other => other.1 = e.1) = [] := by
        rw [List.filter_eq_nil_iff]
        intro other hother hname
        exact h.1 (List.mem_map.2 ⟨other, hother, by simpa using hname⟩)
      rw [List.filter_cons_of_pos (by simp), hrest]
    · have hfirst : first.1 ≠ e.1 := fun hname => h.1 (List.mem_map.2 ⟨e, he, hname.symm⟩)
      rw [List.filter_cons_of_neg (by simp [hfirst]), ih h.2 he]

theorem slot?_of_mem (h : (entries.map (·.1)).Nodup) {e : String × Json} (he : e ∈ entries) :
    slot? e.1 (entries.map fun e => (some e.1, e.2)) = some (some e.2) := by
  have hfilter : (entries.map fun e => (some e.1, e.2)).filter (fun other => other.1 = some e.1) =
      [(some e.1, e.2)] := by
    rw [List.filter_map]
    simpa [Function.comp_def] using filter_eq_singleton h he
  rw [slot?, hfilter]

theorem slot?_of_notMem {name : String} (h : name ∉ entries.map (·.1)) :
    slot? name (entries.map fun e => (some e.1, e.2)) = some none := by
  have hfilter : (entries.map fun e => (some e.1, e.2)).filter (fun other => other.1 = some name) =
      [] := by
    rw [List.filter_eq_nil_iff]
    intro other hother
    obtain ⟨e, he, rfl⟩ := List.mem_map.1 hother
    have hname : e.1 ≠ name := fun heq => h (List.mem_map.2 ⟨e, he, heq⟩)
    simpa using hname
  rw [slot?, hfilter]

/-- The values of a record are found under their names, and nothing under further
    names. -/
theorem slots?_record_append {names missing : List String} (hnames : entries.map (·.1) = names)
    (h : (names ++ missing).Nodup) (least : Nat) :
    slots? (names ++ missing) least (record entries) =
      some (entries.map (some ·.2) ++ missing.map fun _ => none) := by
  subst hnames
  obtain ⟨hnodup, -, hdisjoint⟩ := List.nodup_append.1 h
  have hkeys : (entries.map fun e => (some e.1, e.2)).all (fun e => e.1.isSome) = true := by
    simp
  have hfound : (entries.map (·.1)).mapM (slot? · (entries.map fun e => (some e.1, e.2))) =
      some (entries.map (some ·.2)) := by
    rw [List.mapM_map]
    exact mapM_eq_some fun e he => slot?_of_mem hnodup he
  have hmissing : missing.mapM (slot? · (entries.map fun e => (some e.1, e.2))) =
      some (missing.map fun _ => none) :=
    mapM_eq_some fun name hname => slot?_of_notMem fun hmem => hdisjoint name hmem name hname rfl
  rw [record_eq, slots?, if_pos hkeys, List.mapM_append, hfound, hmissing]
  rfl

/-- **The values of a record are found under their names.** -/
theorem slots?_record {names : List String} (hnames : entries.map (·.1) = names)
    (h : names.Nodup) (least : Nat) :
    slots? names least (record entries) = some (entries.map (some ·.2)) := by
  have hnodup : (names ++ []).Nodup := by rwa [List.append_nil]
  have happend := slots?_record_append hnames hnodup least
  simpa only [List.append_nil, List.map_nil] using happend

end Throughput.Json
