/-
  Throughput/Proofs/Json/Texts.lean
  =================================
  **Reading what was written.**  The text of a value over several lines is read
  as that value (`ofText?_prettyText`).  The reader never looks ahead of a value
  further than to the next character, so the proof is about a value in front of
  any text that does not go on with a character of a number (`ReadsBack`), by
  induction on the value; lists and objects have a loop of their own each.
-/
import Throughput.Proofs.Json.Numerals
import Throughput.Proofs.Json.Strings

namespace Throughput.Json

/-! ### Values that have a text -/

/-- Values whose text stands for them: every string and every name has a text, and
    every number is a numeral. -/
inductive Legible : Json → Prop where
  | null : Legible .null
  | boolean (b : Bool) : Legible (.boolean b)
  | number {n : Numeral} (h : n.whole.IsPlain) : Legible (.number n.text)
  | string (text : String) : Legible (.string (some text))
  | array {items : List Json} (h : ∀ item ∈ items, Legible item) : Legible (.array items)
  | object {entries : List (Option String × Json)} (hnames : ∀ e ∈ entries, e.1.isSome)
      (h : ∀ e ∈ entries, Legible e.2) : Legible (.object entries)

/-! ### Blanks -/

theorem skipBlanks_append {blanks : List Char} (h : ∀ c ∈ blanks, isBlank c = true)
    (cs : List Char) : skipBlanks (blanks ++ cs) = skipBlanks cs :=
  List.dropWhile_append_of_pos h

theorem skipBlanks_cons {c : Char} (h : isBlank c = false) (cs : List Char) :
    skipBlanks (c :: cs) = c :: cs := by
  simp [skipBlanks, h]

theorem isBlank_lineAt (depth : Nat) : ∀ c ∈ lineAt depth, isBlank c = true := by
  intro c hc
  rcases List.mem_cons.1 hc with rfl | hc
  · decide
  · rw [List.eq_of_mem_replicate hc]
    decide

theorem skipBlanks_lineAt (depth : Nat) (cs : List Char) :
    skipBlanks (lineAt depth ++ cs) = skipBlanks cs :=
  skipBlanks_append (isBlank_lineAt depth) cs

theorem symbol?_lineAt (c : Char) (depth : Nat) (cs : List Char) :
    symbol? c (lineAt depth ++ cs) = symbol? c cs := by
  simp only [symbol?, skipBlanks_lineAt]

theorem symbol?_self {c : Char} (h : isBlank c = false) (cs : List Char) :
    symbol? c (c :: cs) = some cs := by
  simp [symbol?, skipBlanks_cons h]

theorem symbol?_of_ne {c d : Char} (h : isBlank d = false) (hne : d ≠ c) (cs : List Char) :
    symbol? c (d :: cs) = none := by
  simp [symbol?, skipBlanks_cons h, hne]

/-- What a numeral starts with is no blank. -/
theorem isBlank_of_bounds {c : Char} (h : '-'.toNat ≤ c.toNat ∧ c.toNat ≤ '9'.toNat) :
    isBlank c = false := by
  have hne : ∀ d : Char, d.toNat < '-'.toNat → (c == d) = false := by
    intro d hd
    rw [beq_eq_false_iff_ne]
    rintro rfl
    omega
  simp only [isBlank, hne _ (by decide : ' '.toNat < '-'.toNat),
    hne _ (by decide : '\n'.toNat < '-'.toNat), hne _ (by decide : '\t'.toNat < '-'.toNat),
    hne _ (by decide : '\r'.toNat < '-'.toNat), Bool.or_false]

theorem value?_append {blanks : List Char} (h : ∀ c ∈ blanks, isBlank c = true) (fuel : Nat)
    (cs : List Char) : value? fuel (blanks ++ cs) = value? fuel cs := by
  cases fuel with
  | zero => rfl
  | succ fuel => rw [value?.eq_2, value?.eq_2, skipBlanks_append h]

theorem ends_lineAt (depth : Nat) (cs : List Char) : Ends isNumberChar (lineAt depth ++ cs) :=
  ends_cons.2 (by decide)

/-! ### Reading back -/

/-- A value is read from its text at any depth, in front of any text that does not
    prolong it, with fuel for each of its characters. -/
def ReadsBack (v : Json) : Prop :=
  ∀ (depth fuel : Nat) (rest : List Char), (prettyAt depth v).length ≤ fuel →
    Ends isNumberChar rest → value? fuel (prettyAt depth v ++ rest) = some (v, rest)

/-- The text of a value starts neither with a blank nor with the end of a list. -/
theorem Legible.exists_cons {v : Json} (h : Legible v) (depth : Nat) :
    ∃ c cs, prettyAt depth v = c :: cs ∧ isBlank c = false ∧ c ≠ ']' := by
  cases h with
  | null => exact ⟨'n', _, rfl, by decide, by decide⟩
  | boolean b => cases b <;> exact ⟨_, _, rfl, by decide, by decide⟩
  | @number n _ =>
    obtain ⟨c, cs, hc⟩ := List.exists_cons_of_ne_nil n.text_ne_nil
    have hbounds := @n.head_bounds c (by simp [hc])
    refine ⟨c, cs, by rw [prettyAt, hc], ?_, ?_⟩
    · exact isBlank_of_bounds hbounds
    · rintro rfl
      exact absurd hbounds (by decide)
  | string text => exact ⟨'"', _, rfl, by decide, by decide⟩
  | @array items _ =>
    cases items <;> exact ⟨'[', _, rfl, by decide, by decide⟩
  | @object entries _ _ =>
    cases entries <;> exact ⟨'\x7b', _, rfl, by decide, by decide⟩

/-- The text of a value is not empty, so there is fuel for the first step. -/
theorem readsBack_of_succ {v : Json} (hv : Legible v)
    (h : ∀ (depth fuel : Nat) (rest : List Char), (prettyAt depth v).length ≤ fuel + 1 →
      Ends isNumberChar rest → value? (fuel + 1) (prettyAt depth v ++ rest) = some (v, rest)) :
    ReadsBack v := by
  intro depth fuel rest hfuel hrest
  obtain ⟨c, cs, hc, -, -⟩ := hv.exists_cons depth
  have hpos : 0 < (prettyAt depth v).length := by simp [hc]
  obtain ⟨fuel, rfl⟩ := Nat.exists_eq_add_one_of_ne_zero (by omega : fuel ≠ 0)
  exact h depth fuel rest hfuel hrest

theorem readsBack_number {n : Numeral} (h : n.whole.IsPlain) : ReadsBack (.number n.text) := by
  refine readsBack_of_succ (.number h) fun depth fuel rest _ hrest => ?_
  rw [prettyAt]
  obtain ⟨c, cs, hc⟩ := List.exists_cons_of_ne_nil n.text_ne_nil
  have hskip : skipBlanks (n.text ++ rest) = n.text ++ rest := by
    rw [hc]
    exact skipBlanks_cons (isBlank_of_bounds (n.head_bounds (by simp [hc]))) _
  have hhead : ∀ d ds, n.text ++ rest = d :: ds → '-'.toNat ≤ d.toNat ∧ d.toNat ≤ '9'.toNat := by
    intro d ds hd
    rw [hc] at hd
    obtain ⟨rfl, -⟩ := List.cons.inj hd
    exact n.head_bounds (by simp [hc])
  rw [value?.eq_2, hskip]
  split
  case h_7 =>
    simp only [takeWhile_append_of_ends n.isNumberChar_text hrest, Numeral.numberParts?_eq_some h,
      dropWhile_append_of_ends n.isNumberChar_text hrest]
  -- no other value starts with a character that a numeral starts with
  all_goals
    next hcs => exact absurd (hhead _ _ hcs) (by decide)

theorem readsBack_string (text : String) : ReadsBack (.string (some text)) := by
  refine readsBack_of_succ (.string text) fun depth fuel rest _ _ => ?_
  have hbody := stringBody?_append text rest
  have htext : prettyAt depth (.string (some text)) ++ rest =
      '"' :: (text.toList.flatMap escapeChar ++ '"' :: rest) := by
    simp [prettyAt, stringText]
  rw [htext, value?.eq_2, skipBlanks_cons (by decide)]
  simp only [hbody, Option.map_some]

/-! ### Lists -/

theorem prettyItems_cons_cons (depth : Nat) (item next : Json) (more : List Json) :
    prettyItems depth (item :: next :: more) =
      lineAt depth ++ (prettyAt depth item ++ ',' :: prettyItems depth (next :: more)) := by
  rw [prettyItems, List.append_assoc]
  simp

/-- The items of a list are read one after another up to the bracket. -/
theorem items?_prettyItems {items : List Json} (hne : items ≠ [])
    (hread : ∀ item ∈ items, ReadsBack item) (depth outer fuel : Nat) (rest : List Char)
    (hfuel : (prettyItems depth items).length ≤ fuel) :
    items? fuel (prettyItems depth items ++ (lineAt outer ++ ']' :: rest)) =
      some (items, rest) := by
  -- what follows an item, a comma or a new line, does not prolong a number
  induction items generalizing fuel with
  | nil => exact absurd rfl hne
  | cons item more ih =>
    have hitem := hread item (by simp)
    cases more with
    | nil =>
      rw [prettyItems, List.length_append, lineAt, List.length_cons] at hfuel
      obtain ⟨fuel, rfl⟩ := Nat.exists_eq_add_one_of_ne_zero (by omega : fuel ≠ 0)
      rw [prettyItems, List.append_assoc, items?.eq_2, value?_append (isBlank_lineAt depth),
        hitem depth fuel _ (by omega) (ends_lineAt outer _), Option.bind_eq_bind,
        Option.bind_some]
      simp only [symbol?_lineAt, symbol?_of_ne (show isBlank ']' = false by decide)
        (show ']' ≠ ',' by decide), symbol?_self (show isBlank ']' = false by decide)]
      rfl
    | cons next more =>
      rw [prettyItems_cons_cons, List.length_append, List.length_append, List.length_cons,
        lineAt, List.length_cons] at hfuel
      obtain ⟨fuel, rfl⟩ := Nat.exists_eq_add_one_of_ne_zero (by omega : fuel ≠ 0)
      have hmore := ih (by simp) (fun v hv => hread v (by simp [hv])) fuel (by omega)
      rw [prettyItems_cons_cons, List.append_assoc, List.append_assoc, List.cons_append,
        items?.eq_2, value?_append (isBlank_lineAt depth),
        hitem depth fuel _ (by omega) (ends_cons.2 (by decide)), Option.bind_eq_bind,
        Option.bind_some]
      simp only [symbol?_self (show isBlank ',' = false by decide), hmore]
      rfl

/-- Between the opening bracket and the first item no list ends. -/
theorem symbol?_prettyItems {item : Json} (h : Legible item) (depth : Nat) (more : List Json)
    (tail : List Char) : symbol? ']' (prettyItems depth (item :: more) ++ tail) = none := by
  obtain ⟨c, cs, hc, hblank, hne⟩ := h.exists_cons depth
  have hstart : ∃ further, prettyItems depth (item :: more) = lineAt depth ++ c :: further := by
    cases more with
    | nil => exact ⟨cs, by rw [prettyItems, hc]⟩
    | cons next more =>
      exact ⟨cs ++ ',' :: prettyItems depth (next :: more), by
        rw [prettyItems_cons_cons, hc, List.cons_append]⟩
  obtain ⟨further, hfurther⟩ := hstart
  rw [hfurther, List.append_assoc, symbol?_lineAt, List.cons_append, symbol?_of_ne hblank hne]

theorem readsBack_array {items : List Json} (h : ∀ item ∈ items, Legible item)
    (hread : ∀ item ∈ items, ReadsBack item) : ReadsBack (.array items) := by
  refine readsBack_of_succ (.array h) fun depth fuel rest hfuel _ => ?_
  cases items with
  | nil =>
    rw [value?.eq_2]
    rfl
  | cons item more =>
    have htext : prettyAt depth (.array (item :: more)) ++ rest =
        '[' :: (prettyItems (depth + 1) (item :: more) ++ (lineAt depth ++ ']' :: rest)) := by
      simp [prettyAt]
    have hlength : (prettyItems (depth + 1) (item :: more)).length ≤ fuel := by
      simp only [prettyAt, List.isEmpty_cons, Bool.false_eq_true, if_false, List.length_append,
        List.length_cons] at hfuel
      omega
    have hitems := items?_prettyItems (List.cons_ne_nil item more) hread (depth + 1) depth fuel rest
      hlength
    rw [htext, value?.eq_2, skipBlanks_cons (by decide)]
    simp only [symbol?_prettyItems (h item (by simp)), hitems, Option.map_some]

/-! ### Objects -/

theorem name?_append (name : String) (depth : Nat) (cs : List Char) :
    name? (lineAt depth ++ (stringText (some name) ++ ':' :: cs)) = some (some name, cs) := by
  have htext : stringText (some name) ++ ':' :: cs =
      '"' :: (name.toList.flatMap escapeChar ++ '"' :: ':' :: cs) := by
    simp [stringText]
  have hquote : isBlank '"' = false := by decide
  have hcolon : isBlank ':' = false := by decide
  simp only [name?, symbol?_lineAt, htext, symbol?_self hquote, Option.bind_eq_bind,
    Option.bind_some, stringBody?_append, symbol?_self hcolon]
  rfl

theorem prettyEntries_singleton (depth : Nat) (name : Option String) (v : Json) :
    prettyEntries depth [(name, v)] =
      lineAt depth ++ (stringText name ++ ':' :: ([' '] ++ prettyAt depth v)) := by
  simp [prettyEntries]

theorem prettyEntries_cons_cons (depth : Nat) (name : Option String) (v : Json)
    (next : Option String × Json) (more : List (Option String × Json)) :
    prettyEntries depth ((name, v) :: next :: more) =
      lineAt depth ++ (stringText name ++
        ':' :: ([' '] ++ (prettyAt depth v ++ ',' :: prettyEntries depth (next :: more)))) := by
  rw [prettyEntries]
  · simp
  · simp

/-- The entries of an object are read one after another up to the brace. -/
theorem entries?_prettyEntries {entries : List (Option String × Json)} (hne : entries ≠ [])
    (hnames : ∀ e ∈ entries, e.1.isSome) (hread : ∀ e ∈ entries, ReadsBack e.2)
    (depth outer fuel : Nat) (rest : List Char)
    (hfuel : (prettyEntries depth entries).length ≤ fuel) :
    entries? fuel (prettyEntries depth entries ++ (lineAt outer ++ '\x7d' :: rest)) =
      some (entries, rest) := by
  have hblank : ∀ c ∈ [' '], isBlank c = true := by simp [isBlank]
  have hbrace : isBlank '\x7d' = false := by decide
  have hcomma : isNumberChar ',' = false := by decide
  induction entries generalizing fuel with
  | nil => exact absurd rfl hne
  | cons e more ih =>
    obtain ⟨name, v⟩ := e
    obtain ⟨name, rfl⟩ := Option.isSome_iff_exists.1 (hnames (name, v) (by simp))
    have hvalue : ReadsBack v := hread (some name, v) (by simp)
    cases more with
    | nil =>
      have htext : prettyEntries depth [(some name, v)] ++ (lineAt outer ++ '\x7d' :: rest) =
          lineAt depth ++ (stringText (some name) ++
            ':' :: ([' '] ++ (prettyAt depth v ++ (lineAt outer ++ '\x7d' :: rest)))) := by
        simp [prettyEntries_singleton]
      simp only [prettyEntries_singleton, List.length_append, lineAt, List.length_cons] at hfuel
      obtain ⟨fuel, rfl⟩ := Nat.exists_eq_add_one_of_ne_zero (by omega : fuel ≠ 0)
      rw [htext, entries?.eq_2, name?_append, Option.bind_eq_bind, Option.bind_some]
      simp only [value?_append hblank, hvalue depth fuel _ (by omega) (ends_lineAt outer _),
        Option.bind_eq_bind, Option.bind_some, symbol?_lineAt, symbol?_of_ne hbrace
        (show '\x7d' ≠ ',' by decide), symbol?_self hbrace]
      rfl
    | cons next more =>
      have htext : prettyEntries depth ((some name, v) :: next :: more) ++
            (lineAt outer ++ '\x7d' :: rest) =
          lineAt depth ++ (stringText (some name) ++
            ':' :: ([' '] ++ (prettyAt depth v ++ ',' ::
              (prettyEntries depth (next :: more) ++ (lineAt outer ++ '\x7d' :: rest))))) := by
        simp [prettyEntries_cons_cons]
      simp only [prettyEntries_cons_cons, List.length_append, lineAt, List.length_cons] at hfuel
      obtain ⟨fuel, rfl⟩ := Nat.exists_eq_add_one_of_ne_zero (by omega : fuel ≠ 0)
      have hmore := ih (by simp) (fun e he => hnames e (by simp [he]))
        (fun e he => hread e (by simp [he])) fuel (by omega)
      rw [htext, entries?.eq_2, name?_append, Option.bind_eq_bind, Option.bind_some]
      simp only [value?_append hblank, hvalue depth fuel _ (by omega) (ends_cons.2 hcomma),
        Option.bind_eq_bind, Option.bind_some, symbol?_self (show isBlank ',' = false by decide),
        hmore]
      rfl

/-- Between the opening brace and the first name no object ends. -/
theorem symbol?_prettyEntries (depth : Nat) (e : Option String × Json)
    (more : List (Option String × Json)) (tail : List Char) :
    symbol? '\x7d' (prettyEntries depth (e :: more) ++ tail) = none := by
  obtain ⟨name, v⟩ := e
  have hstart : ∃ further, prettyEntries depth ((name, v) :: more) =
      lineAt depth ++ '"' :: further := by
    cases more with
    | nil => exact ⟨_, by rw [prettyEntries_singleton, stringText]; rfl⟩
    | cons next more => exact ⟨_, by rw [prettyEntries_cons_cons, stringText]; rfl⟩
  obtain ⟨further, hfurther⟩ := hstart
  rw [hfurther, List.append_assoc, symbol?_lineAt, List.cons_append,
    symbol?_of_ne (by decide) (by decide)]

theorem readsBack_object {entries : List (Option String × Json)}
    (hnames : ∀ e ∈ entries, e.1.isSome) (h : ∀ e ∈ entries, Legible e.2)
    (hread : ∀ e ∈ entries, ReadsBack e.2) : ReadsBack (.object entries) := by
  refine readsBack_of_succ (.object hnames h) fun depth fuel rest hfuel _ => ?_
  cases entries with
  | nil =>
    rw [value?.eq_2]
    rfl
  | cons e more =>
    have htext : prettyAt depth (.object (e :: more)) ++ rest =
        '\x7b' :: (prettyEntries (depth + 1) (e :: more) ++ (lineAt depth ++ '\x7d' :: rest)) := by
      simp [prettyAt]
    have hlength : (prettyEntries (depth + 1) (e :: more)).length ≤ fuel := by
      simp only [prettyAt, List.isEmpty_cons, Bool.false_eq_true, if_false, List.length_append,
        List.length_cons] at hfuel
      omega
    have hentries := entries?_prettyEntries (List.cons_ne_nil e more) hnames hread (depth + 1) depth
      fuel rest hlength
    rw [htext, value?.eq_2, skipBlanks_cons (by decide)]
    simp only [symbol?_prettyEntries, hentries, Option.map_some]

/-! ### Values -/

/-- **A value that has a text is read from it.** -/
theorem Legible.readsBack {v : Json} (h : Legible v) : ReadsBack v := by
  induction h with
  | null =>
    refine readsBack_of_succ .null fun depth fuel rest _ _ => ?_
    rw [value?.eq_2]
    rfl
  | boolean b =>
    refine readsBack_of_succ (.boolean b) fun depth fuel rest _ _ => ?_
    cases b <;>
    · rw [value?.eq_2]
      rfl
  | number h => exact readsBack_number h
  | string text => exact readsBack_string text
  | array h ih => exact readsBack_array h ih
  | object hnames h ih => exact readsBack_object hnames h ih

/-- **The text of a value is read as that value.** -/
theorem ofText?_prettyText {v : Json} (h : Legible v) : ofText? v.prettyText.toList = some v := by
  have hread := h.readsBack 0 ((prettyAt 0 v).length + 1) [] (by omega) ends_nil
  rw [List.append_nil] at hread
  rw [prettyText, String.toList_ofList, ofText?, hread]
  rfl

end Throughput.Json
