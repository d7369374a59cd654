/-
  Throughput/Proofs/Toml/Documents.lean
  =====================================
  **Documents line by line.**  A document that is written as blank lines,
  headers and entries with bare names is read one line after another
  (`lines?_flatMap`); what such a line does to the draft does not depend on
  what stands around it.
-/
import Throughput.Proofs.Toml.Words

namespace Throughput.Toml

/-! ### Lines -/

/-- A line as it is written, with the value that the text of an entry stands for. -/
inductive Line where
  | blank
  | header (name : String)
  | entry (name : String) (text : List Char) (value : Toml)

namespace Line

def chars : Line → List Char
  | blank => ['\n']
  | header name => '[' :: name.toList ++ "]\n".toList
  | entry name text _ => name.toList ++ " = ".toList ++ text ++ ['\n']

/-- What a line does to a draft. -/
def takeUp? (p : Progress) : Line → Option Progress
  | blank => some p
  | header name => p.open? Draft.openTable [name]
  | entry name _ value => p.assign [name] value

end Line

/-- A name that needs no quotes. -/
def IsBareName (name : String) : Prop := name.toList ≠ [] ∧ name.toList.all isBare = true

instance (name : String) : Decidable (IsBareName name) :=
  inferInstanceAs (Decidable (_ ∧ _))

/-- Names are bare, and the text of an entry is read as its value. -/
inductive Line.IsSound : Line → Prop where
  | blank : IsSound .blank
  | header {name : String} (hname : IsBareName name) : IsSound (.header name)
  | entry {name : String} {text : List Char} {value : Toml} (hname : IsBareName name)
      (htext : ReadsAs depthLimit text value) : IsSound (.entry name text value)

/-! ### Names -/

theorem IsBareName.forall_isBare {name : String} (h : IsBareName name) :
    ∀ c ∈ name.toList, isBare c = true := List.all_eq_true.1 h.2

theorem IsBareName.exists_cons {name : String} (h : IsBareName name) :
    ∃ c cs, name.toList = c :: cs ∧ isBare c = true := by
  obtain ⟨c, cs, hcs⟩ := List.exists_cons_of_ne_nil h.1
  exact ⟨c, cs, hcs, h.forall_isBare c (by simp [hcs])⟩

theorem ne_of_isBare {c d : Char} (hc : isBare c = true) (hd : isBare d = false) : c ≠ d := by
  rintro rfl
  rw [hc] at hd
  cases hd

theorem isBlank_of_isBare {c : Char} (h : isBare c = true) : isBlank c = false := by
  simp [isBlank, ne_of_isBare h (by decide : isBare ' ' = false),
    ne_of_isBare h (by decide : isBare '\t' = false)]

theorem startsValue_of_isBare {c : Char} (h : isBare c = true) : startsValue c = true := by
  have hne : ∀ d, isBare d = false → c ≠ d := fun d => ne_of_isBare h
  simp [startsValue, isBlank_of_isBare h, hne '\n' (by decide), hne '\r' (by decide),
    hne '#' (by decide), hne ']' (by decide)]

/-- A bare name is a key of one part, unless a point follows. -/
theorem key?_append {name : String} (h : IsBareName name) {rest more : List Char} {d : Char}
    (hrest : Ends isBare rest) (hskip : skipBlanks rest = d :: more) (hd : d ≠ '.') :
    key? (name.toList ++ rest) = some ([name], d :: more) := by
  have hpart : keyPart? (skipBlanks (name.toList ++ rest)) = some (name, rest) := by
    have hword := takeWhile_append_of_ends h.forall_isBare hrest
    have hbehind := dropWhile_append_of_ends h.forall_isBare hrest
    have hname := String.ofList_toList (s := name)
    obtain ⟨c, cs, hcs, hc⟩ := h.exists_cons
    rw [hcs, List.cons_append] at hword hbehind ⊢
    rw [skipBlanks, List.dropWhile_cons_of_neg (by simp [isBlank_of_isBare hc]), keyPart?]
    · rw [hword, hbehind, ← hcs, hname]
      simp [h.1]
    · rintro _ heq
      exact ne_of_isBare hc (by decide : isBare '"' = false) (List.cons.inj heq).1
    · rintro _ heq
      exact ne_of_isBare hc (by decide : isBare '\'' = false) (List.cons.inj heq).1
  rw [key?, depthLimit, keyOf?, hpart]
  simp only [Option.bind_eq_bind, Option.bind_some, hskip]
  split
  next heq => exact absurd (List.cons.inj heq).1 hd
  next => rfl

/-! ### One line -/

theorem lineEnd?_newline (rest : List Char) : lineEnd? ('\n' :: rest) = some rest := rfl

theorem assignment?_entry {name : String} (hname : IsBareName name) {text : List Char}
    {value : Toml} (h : ReadsAs depthLimit text value) (rest : List Char) :
    assignment? (value? depthLimit) ((Line.entry name text value).chars ++ rest) =
      some (([name], value), '\n' :: rest) := by
  have hchars : (Line.entry name text value).chars ++ rest =
      name.toList ++ ' ' :: '=' :: ' ' :: (text ++ '\n' :: rest) := by
    simp [Line.chars]
  have hkey : key? (name.toList ++ ' ' :: '=' :: ' ' :: (text ++ '\n' :: rest)) =
      some ([name], '=' :: ' ' :: (text ++ '\n' :: rest)) :=
    key?_append hname (ends_cons.2 (by decide)) rfl (by decide)
  have hskip : skipBlanks (' ' :: (text ++ '\n' :: rest)) = text ++ '\n' :: rest := by
    obtain ⟨c, cs, rfl, hc⟩ := h.head
    have hblank : isBlank c = false := by
      simp only [startsValue, Bool.and_eq_true, Bool.not_eq_true'] at hc
      exact hc.1.1.1.1
    rw [skipBlanks, List.dropWhile_cons_of_pos (by decide), List.cons_append,
      List.dropWhile_cons_of_neg (by simp [hblank])]
  rw [hchars, assignment?, hkey]
  simp only [Option.bind_eq_bind, Option.bind_some, hskip]
  rw [h.value?_append _ ⟨_, _, rfl, .inl rfl⟩]
  rfl

/-- **A line is taken up whatever follows it.** -/
theorem line?_append {line : Line} (h : line.IsSound) (hblank : line ≠ .blank) (p : Progress)
    (rest : List Char) :
    p.line? (line.chars ++ rest) = (line.takeUp? p).map fun p => (p, rest) := by
  cases h with
  | blank => exact absurd rfl hblank
  | @header name hname =>
    have hchars : (Line.header name).chars ++ rest =
        '[' :: (name.toList ++ ']' :: '\n' :: rest) := by
      simp [Line.chars]
    have hkey : key? (name.toList ++ ']' :: '\n' :: rest) = some ([name], ']' :: '\n' :: rest) :=
      key?_append hname (ends_cons.2 (by decide)) rfl (by decide)
    obtain ⟨c, cs, hcs, hc⟩ := hname.exists_cons
    rw [hchars]
    rw [hcs, List.cons_append] at hkey ⊢
    unfold Progress.line?
    split
    next heq =>
      obtain ⟨hbracket, -⟩ := List.cons.inj (List.cons.inj heq).2
      exact absurd hbracket (ne_of_isBare hc (by decide))
    next heq =>
      obtain rfl := (List.cons.inj heq).2
      simp only [hkey, Option.bind_eq_bind, Option.bind_some, lineEnd?_newline]
      exact Option.map_eq_bind.symm
    next hother => exact (hother _ rfl).elim
  | @entry name text value hname htext =>
    have hassignment := assignment?_entry hname htext rest
    obtain ⟨c, cs, hcs, hc⟩ : ∃ c cs, (Line.entry name text value).chars ++ rest = c :: cs ∧
        isBare c = true := by
      obtain ⟨c, cs, hcs, hc⟩ := hname.exists_cons
      exact ⟨c, _, by rw [Line.chars, hcs]; rfl, hc⟩
    rw [hcs] at hassignment ⊢
    unfold Progress.line?
    split
    next heq => exact absurd (List.cons.inj heq).1 (ne_of_isBare hc (by decide))
    next heq => exact absurd (List.cons.inj heq).1 (ne_of_isBare hc (by decide))
    next =>
      simp only [hassignment, Option.bind_eq_bind, Option.bind_some, lineEnd?_newline]
      exact Option.map_eq_bind.symm

/-! ### All lines -/

theorem lines?_newline (fuel : Nat) (p : Progress) (cs : List Char) :
    lines? fuel p ('\n' :: cs) = lines? fuel p cs := by
  cases fuel with
  | zero => rfl
  | succ fuel => rw [lines?, lines?, skipLines]

/-- What a line begins with is no mark of an encoding and, but in a blank line, is not
    passed over. -/
theorem Line.IsSound.exists_cons {line : Line} (h : line.IsSound) (rest : List Char) :
    ∃ c cs, line.chars ++ rest = c :: cs ∧ c ≠ byteOrderMark ∧
      (line ≠ .blank → startsValue c = true) := by
  cases h with
  | blank => exact ⟨'\n', _, rfl, by decide, fun hblank => absurd rfl hblank⟩
  | header hname => exact ⟨'[', _, rfl, by decide, fun _ => by decide⟩
  | entry hname htext =>
    obtain ⟨c, cs, hcs, hc⟩ := hname.exists_cons
    exact ⟨c, _, by rw [Line.chars, hcs]; rfl, ne_of_isBare hc (by decide),
      fun _ => startsValue_of_isBare hc⟩

/-- **A document of sound lines is read line by line.** -/
theorem lines?_flatMap {lines : List Line} (h : ∀ line ∈ lines, line.IsSound) (p : Progress)
    {fuel : Nat} (hfuel : (lines.flatMap Line.chars).length < fuel) :
    lines? fuel p (lines.flatMap Line.chars) = lines.foldlM Line.takeUp? p := by
  induction lines generalizing p fuel with
  | nil =>
    obtain ⟨fuel, rfl⟩ := Nat.exists_eq_add_one_of_ne_zero (Nat.ne_zero_of_lt hfuel)
    rfl
  | cons line lines ih =>
    have hmore : ∀ line ∈ lines, line.IsSound := fun line hline =>
      h line (List.mem_cons_of_mem _ hline)
    rw [List.flatMap_cons, List.length_append] at hfuel
    rw [List.flatMap_cons, List.foldlM_cons]
    by_cases hblank : line = .blank
    · subst hblank
      rw [Line.chars, List.singleton_append, lines?_newline, ih hmore p (by omega)]
      rfl
    · have hsound := h line List.mem_cons_self
      obtain ⟨c, cs, hcs, -, hc⟩ := hsound.exists_cons (lines.flatMap Line.chars)
      obtain ⟨fuel, rfl⟩ := Nat.exists_eq_add_one_of_ne_zero (Nat.ne_zero_of_lt hfuel)
      have hlength : 1 ≤ line.chars.length := by
        obtain ⟨c, cs, hcs, -⟩ := hsound.exists_cons []
        rw [List.append_nil] at hcs
        simp [hcs]
      have hline := line?_append hsound hblank p (lines.flatMap Line.chars)
      rw [hcs] at hline ⊢
      rw [lines?, skipLines_of_startsValue (hc hblank)]
      simp only [hline, Option.bind_eq_bind, Option.bind_map, Function.comp_def]
      exact Option.bind_congr fun next _ => ih hmore next (by omega)

/-! ### The whole document -/

/-- The entries of a document of sound lines. -/
theorem ofText?_flatMap {lines : List Line} (h : ∀ line ∈ lines, line.IsSound) {p : Progress}
    (hlines : lines.foldlM Line.takeUp? .start = some p) {entries : Entries}
    (hdates : (table (Draft.entriesToToml p.entries)).withDates? = some (table entries)) :
    ofText? (lines.flatMap Line.chars) = some entries := by
  have hread := lines?_flatMap h .start (Nat.lt_succ_self _)
  rw [hlines] at hread
  cases lines with
  | nil =>
    rw [List.flatMap_nil] at hread ⊢
    simp only [ofText?, hread, hdates, Option.bind_eq_bind, Option.bind_some]
    rfl
  | cons line lines =>
    obtain ⟨c, cs, hcs, hc, -⟩ :=
      (h line List.mem_cons_self).exists_cons (lines.flatMap Line.chars)
    rw [List.flatMap_cons, hcs] at hread ⊢
    simp only [ofText?, if_neg hc, hread, hdates, Option.bind_eq_bind, Option.bind_some]
    rfl

/-- Numbers are no dates. -/
theorem itemsWithDates?_numbers (xs : List Binary64) :
    itemsWithDates? (xs.map number) = some (xs.map number) := by
  induction xs with
  | nil => rfl
  | cons x xs ih =>
    rw [List.map_cons, itemsWithDates?, withDates?, ih]
    · rfl
    all_goals exact fun _ => Toml.noConfusion

end Throughput.Toml
