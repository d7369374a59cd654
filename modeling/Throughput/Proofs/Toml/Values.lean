/-
  Throughput/Proofs/Toml/Values.lean
  ==================================
  **Strings and lists in TOML text.**  The string that is written for a
  character is read as that character, whichever of the forms it takes
  (`readsAs_charText`), and a list of finite numbers is read from its text
  (`readsAs_numbersText`).
-/
import Throughput.Proofs.Toml.Words
import Throughput.Settings.Text

namespace Throughput.Toml

/-! ### Strings -/

theorem Follows.ne_quote {rest : List Char} (h : Follows rest) :
    ∃ c more, rest = c :: more ∧ c ≠ '"' := by
  obtain ⟨c, more, rfl, rfl | rfl | rfl⟩ := h <;> exact ⟨_, _, rfl, by decide⟩

/-- A control character of ASCII has a number of four digits. -/
theorem hexChar?_capitalHex : ∀ n < 128, n < 32 ∨ n = 127 →
    ∃ a b c d, capitalHex n = [a, b, c, d] ∧ hexChar? [a, b, c, d] = some (Char.ofNat n) := by
  have hdigits : ∀ n < 128, n < 32 ∨ n = 127 →
      (capitalHex n).length = 4 ∧ hexChar? (capitalHex n) = some (Char.ofNat n) := by
    decide +kernel
  intro n hn hcontrol
  obtain ⟨hlength, hvalue⟩ := hdigits n hn hcontrol
  match capitalHex n, hlength, hvalue with
  | [a, b, c, d], _, hvalue => exact ⟨a, b, c, d, rfl, hvalue⟩

theorem string?_basic {c : Char} (hc : c ≠ '"') (cs : List Char) :
    string? ('"' :: c :: cs) = basicBody? (c :: cs) := by
  unfold string?
  split
  all_goals simp_all

theorem basicBody?_plain {c : Char} (hquote : c ≠ '"') (hslash : c ≠ '\\')
    (hplain : isPlain c = true) (cs : List Char) :
    basicBody? (c :: cs) = withChar? (some c) (basicBody? cs) := by
  rw [basicBody?.eq_def]
  split
  case h_6 heq =>
    obtain ⟨rfl, rfl⟩ := List.cons.inj heq
    rw [Option.filter_some, if_pos hplain]
  all_goals simp_all

/-- Three quotes close a text that has no quotes at its end. -/
theorem longBasicBody?_close {d : Char} (hd : d ≠ '"') (joining : Bool) (more : List Char) :
    longBasicBody? joining ('"' :: '"' :: '"' :: d :: more) = some ([], d :: more) := by
  rw [longBasicBody?.eq_def]
  split
  case h_10 hclose _ _ _ _ _ heq =>
    obtain ⟨hquote, hrest⟩ := List.cons.inj heq
    exact (hclose _ hquote.symm hrest.symm).elim
  all_goals simp_all

/-- **Any character is read back from the string that is written for it.** -/
theorem string?_charText (c : Char) {rest : List Char} (hrest : Follows rest) :
    string? (charText c ++ rest) = some ([c], rest) := by
  obtain ⟨d, more, rfl, hd⟩ := hrest.ne_quote
  rw [charText]
  split_ifs with hliteral hnewline hback htab hfeed hreturn hcontrol
  · rcases hliteral with rfl | rfl <;> rfl
  · -- of the two line ends the first belongs to the quotes
    subst hnewline
    have hbody : longBasicBody? false ('\n' :: '"' :: '"' :: '"' :: d :: more) =
        withChar? (some '\n') (longBasicBody? false ('"' :: '"' :: '"' :: d :: more)) := rfl
    exact hbody.trans (by rw [longBasicBody?_close hd]; rfl)
  · subst hback
    rfl
  · subst htab
    rfl
  · subst hfeed
    rfl
  · subst hreturn
    rfl
  · obtain ⟨a, b, e, f, hdigits, hvalue⟩ := hexChar?_capitalHex c.toNat (by omega) hcontrol
    have hbody : basicBody? ('\\' :: 'u' :: a :: b :: e :: f :: '"' :: d :: more) =
        withChar? (hexChar? [a, b, e, f]) (basicBody? ('"' :: d :: more)) := rfl
    rw [Char.ofNat_toNat] at hvalue
    rw [hdigits]
    exact (string?_basic (by decide) _).trans (hbody.trans (by rw [hvalue]; rfl))
  · have hne : c ≠ '"' ∧ c ≠ '\\' := not_or.1 hliteral
    have hplain : isPlain c = true := by
      simp only [isPlain, Bool.or_eq_true, Bool.and_eq_true, decide_eq_true_eq, bne_iff_ne]
      omega
    exact (string?_basic hne.1 _).trans (basicBody?_plain hne.1 hne.2 hplain _)

/-- The text begins a value that is read as a string. -/
theorem readsAs_of_string? (depth : Nat) {text content : List Char} {c : Char} {cs : List Char}
    (htext : text = c :: cs) (hc : c = '"' ∨ c = '\'')
    (hcontent : ∀ rest, Follows rest → string? (text ++ rest) = some (content, rest)) :
    ReadsAs depth text (string (String.ofList content)) := by
  subst htext
  refine ⟨⟨c, cs, rfl, ?_⟩, fun rest hrest => ?_⟩
  · rcases hc with rfl | rfl <;> decide
  · have hopen : c ≠ '[' ∧ c ≠ '\x7b' := by
      rcases hc with rfl | rfl <;> decide
    rw [List.cons_append, value?_eq_scalar? depth hopen, ← List.cons_append, value?.scalar?,
      hcontent rest hrest]

theorem readsAs_charText (depth : Nat) (c : Char) :
    ReadsAs depth (charText c) (string (String.ofList [c])) := by
  obtain ⟨d, cs, hcs, hd⟩ : ∃ d cs, charText c = d :: cs ∧ (d = '"' ∨ d = '\'') := by
    rw [charText]
    split_ifs
    · exact ⟨_, _, rfl, .inr rfl⟩
    all_goals exact ⟨_, _, rfl, .inl rfl⟩
  exact readsAs_of_string? depth hcs hd fun rest hrest => string?_charText c hrest

/-! ### Lists -/

theorem items?_skipLines {read? : List Char → Option (Toml × List Char)} (fuel : Nat)
    {cs cs' : List Char} (h : skipLines false cs = skipLines false cs') :
    items? read? fuel cs = items? read? fuel cs' := by
  cases fuel with
  | zero => rfl
  | succ fuel => rw [items?, items?, h]

theorem items?_cons {read? : List Char → Option (Toml × List Char)} {c : Char}
    (hc : startsValue c = true) (fuel : Nat) (cs : List Char) :
    items? read? (fuel + 1) (c :: cs) = (do
      let (item, cs) ← read? (c :: cs)
      match skipLines false cs with
      | ',' :: cs =>
        let (items, rest) ← items? read? fuel cs
        return (item :: items, rest)
      | ']' :: rest => return ([item], rest)
      | _ => none) := by
  have hbracket : c ≠ ']' := by
    rintro rfl
    cases hc
  rw [items?, skipLines_of_startsValue hc]
  split
  next heq => exact absurd (List.cons.inj heq).1 hbracket
  next => rfl

/-- Behind a comma the list goes on. -/
theorem items?_comma {depth : Nat} {text : List Char} {value : Toml}
    (h : ReadsAs depth text value) (fuel : Nat) (rest : List Char) :
    items? (value? depth) (fuel + 1) (text ++ ',' :: rest) =
      (items? (value? depth) fuel rest).map fun (items, rest) => (value :: items, rest) := by
  have hvalue := h.value?_append (',' :: rest) ⟨_, _, rfl, .inr (.inl rfl)⟩
  obtain ⟨c, cs, rfl, hc⟩ := h.head
  rw [List.cons_append] at hvalue ⊢
  rw [items?_cons hc, hvalue]
  exact Option.map_eq_bind.symm

/-- The closing bracket ends it. -/
theorem items?_close {depth : Nat} {text : List Char} {value : Toml}
    (h : ReadsAs depth text value) (fuel : Nat) (rest : List Char) :
    items? (value? depth) (fuel + 1) (text ++ ']' :: rest) = some ([value], rest) := by
  have hvalue := h.value?_append (']' :: rest) ⟨_, _, rfl, .inr (.inr rfl)⟩
  obtain ⟨c, cs, rfl, hc⟩ := h.head
  rw [List.cons_append] at hvalue ⊢
  rw [items?_cons hc, hvalue]
  rfl

/-- An item on a line of its own. -/
def itemLine (text : List Char) : List Char := "    ".toList ++ text ++ [',', '\n']

/-- **Items on lines of their own are read one after another.** -/
theorem items?_itemLines {α : Type} {depth : Nat} {text : α → List Char} {value : α → Toml}
    {xs : List α} (h : ∀ x ∈ xs, ReadsAs depth (text x) (value x)) (rest : List Char)
    {fuel : Nat} (hfuel : xs.length < fuel) :
    items? (value? depth) fuel ('\n' :: (xs.flatMap (itemLine ∘ text) ++ ']' :: rest)) =
      some (xs.map value, rest) := by
  induction xs generalizing fuel with
  | nil =>
    obtain ⟨fuel, rfl⟩ := Nat.exists_eq_add_one_of_ne_zero (Nat.ne_zero_of_lt hfuel)
    rfl
  | cons x xs ih =>
    obtain ⟨fuel, rfl⟩ := Nat.exists_eq_add_one_of_ne_zero (Nat.ne_zero_of_lt hfuel)
    have hskip : skipLines false ('\n' :: ((x :: xs).flatMap (itemLine ∘ text) ++ ']' :: rest)) =
        skipLines false
          (text x ++ ',' :: '\n' :: (xs.flatMap (itemLine ∘ text) ++ ']' :: rest)) := by
      simp [itemLine, skipLines, isBlank]
    have hrest := ih (fun y hy => h y (List.mem_cons_of_mem _ hy)) (Nat.lt_of_succ_lt_succ hfuel)
    rw [items?_skipLines _ hskip, items?_comma (h x List.mem_cons_self)]
    exact congrArg (Option.map _) hrest

theorem value?_array (depth : Nat) (cs : List Char) :
    value? (depth + 1) ('[' :: cs) =
      (items? (value? depth) (cs.length + 1) cs).map fun (items, rest) => (array items, rest) := by
  rw [value?]

theorem length_le_length_itemLines {α : Type} (text : α → List Char) (xs : List α) :
    xs.length ≤ (xs.flatMap (itemLine ∘ text)).length := by
  induction xs with
  | nil => exact Nat.le_refl _
  | cons x xs ih =>
    have hline : 1 ≤ (itemLine (text x)).length := by simp [itemLine]
    rw [List.flatMap_cons, List.length_append, List.length_cons, Function.comp_apply]
    omega

/-- **A list of finite numbers is read from its text**, whatever its length. -/
theorem readsAs_numbersText (depth : Nat) {xs : List Binary64} (h : ∀ x ∈ xs, x.isFinite = true) :
    ReadsAs (depth + 1) (numbersText xs).toList (array (xs.map number)) := by
  have hitems : ∀ x ∈ xs, ReadsAs depth x.pointed.toList (number x) := fun x hx =>
    readsAs_pointed depth (h x hx)
  match xs, hitems with
  | [], _ => exact ⟨⟨'[', _, rfl, by decide⟩, fun rest _ => rfl⟩
  | [x], hitems =>
    have htext : (numbersText [x]).toList = '[' :: (x.pointed.toList ++ [']']) := by
      simp [numbersText]
    rw [htext]
    refine ⟨⟨'[', _, rfl, by decide⟩, fun rest _ => ?_⟩
    rw [List.cons_append, List.append_assoc, List.singleton_append, value?_array,
      items?_close (hitems x List.mem_cons_self)]
    rfl
  | x :: y :: xs, hitems =>
    have htext : (numbersText (x :: y :: xs)).toList =
        '[' :: '\n' ::
          ((x :: y :: xs).flatMap (itemLine ∘ fun x => x.pointed.toList) ++ [']']) := by
      simp [numbersText, String.toList_join, itemLine, List.flatMap_map, Function.comp_def]
    rw [htext]
    refine ⟨⟨'[', _, rfl, by decide⟩, fun rest _ => ?_⟩
    rw [List.cons_append, List.cons_append, List.append_assoc, List.singleton_append, value?_array,
      items?_itemLines hitems rest]
    · rfl
    · have hlength := length_le_length_itemLines (fun x => x.pointed.toList) (x :: y :: xs)
      simp only [List.length_cons, List.length_append] at hlength ⊢
      omega

end Throughput.Toml
