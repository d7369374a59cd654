/-
  Throughput/Proofs/Text/Trimming.lean
  ====================================
  **Trimming and words.**  White space around a text does not matter to trimming, and
  a text that neither starts nor ends with white space stays as it is
  (`trim_around`).  Words never reach across white space, so a text that is set off by
  it from what follows keeps its words (`words_append`).
-/
import Throughput.Proofs.Text.Lines

namespace Throughput.Text

/-- A text of nothing but white space. -/
def AllBlank (cs : List Char) : Prop := ∀ c ∈ cs, isBlank c = true

/-- A text that neither starts nor ends with white space. -/
structure IsTrimmed (cs : List Char) : Prop where
  head : ∀ c ∈ cs.head?, isBlank c = false
  last : ∀ c ∈ cs.getLast?, isBlank c = false

variable {cs before after : List Char}

theorem isTrimmed_of_ends {first last : Char} (hhead : cs.head? = some first)
    (hlast : cs.getLast? = some last) (hfirst : isBlank first = false)
    (hfinal : isBlank last = false) : IsTrimmed cs where
  head c hc := by
    rw [hhead] at hc
    exact Option.some_inj.1 hc ▸ hfirst
  last c hc := by
    rw [hlast] at hc
    exact Option.some_inj.1 hc ▸ hfinal

theorem isTrimmed_of_forall (h : ∀ c ∈ cs, isBlank c = false) : IsTrimmed cs where
  head c hc := h c (List.mem_of_mem_head? hc)
  last c hc := h c (List.mem_of_mem_getLast? hc)

theorem dropEnding_append_of_pos {α : Type} {p : α → Bool} {ys : List α}
    (h : ∀ y ∈ ys, p y = true) (xs : List α) : dropEnding p (xs ++ ys) = dropEnding p xs := by
  rw [dropEnding, List.reverse_append,
    List.dropWhile_append_of_pos fun y hy => h y (List.mem_reverse.1 hy)]
  rfl

theorem dropEnding_eq_self {α : Type} {p : α → Bool} {xs : List α}
    (h : ∀ x ∈ xs.getLast?, p x = false) : dropEnding p xs = xs := by
  cases xs using List.reverseRecOn with
  | nil => rfl
  | append_singleton xs x => exact dropEnding_concat_of_neg (h x (by simp)) xs

theorem trim_append_left (h : AllBlank before) (cs : List Char) :
    trim (before ++ cs) = trim cs := by
  rw [trim, List.dropWhile_append_of_pos h]
  rfl

theorem trim_append_right (h : AllBlank after) (cs : List Char) : trim (cs ++ after) = trim cs := by
  induction cs with
  | nil =>
    rw [List.nil_append, ← List.append_nil after, trim_append_left h]
  | cons c cs ih =>
    cases hc : isBlank c with
    | true =>
      have hblank : AllBlank [c] := by simpa [AllBlank] using hc
      exact (trim_append_left hblank (cs ++ after)).trans
        (ih.trans (trim_append_left hblank cs).symm)
    | false =>
      have hstay : ∀ rest, (c :: rest).dropWhile isBlank = c :: rest := fun _ => by simp [hc]
      rw [List.cons_append, trim, trim, hstay, hstay, trimEnd, ← List.cons_append,
        dropEnding_append_of_pos h]
      rfl

theorem IsTrimmed.trim_eq (h : IsTrimmed cs) : trim cs = cs := by
  cases cs with
  | nil => rfl
  | cons c cs =>
    have hc : isBlank c = false := h.head c (by simp)
    rw [trim, List.dropWhile_cons_of_neg (by simp [hc])]
    exact dropEnding_eq_self h.last

/-- What a text ends with stays its end if it is no white space. -/
theorem getLast?_trim {c : Char} (h : cs.getLast? = some c) (hc : isBlank c = false) :
    (trim cs).getLast? = some c := by
  obtain ⟨init, rfl⟩ := List.getLast?_eq_some_iff.1 h
  have hstart : ∃ rest, (init ++ [c]).dropWhile isBlank = rest ++ [c] := by
    rw [List.dropWhile_append]
    split
    · exact ⟨[], by simp [hc]⟩
    · exact ⟨_, rfl⟩
  obtain ⟨rest, hrest⟩ := hstart
  rw [trim, hrest, trimEnd, dropEnding_concat_of_neg hc, List.getLast?_concat]

/-- **Trimming takes away the white space around a text.** -/
theorem trim_around (hbefore : AllBlank before) (h : IsTrimmed cs) (hafter : AllBlank after) :
    trim (before ++ cs ++ after) = cs := by
  rw [trim_append_right hafter, trim_append_left hbefore, h.trim_eq]

/-! ### Words -/

/-- Words do not reach across white space. -/
theorem words_append_cons {c : Char} (hc : isBlank c = true) (cs ds : List Char) :
    words (cs ++ c :: ds) = words cs ++ words ds := by
  rw [words, pieces_append _ hc, List.filter_append]
  rfl

theorem words_cons_of_isBlank {c : Char} (hc : isBlank c = true) (cs : List Char) :
    words (c :: cs) = words cs :=
  words_append_cons hc [] cs

theorem words_eq_nil_iff : words cs = [] ↔ AllBlank cs := by
  induction cs with
  | nil => simp [words, AllBlank]
  | cons c cs ih =>
    cases hc : isBlank c with
    | true =>
      rw [words_cons_of_isBlank hc, ih, AllBlank, AllBlank, List.forall_mem_cons]
      exact (and_iff_right hc).symm
    | false =>
      refine iff_of_false (words_cons_ne_nil hc cs) ?_
      intro h
      rw [h c List.mem_cons_self] at hc
      cases hc

theorem words_append (h : ∀ c ∈ cs.getLast?, isBlank c = true) (ds : List Char) :
    words (cs ++ ds) = words cs ++ words ds := by
  cases cs using List.reverseRecOn with
  | nil => rfl
  | append_singleton cs c =>
    have hc : isBlank c = true := h c (by simp)
    have hconcat : words (cs ++ [c]) = words cs := by
      rw [words_append_cons hc]
      exact List.append_nil _
    rw [List.append_assoc, List.singleton_append, words_append_cons hc, hconcat]

theorem words_append_right (h : AllBlank after) (cs : List Char) :
    words (cs ++ after) = words cs := by
  cases after with
  | nil => rw [List.append_nil]
  | cons c after =>
    obtain ⟨hc, hafter⟩ := List.forall_mem_cons.1 h
    rw [words_append_cons hc, words_eq_nil_iff.2 hafter, List.append_nil]

end Throughput.Text
