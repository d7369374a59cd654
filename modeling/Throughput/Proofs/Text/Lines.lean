/-
  Throughput/Proofs/Text/Lines.lean
  =================================
  **Cutting text and bytes.**  `pieces` is the standard library's `splitOnP`, so
  its laws apply to lines; the lines of a log are all its pieces but an empty
  last one (`splitOn_eq_byteLines_append`), and a log that breaks off has the
  lines up to its last newline (`endedLines_eq_byteLines`).  The rest says how
  trimming an end deals with the first and the last element.
-/
import Mathlib.Data.List.DropRight
import Throughput.Text.Lines

namespace Throughput.Text

/-! ### Cutting -/

variable {α : Type} (p : α → Bool)

theorem pieces_eq_splitOnP (xs : List α) : pieces p xs = xs.splitOnP p := by
  induction xs with
  | nil => rw [pieces_nil, List.splitOnP_nil]
  | cons x xs ih =>
    rw [pieces_cons, List.splitOnP_cons_eq_if_modifyHead, ih]
    split
    · rfl
    · cases h : xs.splitOnP p with
      | nil => exact absurd h (List.splitOnP_ne_nil p xs)
      | cons piece rest => rfl

theorem pieces_ne_nil (xs : List α) : pieces p xs ≠ [] := by
  rw [pieces_eq_splitOnP]
  exact List.splitOnP_ne_nil p xs

/-- Every cut makes one piece more. -/
theorem length_pieces (xs : List α) : (pieces p xs).length = xs.countP p + 1 := by
  induction xs with
  | nil => rfl
  | cons x xs ih =>
    rw [pieces_cons, List.countP_cons]
    cases p x with
    | true => simp [ih]
    | false =>
      obtain ⟨piece, rest, hpieces⟩ := List.exists_cons_of_ne_nil (pieces_ne_nil p xs)
      rw [hpieces] at ih ⊢
      simpa [prepend] using ih

theorem flatten_prepend (x : α) (pieces : List (List α)) :
    (prepend x pieces).flatten = x :: pieces.flatten := by
  cases pieces <;> rfl

/-- Cutting leaves out what is cut at, and nothing else. -/
theorem flatten_pieces (xs : List α) :
    (pieces p xs).flatten = xs.filter fun x => !p x := by
  induction xs with
  | nil => rfl
  | cons x xs ih =>
    rw [pieces_cons, List.filter_cons]
    cases p x with
    | true => exact ih
    | false =>
      rw [← ih]
      exact flatten_prepend x _

/-- In front of a cut lies one piece if no other element is cut at. -/
theorem pieces_append_cons {xs : List α} (hxs : ∀ x ∈ xs, p x = false) {x : α} (hx : p x = true)
    (ys : List α) : pieces p (xs ++ x :: ys) = xs :: pieces p ys := by
  rw [pieces_eq_splitOnP, List.splitOnP_append_cons_of_forall_mem hxs x hx, pieces_eq_splitOnP]

theorem pieces_eq_singleton {xs : List α} (hxs : ∀ x ∈ xs, p x = false) : pieces p xs = [xs] := by
  rw [pieces_eq_splitOnP, List.splitOnP_eq_singleton hxs]

/-- Without the separator in it a text is not cut. -/
theorem pieces_of_not_mem [BEq α] [LawfulBEq α] {x : α} {xs : List α} (h : x ∉ xs) :
    pieces (· == x) xs = [xs] := by
  apply pieces_eq_singleton
  intro y hy
  rw [beq_eq_false_iff_ne]
  rintro rfl
  exact h hy

/-- What is not cut at all is its only piece. -/
theorem eq_of_pieces_eq_singleton {xs piece : List α} (h : pieces p xs = [piece]) : xs = piece := by
  have hcount : xs.countP p = 0 := by
    have hlength := length_pieces p xs
    rw [h, List.length_singleton] at hlength
    omega
  have hkept : xs.filter (fun x => !p x) = xs := by
    rw [List.filter_eq_self]
    intro x hx
    simpa using List.countP_eq_zero.1 hcount x hx
  have hflatten := flatten_pieces p xs
  rw [h, List.flatten_singleton, hkept] at hflatten
  exact hflatten.symm

theorem pieces_append {x : α} (hx : p x = true) (xs ys : List α) :
    pieces p (xs ++ x :: ys) = pieces p xs ++ pieces p ys := by
  simp only [pieces_eq_splitOnP]
  exact List.splitOnP_append_cons xs ys hx

theorem mem_pieces_uncut {xs piece : List α} (h : piece ∈ pieces p xs) :
    ∀ x ∈ piece, p x = false := by
  induction xs generalizing piece with
  | nil =>
    rw [pieces_nil, List.mem_singleton] at h
    simp [h]
  | cons x xs ih =>
    rw [pieces_cons] at h
    cases hx : p x with
    | true =>
      rw [hx, if_pos rfl] at h
      rcases List.mem_cons.1 h with rfl | h
      · simp
      · exact ih h
    | false =>
      rw [hx, if_neg (by decide)] at h
      cases hpieces : pieces p xs with
      | nil => exact absurd hpieces (pieces_ne_nil p xs)
      | cons first rest =>
        rw [hpieces, prepend] at h
        rw [hpieces] at ih
        rcases List.mem_cons.1 h with rfl | h
        · exact List.forall_mem_cons.2 ⟨hx, ih (by simp)⟩
        · exact ih (by simp [h])

/-- Pieces that are joined are cut apart again. -/
theorem pieces_intercalate {x : α} (hx : p x = true) {parts : List (List α)} (hne : parts ≠ [])
    (h : ∀ part ∈ parts, ∀ y ∈ part, p y = false) :
    pieces p ([x].intercalate parts) = parts := by
  induction parts with
  | nil => exact absurd rfl hne
  | cons part rest ih =>
    cases rest with
    | nil => rw [List.intercalate_singleton, pieces_eq_singleton _ (h part (by simp))]
    | cons next rest =>
      rw [List.intercalate_cons_cons, List.append_assoc, List.singleton_append,
        pieces_append_cons _ (h part (by simp)) hx,
        ih (by simp) fun part hpart => h part (by simp [hpart])]

theorem words_cons_ne_nil {c : Char} (hc : isBlank c = false) (cs : List Char) :
    words (c :: cs) ≠ [] := by
  unfold words
  rw [pieces_cons, hc]
  cases h : pieces isBlank cs with
  | nil => exact absurd h (pieces_ne_nil isBlank cs)
  | cons piece rest => simp [prepend]

/-! ### Trimming an end -/

theorem dropEnding_eq_rdropWhile (xs : List α) : dropEnding p xs = xs.rdropWhile p := rfl

variable {p}

theorem dropEnding_concat_of_pos {x : α} (hx : p x = true) (xs : List α) :
    dropEnding p (xs ++ [x]) = dropEnding p xs := by
  rw [dropEnding_eq_rdropWhile, List.rdropWhile_concat_pos _ _ _ hx]
  rfl

theorem dropEnding_concat_of_neg {x : α} (hx : p x = false) (xs : List α) :
    dropEnding p (xs ++ [x]) = xs ++ [x] := by
  rw [dropEnding_eq_rdropWhile, List.rdropWhile_concat_neg]
  simp [hx]

theorem dropEnding_cons_of_neg {x : α} (hx : p x = false) (xs : List α) :
    dropEnding p (x :: xs) = x :: dropEnding p xs := by
  induction xs using List.reverseRecOn with
  | nil => exact dropEnding_concat_of_neg hx []
  | append_singleton xs y ih =>
    rw [← List.cons_append]
    cases hy : p y with
    | true => rw [dropEnding_concat_of_pos hy, dropEnding_concat_of_pos hy, ih]
    | false => rw [dropEnding_concat_of_neg hy, dropEnding_concat_of_neg hy]; rfl

theorem dropEnding_cons_eq_nil_or (x : α) (xs : List α) :
    dropEnding p (x :: xs) = [] ∨ ∃ rest, dropEnding p (x :: xs) = x :: rest := by
  have hprefix : dropEnding p (x :: xs) <+: x :: xs := List.rdropWhile_prefix _ _
  cases h : dropEnding p (x :: xs) with
  | nil => exact .inl rfl
  | cons y rest =>
    rw [h] at hprefix
    exact .inr ⟨rest, by rw [(List.cons_prefix_cons.1 hprefix).1]⟩

/-! ### Lines of bytes -/

theorem splitOn_newline (bytes : List UInt8) :
    bytes.splitOn newline = pieces (· == newline) bytes := by
  rw [pieces_eq_splitOnP, List.splitOn_eq_splitOnP]

theorem pieces_append_newline (log rest : List UInt8) :
    pieces (· == newline) (log ++ newline :: rest) =
      pieces (· == newline) log ++ pieces (· == newline) rest :=
  pieces_append _ (by simp) log rest

/-- The lines of a log and, behind a newline at the very end, an empty piece. -/
theorem splitOn_eq_byteLines_append (bytes : List UInt8) :
    ∃ tail, (tail = [] ∨ tail = [[]]) ∧ bytes.splitOn newline = byteLines bytes ++ tail := by
  rw [splitOn_newline, byteLines]
  split
  next h => exact ⟨[[]], .inr rfl, (List.dropLast_append_getLast? _ h).symm⟩
  next => exact ⟨[], .inl rfl, (List.append_nil _).symm⟩

/-- In front of a newline every piece is a line. -/
theorem byteLines_append_newline (log rest : List UInt8) :
    byteLines (log ++ newline :: rest) = pieces (· == newline) log ++ byteLines rest := by
  have hne : pieces (· == newline) rest ≠ [] := pieces_ne_nil _ rest
  rw [byteLines, byteLines, pieces_append_newline, List.getLast?_append_of_ne_nil _ hne]
  split
  · rw [List.dropLast_append_of_ne_nil hne]
  · rfl

theorem byteLines_newline_cons (rest : List UInt8) :
    byteLines (newline :: rest) = [] :: byteLines rest :=
  byteLines_append_newline [] rest

/-- Lines that are all ended are lines in front of any others. -/
theorem byteLines_append {log : List UInt8} (hlog : ∀ b ∈ log.getLast?, b = newline)
    (rest : List UInt8) : byteLines (log ++ rest) = byteLines log ++ byteLines rest := by
  cases log using List.reverseRecOn with
  | nil => rfl
  | append_singleton init b =>
    obtain rfl : b = newline := hlog b (by simp)
    have hended : byteLines (init ++ [newline]) = pieces (· == newline) init := by
      rw [byteLines_append_newline]
      exact List.append_nil _
    rw [List.append_assoc, List.singleton_append, byteLines_append_newline, hended]

/-- A line is cut off by what follows it, which is nothing or starts with its newline. -/
theorem byteLines_line_append {line rest : List UInt8} (hline : newline ∉ line) (hne : line ≠ [])
    (hrest : ∀ b ∈ rest.head?, b = newline) :
    byteLines (line ++ rest) = line :: (byteLines rest).tail := by
  have hsingle := pieces_of_not_mem hline
  cases rest with
  | nil =>
    rw [List.append_nil, byteLines, hsingle, if_neg (by simpa using hne)]
    rfl
  | cons b rest =>
    obtain rfl : b = newline := hrest b rfl
    rw [byteLines_append_newline, hsingle, byteLines_newline_cons]
    rfl

theorem eq_dropReturn_or (line : List UInt8) :
    line = dropReturn line ∨ line = dropReturn line ++ [carriageReturn] := by
  unfold dropReturn
  split
  next h => exact .inr (List.dropLast_append_getLast? _ h).symm
  next => exact .inl rfl

/-- A line without any carriage returns at its end. -/
def dropReturns (line : List UInt8) : List UInt8 := dropEnding (· == carriageReturn) line

theorem dropReturns_concat_carriageReturn (line : List UInt8) :
    dropReturns (line ++ [carriageReturn]) = dropReturns line :=
  dropEnding_concat_of_pos (by decide) line

theorem dropReturns_concat_of_ne {b : UInt8} (hb : b ≠ carriageReturn) (line : List UInt8) :
    dropReturns (line ++ [b]) = line ++ [b] :=
  dropEnding_concat_of_neg (by simpa using hb) line

/-- A log with a carriage return put in front of every newline. -/
def withReturns (log : List UInt8) : List UInt8 :=
  log.flatMap fun b => if b = newline then [carriageReturn, newline] else [b]

/-- Every line keeps its bytes and gets a carriage return at most. -/
theorem splitOn_withReturns (log : List UInt8) :
    List.Forall₂ (fun line line' => line' = line ∨ line' = line ++ [carriageReturn])
      (log.splitOn newline) ((withReturns log).splitOn newline) := by
  simp only [splitOn_newline]
  induction log with
  | nil => exact .cons (.inl rfl) .nil
  | cons b log ih =>
    by_cases hb : b = newline
    · rw [hb]
      exact .cons (.inr rfl) ih
    · have hcons : withReturns (b :: log) = b :: withReturns log := by simp [withReturns, hb]
      have hneg : (b == newline) = false := by simpa using hb
      simp only [hcons, pieces_cons, hneg, Bool.false_eq_true, if_false]
      generalize pieces (· == newline) log = lines at ih
      generalize pieces (· == newline) (withReturns log) = lines' at ih
      cases ih with
      | nil => exact .cons (.inl rfl) .nil
      | cons hfirst hrest =>
        refine .cons ?_ hrest
        rcases hfirst with rfl | rfl
        · exact .inl rfl
        · exact .inr rfl

/-- Two logs of which the second has a carriage return more at the ends of some lines. -/
def ReturnsAdded (log log' : List UInt8) : Prop :=
  List.Forall₂ (fun line line' => line' = line ∨ line' = line ++ [carriageReturn])
    (log.splitOn newline) (log'.splitOn newline)

theorem returnsAdded_withReturns (log : List UInt8) : ReturnsAdded log (withReturns log) :=
  splitOn_withReturns log

/-! ### A log that breaks off -/

/-- The bytes of a log up to its last newline. -/
def wholeLines (bytes : List UInt8) : List UInt8 := dropEnding (· != newline) bytes

/-- What follows the last newline is no line of a log that breaks off in it. -/
theorem endedLines_append_newline {rest : List UInt8} (hrest : newline ∉ rest)
    (log : List UInt8) :
    endedLines (log ++ newline :: rest) = pieces (· == newline) log := by
  rw [endedLines, pieces_append_newline, pieces_of_not_mem hrest,
    List.dropLast_concat]

/-- Breaking off leaves the lines of the log cut behind its last newline. -/
theorem endedLines_eq_byteLines (bytes : List UInt8) :
    endedLines bytes = byteLines (wholeLines bytes) := by
  have hsplit : wholeLines bytes ++ bytes.rtakeWhile (· != newline) = bytes :=
    List.rdropWhile_append_rtakeWhile
  have hrest : newline ∉ bytes.rtakeWhile (· != newline) := by
    intro hmem
    simpa using List.mem_rtakeWhile_imp hmem
  generalize bytes.rtakeWhile (· != newline) = rest at hsplit hrest
  rcases List.eq_nil_or_concat' (wholeLines bytes) with hnil | ⟨log, b, hconcat⟩
  · -- not a single line was ended
    rw [hnil, List.nil_append] at hsplit
    rw [hnil, ← hsplit, endedLines, pieces_of_not_mem hrest]
    rfl
  · have hlast : ∀ h : wholeLines bytes ≠ [], ¬((wholeLines bytes).getLast h != newline) = true :=
      List.rdropWhile_last_not _ bytes
    obtain rfl : b = newline := by simpa [hconcat] using hlast
    rw [hconcat, byteLines_append_newline]
    rw [hconcat, List.append_assoc, List.singleton_append] at hsplit
    rw [← hsplit, endedLines_append_newline hrest]
    exact (List.append_nil _).symm

end Throughput.Text
