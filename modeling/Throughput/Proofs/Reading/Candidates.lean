/-
  Throughput/Proofs/Reading/Candidates.lean
  =========================================
  **Candidate lines.**  Whether a line is a reading shows in its first byte, and
  carriage returns at its end make no difference, so deciding on raw bytes and
  trimming before decoding are as good as decoding every line.  A reading that
  is not recognized has kept at least one field.
-/
import Throughput.Proofs.Text.Decoding
import Throughput.Proofs.Text.Lines
import Throughput.Reading

namespace Throughput.Reading

open Text

/-! ### Candidates of text -/

theorem not_isLineEnd_of_isMarker {c : Char} (h : isMarker c = true) : isLineEnd c = false := by
  simp only [isMarker, Bool.or_eq_true, beq_iff_eq] at h
  rcases h with rfl | rfl <;> decide

theorem not_isBlank_of_isMarker {c : Char} (h : isMarker c = true) : isBlank c = false := by
  simp only [isMarker, Bool.or_eq_true, beq_iff_eq] at h
  rcases h with rfl | rfl <;> decide

/-- The first character decides; line ends are trimmed only behind it. -/
theorem parse?_eq (d : Delimiter) (text : List Char) :
    parse? d text =
      if text.head?.any isMarker then some (ofLine d (dropEnding isLineEnd text)) else none := by
  cases text with
  | nil => rfl
  | cons c cs =>
    cases hc : isMarker c with
    | true => simp [parse?, dropEnding_cons_of_neg (not_isLineEnd_of_isMarker hc), hc]
    | false =>
      rcases dropEnding_cons_eq_nil_or (p := isLineEnd) c cs with h | ⟨rest, h⟩ <;>
        simp [parse?, h, hc]

theorem parse?_congr {t₁ t₂ : List Char} (d : Delimiter)
    (h : dropEnding isLineEnd t₁ = dropEnding isLineEnd t₂) : parse? d t₁ = parse? d t₂ := by
  simp only [parse?, h]

theorem fields_cons_ne_nil (d : Delimiter) {c : Char} (hc : isMarker c = true) (cs : List Char) :
    d.fields (c :: cs) ≠ [] := by
  cases d with
  | comma => exact pieces_ne_nil _ _
  | whitespace => exact words_cons_ne_nil (not_isBlank_of_isMarker hc) cs

theorem fields_ne_nil_of_parse? {d : Delimiter} {text : List Char} {r : Reading}
    {fields : List String} (h : parse? d text = some r) (hr : r.verdict = .unrecognized fields) :
    fields ≠ [] := by
  unfold parse? at h
  dsimp only at h
  split at h
  next => cases h
  next c cs hline =>
    split at h
    next hc =>
      cases h
      simp only [ofLine] at hr
      split at hr
      next => cases hr
      next =>
        cases hr
        rw [hline]
        simpa using fields_cons_ne_nil d hc cs
    next => cases h

/-! ### Candidates of bytes -/

/-- The bytes `r` and `w` are the two that a marker is decoded from. -/
theorem isCandidate_eq (line : List UInt8) :
    isCandidate line = (decodeUtf8 line).head?.any isMarker := by
  rw [Bool.eq_iff_iff, Option.any_eq_true]
  constructor
  · intro h
    cases line with
    | nil => cases h
    | cons b rest =>
      simp only [isCandidate, Bool.or_eq_true, beq_iff_eq] at h
      have hascii : b < 0x80 := by rcases h with rfl | rfl <;> decide
      rw [decodeUtf8_cons_ascii hascii]
      refine ⟨_, rfl, ?_⟩
      rcases h with rfl | rfl <;> decide
  · rintro ⟨c, hhead, hc⟩
    simp only [isMarker, Bool.or_eq_true, beq_iff_eq] at hc
    have hascii : c.toNat < 0x80 := by rcases hc with rfl | rfl <;> decide
    obtain ⟨b, rest, rfl, hb⟩ := exists_of_head?_decodeUtf8 hhead hascii
    simp only [isCandidate, Bool.or_eq_true, beq_iff_eq, ← UInt8.toNat_inj, hb]
    rcases hc with rfl | rfl <;> decide

theorem isCandidate_eq_isSome_parse? (d : Delimiter) (line : List UInt8) :
    isCandidate line = (parse? d (decodeUtf8 line)).isSome := by
  rw [isCandidate_eq, parse?_eq]
  split
  next h => rw [h]; rfl
  next h => simpa using h

def ofBytes? (d : Delimiter) (line : List UInt8) : Option Reading := parse? d (decodeUtf8 line)

theorem ofBytes?_nil (d : Delimiter) : ofBytes? d [] = none := rfl

theorem ofBytes?_concat_carriageReturn (d : Delimiter) (line : List UInt8) :
    ofBytes? d (line ++ [carriageReturn]) = ofBytes? d line := by
  refine parse?_congr d ?_
  rw [decodeUtf8_append_ascii line [] (by decide), decodeUtf8_cons_ascii (by decide)]
  exact dropEnding_concat_of_pos (by decide) _

theorem ofBytes?_dropReturn (d : Delimiter) (line : List UInt8) :
    ofBytes? d (dropReturn line) = ofBytes? d line := by
  rcases eq_dropReturn_or line with h | h
  · rw [← h]
  · rw [h, ofBytes?_concat_carriageReturn, ← h]

theorem ofBytes?_dropReturns (d : Delimiter) (line : List UInt8) :
    ofBytes? d (dropReturns line) = ofBytes? d line := by
  induction line using List.reverseRecOn with
  | nil => rfl
  | append_singleton line b ih =>
    by_cases hb : b = carriageReturn
    · rw [hb, dropReturns_concat_carriageReturn, ih, ofBytes?_concat_carriageReturn]
    · rw [dropReturns_concat_of_ne hb]

/-! ### The candidates of a log -/

/-- The candidate lines of a log without the carriage returns at their ends. -/
def candidateLines (log : List UInt8) : List (List UInt8) :=
  ((log.splitOn newline).filter isCandidate).map dropReturns

/-- Bytes without a candidate line. -/
def IsChatter (bytes : List UInt8) : Prop :=
  ∀ line ∈ bytes.splitOn newline, isCandidate line = false

instance (bytes : List UInt8) : Decidable (IsChatter bytes) :=
  inferInstanceAs (Decidable (∀ line ∈ bytes.splitOn newline, isCandidate line = false))

theorem filterMap_candidateLines (d : Delimiter) (log : List UInt8) :
    (candidateLines log).filterMap (ofBytes? d) =
      (log.splitOn newline).filterMap (ofBytes? d) := by
  rw [candidateLines, List.filterMap_map, List.filterMap_filter]
  refine List.filterMap_congr fun line _ => ?_
  rw [Function.comp_apply, ofBytes?_dropReturns]
  split
  next => rfl
  next h =>
    rw [isCandidate_eq_isSome_parse? d, Option.not_isSome_iff_eq_none] at h
    exact h.symm

@[simp] theorem candidateLines_nil : candidateLines [] = [] := rfl

theorem candidateLines_append (xs ys : List UInt8) :
    candidateLines (xs ++ newline :: ys) = candidateLines xs ++ candidateLines ys := by
  simp only [candidateLines, List.splitOn_append_cons_self, List.filter_append, List.map_append]

theorem candidateLines_concat_newline (log : List UInt8) :
    candidateLines (log ++ [newline]) = candidateLines log := by
  rw [candidateLines_append, candidateLines_nil, List.append_nil]

theorem candidateLines_of_isChatter {bytes : List UInt8} (h : IsChatter bytes) :
    candidateLines bytes = [] := by
  rw [candidateLines, List.map_eq_nil_iff, List.filter_eq_nil_iff]
  intro line hline
  simp [h line hline]

theorem candidateLines_intercalate (blocks : List (List UInt8)) :
    candidateLines ([newline].intercalate blocks) = blocks.flatMap candidateLines := by
  induction blocks with
  | nil => rfl
  | cons block blocks ih =>
    cases blocks with
    | nil => simp
    | cons next rest =>
      rw [List.intercalate_cons_cons, List.append_assoc, List.singleton_append,
        candidateLines_append, ih, ← List.flatMap_cons]

/-- A log falls apart into files that end where one of its lines does. -/
theorem candidateLines_flatten_append (parts : List (List UInt8)) (last : List UInt8) :
    candidateLines ((parts.map (· ++ [newline])).flatten ++ last) =
      (parts.map (· ++ [newline]) ++ [last]).flatMap candidateLines := by
  induction parts with
  | nil => simp
  | cons part parts ih =>
    simp only [List.map_cons, List.flatten_cons, List.append_assoc, List.cons_append,
      List.nil_append, List.flatMap_cons, candidateLines_append, candidateLines_nil, ih]

theorem isCandidate_concat_carriageReturn (line : List UInt8) :
    isCandidate (line ++ [carriageReturn]) = isCandidate line := by
  cases line <;> rfl

theorem candidateLines_withReturns (log : List UInt8) :
    candidateLines (withReturns log) = candidateLines log := by
  unfold candidateLines
  have hlines := splitOn_withReturns log
  generalize log.splitOn newline = lines at hlines ⊢
  generalize (withReturns log).splitOn newline = lines' at hlines ⊢
  induction hlines with
  | nil => rfl
  | cons hfirst _ ih =>
    rcases hfirst with rfl | rfl
    · simp only [List.filter_cons, apply_ite (List.map dropReturns), List.map_cons, ih]
    · simp only [List.filter_cons, isCandidate_concat_carriageReturn,
        apply_ite (List.map dropReturns), List.map_cons, dropReturns_concat_carriageReturn, ih]

end Throughput.Reading
