/-
  Throughput/Proofs/Json/Strings.lean
  ===================================
  **Strings in JSON text.**  What is written for a character is read as one
  piece, whatever stands behind it (`exists_piece_escapeChar`): neither a quote
  nor a backslash nor a control character is taken for part of the syntax.  So
  a string of any characters is read back (`stringBody?_append`).
-/
import Mathlib.Data.List.Forall2
import Mathlib.Tactic.SplitIfs
import Throughput.Json.Reader

namespace Throughput.Json

/-! ### One character -/

/-- The pieces that are put together to a character: itself, or the number of a
    control character. -/
inductive Piece.Writes : Piece → Char → Prop where
  | char (c : Char) : Writes (.char c) c
  | unit {c : Char} (h : c.toNat < 32) : Writes (.unit c.toNat) c

/-- What is read once a piece was found in front. -/
def withPiece (piece : Piece) : Option (List Piece × List Char) → Option (List Piece × List Char) :=
  Option.map fun (pieces, rest) => (piece :: pieces, rest)

variable (cs : List Char)

theorem stringPieces?_short {e c : Char} (h : shortEscape? e = some c) :
    stringPieces? ('\\' :: e :: cs) = withPiece (.char c) (stringPieces? cs) := by
  have hu : e ≠ 'u' := by
    rintro rfl
    cases h
  rw [stringPieces?.eq_4 _ _ fun _ _ _ _ _ he => absurd he hu, h]
  cases stringPieces? cs <;> rfl

/-- The four digits behind `\u`. -/
theorem exists_fourHex {n : Nat} (h : n < 32) :
    ∃ a b c d, padLeft 4 (Text.hexDigits n) = [a, b, c, d] ∧ fourHex? a b c d = some n := by
  have hdigits : ∀ n < 32, let high := if n < 16 then '0' else '1'
      padLeft 4 (Text.hexDigits n) = ['0', '0', high, Nat.digitChar (n % 16)] ∧
        fourHex? '0' '0' high (Nat.digitChar (n % 16)) = some n := by
    decide +kernel
  exact ⟨_, _, _, _, hdigits n h⟩

theorem stringPieces?_control {n : Nat} (h : n < 32) :
    stringPieces? ('\\' :: 'u' :: (padLeft 4 (Text.hexDigits n) ++ cs)) =
      withPiece (.unit n) (stringPieces? cs) := by
  obtain ⟨a, b, c, d, htext, hvalue⟩ := exists_fourHex h
  rw [htext, List.cons_append, List.cons_append, List.cons_append, List.cons_append,
    List.nil_append, stringPieces?.eq_3, hvalue]
  cases stringPieces? cs <;> rfl

theorem stringPieces?_plain {c : Char} (hquote : c ≠ '"') (hslash : c ≠ '\\')
    (hcontrol : ¬c.toNat < 32) :
    stringPieces? (c :: cs) = withPiece (.char c) (stringPieces? cs) := by
  rw [stringPieces?.eq_5 _ _ hquote (fun _ _ _ _ _ h => absurd h hslash)
    (fun _ _ h => absurd h hslash), if_neg hcontrol]
  cases stringPieces? cs <;> rfl

/-- What is written for a character is read as a piece for it. -/
theorem exists_piece_escapeChar (c : Char) :
    ∃ piece : Piece, piece.Writes c ∧
      stringPieces? (escapeChar c ++ cs) = withPiece piece (stringPieces? cs) := by
  unfold escapeChar
  split_ifs with hquote hslash hline hreturn htab hback hfeed hcontrol
  -- the seven characters with an escape of their own
  · subst hquote; exact ⟨_, .char _, stringPieces?_short cs rfl⟩
  · subst hslash; exact ⟨_, .char _, stringPieces?_short cs rfl⟩
  · subst hline; exact ⟨_, .char _, stringPieces?_short cs rfl⟩
  · subst hreturn; exact ⟨_, .char _, stringPieces?_short cs rfl⟩
  · subst htab; exact ⟨_, .char _, stringPieces?_short cs rfl⟩
  · subst hback; exact ⟨_, .char _, stringPieces?_short cs rfl⟩
  · subst hfeed; exact ⟨_, .char _, stringPieces?_short cs rfl⟩
  · exact ⟨_, .unit hcontrol, stringPieces?_control cs hcontrol⟩
  · exact ⟨_, .char _, stringPieces?_plain cs hquote hslash hcontrol⟩

/-! ### Whole strings -/

theorem exists_pieces_flatMap (text rest : List Char) :
    ∃ pieces : List Piece, List.Forall₂ Piece.Writes pieces text ∧
      stringPieces? (text.flatMap escapeChar ++ '"' :: rest) = some (pieces, rest) := by
  induction text with
  | nil => exact ⟨[], .nil, stringPieces?.eq_2 rest⟩
  | cons c text ih =>
    obtain ⟨pieces, hpieces, hrest⟩ := ih
    obtain ⟨piece, hpiece, hc⟩ :=
      exists_piece_escapeChar (text.flatMap escapeChar ++ '"' :: rest) c
    refine ⟨piece :: pieces, .cons hpiece hpieces, ?_⟩
    rw [List.flatMap_cons, List.append_assoc, hc, hrest]
    rfl

/-- Numbers of control characters are no halves of a pair, so pieces that stand for
    characters are put together one by one. -/
theorem assemble?_eq_some {pieces : List Piece} {text : List Char}
    (h : List.Forall₂ Piece.Writes pieces text) : assemble? pieces = some text := by
  induction h with
  | nil => rfl
  | @cons piece c pieces text hpiece _ ih =>
    cases hpiece with
    | char => rw [assemble?.eq_2, ih, Option.map_some]
    | unit hc =>
      have hhigh : ¬(0xd800 ≤ c.toNat ∧ c.toNat < 0xdc00) := by omega
      have hlow : ¬(0xdc00 ≤ c.toNat ∧ c.toNat < 0xe000) := by omega
      have hneither : ¬(0xd800 ≤ c.toNat ∧ c.toNat < 0xe000) := by omega
      rcases pieces with _ | ⟨⟨next⟩ | ⟨next⟩, pieces⟩
      · rw [assemble?.eq_4 _ _ (by simp), if_neg hneither, ih, Option.map_some, Char.ofNat_toNat]
      · rw [assemble?.eq_4 _ _ (by simp), if_neg hneither, ih, Option.map_some, Char.ofNat_toNat]
      · rw [assemble?.eq_3, if_neg hhigh, if_neg hlow, ih, Option.map_some, Char.ofNat_toNat]

/-- **A string of any characters is read back**, up to its closing quote. -/
theorem stringBody?_append (text : String) (rest : List Char) :
    stringBody? (text.toList.flatMap escapeChar ++ '"' :: rest) = some (some text, rest) := by
  obtain ⟨pieces, hpieces, hrest⟩ := exists_pieces_flatMap text.toList rest
  simp only [stringBody?, hrest, assemble?_eq_some hpieces, Option.bind_eq_bind,
    Option.bind_some, Option.map_some, String.ofList_toList]
  rfl

end Throughput.Json
