/-
  Throughput/Proofs/Text/Decoding.lean
  ====================================
  **ASCII in decoded bytes.**  Decoding never makes an ASCII character out of
  anything but its own byte, at the front (`exists_of_head?_decodeUtf8`) or
  further in (`exists_of_mem_decodeUtf8`), and an ASCII byte always starts
  afresh: whatever stands before it, an unfinished sequence included, is decoded
  as if nothing followed (`decodeUtf8_append_ascii`).  So does any byte behind a
  text that is decoded without a replacement at its end (`decodeUtf8_append`).
-/
import Mathlib.Tactic.SplitIfs
import Throughput.Text.Utf8

namespace Throughput.Text

/-! ### The numbers that sequences encode -/

theorem toNat_ofNat_of_isValidChar {n : Nat} (h : n.isValidChar) :
    (Char.ofNat n).toNat = n := by
  rw [Char.ofNat, dif_pos h]
  rfl

/-- The first bytes, each with what it says about the rest of its sequence. -/
theorem lead?_eq_some {a : UInt8} {l : Lead} (h : lead? a = some l) :
    (a.toNat < 0x80 ∧ l = ⟨0, 0x80, 0xbf⟩) ∨
    (0xc2 ≤ a.toNat ∧ a.toNat ≤ 0xdf ∧ l = ⟨1, 0x80, 0xbf⟩) ∨
    (a.toNat = 0xe0 ∧ l = ⟨2, 0xa0, 0xbf⟩) ∨
    (a.toNat = 0xed ∧ l = ⟨2, 0x80, 0x9f⟩) ∨
    (0xe1 ≤ a.toNat ∧ a.toNat ≤ 0xef ∧ a.toNat ≠ 0xed ∧ l = ⟨2, 0x80, 0xbf⟩) ∨
    (a.toNat = 0xf0 ∧ l = ⟨3, 0x90, 0xbf⟩) ∨
    (0xf1 ≤ a.toNat ∧ a.toNat ≤ 0xf3 ∧ l = ⟨3, 0x80, 0xbf⟩) ∨
    (a.toNat = 0xf4 ∧ l = ⟨3, 0x80, 0x8f⟩) := by
  simp only [lead?, UInt8.lt_iff_toNat_lt, ← UInt8.toNat_inj, UInt8.reduceToNat] at h
  split_ifs at h <;> cases h <;> simp <;> omega

theorem bounds_of_lead? {a : UInt8} {l : Lead} (h : lead? a = some l) :
    0x80 ≤ l.lower ∧ l.upper ≤ 0xbf := by
  rcases lead?_eq_some h with ⟨-, rfl⟩ | ⟨-, -, rfl⟩ | ⟨-, rfl⟩ | ⟨-, rfl⟩ | ⟨-, -, -, rfl⟩ |
    ⟨-, rfl⟩ | ⟨-, -, rfl⟩ | ⟨-, rfl⟩ <;> decide

theorem further_le_of_lead? {a : UInt8} {l : Lead} (h : lead? a = some l) : l.further ≤ 3 := by
  rcases lead?_eq_some h with ⟨-, rfl⟩ | ⟨-, -, rfl⟩ | ⟨-, rfl⟩ | ⟨-, rfl⟩ | ⟨-, -, -, rfl⟩ |
    ⟨-, rfl⟩ | ⟨-, -, rfl⟩ | ⟨-, rfl⟩ <;> decide

theorem payload_lt (b : UInt8) : payload 64 b < 64 := Nat.mod_lt _ (by decide)

/-- What the first two bytes of a sequence leave open: no overlong form, no
    surrogate and no number above `0x10ffff`. -/
theorem scalar_bounds {a b : UInt8} {l : Lead} (h : lead? a = some l)
    (hb : ¬(!(decide (l.lower ≤ b) && decide (b ≤ l.upper))) = true) :
    (l.further = 1 → 0x80 ≤ payload 32 a * 64 + payload 64 b ∧
      payload 32 a * 64 + payload 64 b < 0x800) ∧
    (l.further = 2 → 0x20 ≤ payload 16 a * 64 + payload 64 b ∧
      (payload 16 a * 64 + payload 64 b < 0x360 ∨
        0x380 ≤ payload 16 a * 64 + payload 64 b ∧ payload 16 a * 64 + payload 64 b < 0x400)) ∧
    (l.further = 3 → 0x10 ≤ payload 8 a * 64 + payload 64 b ∧
      payload 8 a * 64 + payload 64 b < 0x110) := by
  simp only [Bool.not_eq_true', Bool.not_eq_false, Bool.and_eq_true, decide_eq_true_eq,
    UInt8.le_iff_toNat_le] at hb
  simp only [payload]
  rcases lead?_eq_some h with ⟨ha, rfl⟩ | ⟨ha, ha', rfl⟩ | ⟨ha, rfl⟩ | ⟨ha, rfl⟩ |
    ⟨ha, ha', hne, rfl⟩ | ⟨ha, rfl⟩ | ⟨ha, ha', rfl⟩ | ⟨ha, rfl⟩ <;>
  simp only [UInt8.reduceToNat] at hb <;> simp <;> omega

/-! ### ASCII at the front -/

theorem decodeUtf8_cons_ascii {a : UInt8} (ha : a < 0x80) (rest : List UInt8) :
    decodeUtf8 (a :: rest) = Char.ofNat a.toNat :: decodeUtf8 rest := by
  have hlead : lead? a = some ⟨0, 0x80, 0xbf⟩ := by simp [lead?, ha]
  rw [decodeUtf8]
  simp [hlead]

/-- An ASCII character in front is the byte in front. -/
theorem exists_of_head?_decodeUtf8 {bytes : List UInt8} {c : Char}
    (h : (decodeUtf8 bytes).head? = some c) (hc : c.toNat < 0x80) :
    ∃ a rest, bytes = a :: rest ∧ a.toNat = c.toNat := by
  have hne : ∀ {n : Nat} {cs : List Char}, 0x80 ≤ n → n.isValidChar →
      ¬(Char.ofNat n :: cs).head? = some c := by
    intro n cs hn hvalid hhead
    cases hhead
    rw [toNat_ofNat_of_isValidChar hvalid] at hc
    omega
  have hreplaced : ∀ cs : List Char, ¬(replacement :: cs).head? = some c := fun cs =>
    hne (by decide) (by decide)
  revert h
  fun_cases decodeUtf8 bytes with
  | case1 => intro h; cases h
  | case3 a rest l hl hf =>
    -- the one case of an ASCII byte
    intro h
    cases h
    refine ⟨a, rest, rfl, (toNat_ofNat_of_isValidChar (.inl ?_)).symm⟩
    have := a.toNat_lt
    omega
  | case6 a l hl hf b rest hb hf₁ =>
    have := (scalar_bounds hl hb).1 hf₁
    intro h
    refine absurd h (hne this.1 (.inl ?_))
    omega
  | case9 a l hl hf b hb hf₁ d rest hd hf₂ =>
    have := (scalar_bounds hl hb).2.1 hf₂
    have := payload_lt d
    intro h
    refine absurd h (hne ?_ ?_)
    · omega
    · simp only [Nat.isValidChar]; omega
  | case12 a l hl hf b hb hf₁ d hd hf₂ e rest he =>
    have hf₃ : l.further = 3 := by
      have := further_le_of_lead? hl
      omega
    have := (scalar_bounds hl hb).2.2 hf₃
    have := payload_lt d
    have := payload_lt e
    intro h
    refine absurd h (hne ?_ ?_)
    · omega
    · simp only [Nat.isValidChar]; omega
  | _ =>
    intro h
    exact absurd h (hreplaced _)

/-! ### ASCII inside -/

/-- Behind its first character a text is what a shorter ending of the bytes encodes. -/
theorem exists_tail_decodeUtf8 {bytes : List UInt8} {c : Char} {cs : List Char}
    (h : decodeUtf8 bytes = c :: cs) :
    ∃ rest, rest <:+ bytes ∧ rest.length < bytes.length ∧ decodeUtf8 rest = cs := by
  revert h
  fun_cases decodeUtf8 bytes with
  | case1 => intro h; cases h
  | case4 | case7 | case10 =>
    -- the bytes break off: nothing follows the replacement
    intro h
    cases h
    exact ⟨[], List.nil_suffix, by simp, rfl⟩
  | _ =>
    intro h
    cases h
    refine ⟨_, ?_, ?_, rfl⟩
    · simp [List.suffix_cons_iff]
    · simp only [List.length_cons]
      omega

/-- An ASCII character of a text stands for one of its bytes. -/
theorem exists_of_mem_decodeUtf8 {bytes : List UInt8} {c : Char} (h : c ∈ decodeUtf8 bytes)
    (hc : c.toNat < 0x80) : ∃ a ∈ bytes, a.toNat = c.toNat := by
  induction hn : bytes.length using Nat.strongRecOn generalizing bytes with
  | ind n ih =>
    obtain ⟨first, cs, hcs⟩ := List.exists_cons_of_ne_nil (List.ne_nil_of_mem h)
    rw [hcs] at h
    rcases List.mem_cons.1 h with rfl | h
    · obtain ⟨a, rest, rfl, ha⟩ := exists_of_head?_decodeUtf8 (by rw [hcs]; rfl) hc
      exact ⟨a, List.mem_cons_self, ha⟩
    · obtain ⟨rest, hsuffix, hlength, hrest⟩ := exists_tail_decodeUtf8 hcs
      obtain ⟨a, ha, hac⟩ := ih _ (hn ▸ hlength) (hrest ▸ h) rfl
      exact ⟨a, hsuffix.subset ha, hac⟩

/-! ### Texts behind one another -/

theorem isContinuation_of_ascii {b : UInt8} (hb : b < 0x80) : isContinuation b = false := by
  have hle : ¬(0x80 : UInt8) ≤ b := UInt8.not_le.2 hb
  simp [isContinuation, hle]

/-- The second byte of a sequence is one that continues. -/
theorem not_within_of_not_isContinuation {a b : UInt8} {l : Lead} (h : lead? a = some l)
    (hb : isContinuation b = false) : (decide (l.lower ≤ b) && decide (b ≤ l.upper)) = false := by
  rw [Bool.eq_false_iff] at hb ⊢
  intro hwithin
  simp only [Bool.and_eq_true, decide_eq_true_eq] at hwithin
  apply hb
  simp only [isContinuation, Bool.and_eq_true, decide_eq_true_eq]
  exact ⟨UInt8.le_trans (bounds_of_lead? h).1 hwithin.1,
    UInt8.le_trans hwithin.2 (bounds_of_lead? h).2⟩

/-- Decoding starts afresh behind a text that was decoded to its end, and at a byte that
    continues no sequence. -/
theorem decodeUtf8_append_cons {xs : List UInt8} {a : UInt8}
    (h : (∀ c ∈ (decodeUtf8 xs).getLast?, c ≠ replacement) ∨ isContinuation a = false)
    (ys : List UInt8) : decodeUtf8 (xs ++ a :: ys) = decodeUtf8 xs ++ decodeUtf8 (a :: ys) := by
  have hrest {c : Char} {cs : List Char}
      (h : (∀ d ∈ (c :: cs).getLast?, d ≠ replacement) ∨ isContinuation a = false) :
      (∀ d ∈ cs.getLast?, d ≠ replacement) ∨ isContinuation a = false := by
    refine h.imp_left fun hlast d hd => hlast d ?_
    rw [List.getLast?_cons, Option.mem_def.1 hd]
    rfl
  have hbroken (h : (∀ d ∈ [replacement].getLast?, d ≠ replacement) ∨ isContinuation a = false) :
      isContinuation a = false :=
    h.resolve_left fun hlast => hlast replacement rfl rfl
  fun_induction decodeUtf8 xs with
  | case1 => rfl
  | case2 b rest hl ih =>
    rw [List.cons_append, decodeUtf8]
    simp [hl, ih (hrest h)]
  | case3 b rest l hl hf ih =>
    rw [List.cons_append, decodeUtf8]
    simp [hl, hf, ih (hrest h)]
  | case4 b l hl hf =>
    -- `xs` breaks off after the first byte: the one that follows is out of range
    rw [List.cons_append, decodeUtf8]
    simp [hl, hf, not_within_of_not_isContinuation hl (hbroken h)]
  | case5 b l hl hf c rest hc ih =>
    have hih := ih (hrest h)
    rw [List.cons_append] at hih
    rw [List.cons_append, decodeUtf8]
    simp [hl, hf, hc, hih]
  | case6 b l hl hf c rest hc hf₁ ih =>
    rw [List.cons_append, decodeUtf8]
    simp [hl, hc, hf₁, ih (hrest h)]
  | case7 b l hl hf c hc hf₁ =>
    -- here and in `case10` a later byte is missing: the one that follows continues nothing
    rw [List.cons_append, decodeUtf8]
    simp [hl, hf, hc, hf₁, hbroken h]
  | case8 b l hl hf c hc hf₁ d rest hd ih =>
    have hih := ih (hrest h)
    rw [List.cons_append] at hih
    rw [List.cons_append, decodeUtf8]
    simp [hl, hf, hc, hf₁, hd, hih]
  | case9 b l hl hf c hc hf₁ d rest hd hf₂ ih =>
    rw [List.cons_append, decodeUtf8]
    simp [hl, hc, hf₂, hd, ih (hrest h)]
  | case10 b l hl hf c hc hf₁ d hd hf₂ =>
    rw [List.cons_append, decodeUtf8]
    simp [hl, hf, hc, hf₁, hf₂, hd, hbroken h]
  | case11 b l hl hf c hc hf₁ d hd hf₂ e rest he ih =>
    have hih := ih (hrest h)
    rw [List.cons_append] at hih
    rw [List.cons_append, decodeUtf8]
    simp [hl, hf, hc, hf₁, hf₂, hd, he, hih]
  | case12 b l hl hf c hc hf₁ d hd hf₂ e rest he ih =>
    rw [List.cons_append, decodeUtf8]
    simp [hl, hf, hc, hf₁, hf₂, hd, he, ih (hrest h)]

/-- An ASCII byte ends the sequence before it, finished or not. -/
theorem decodeUtf8_append_ascii (xs ys : List UInt8) {a : UInt8} (ha : a < 0x80) :
    decodeUtf8 (xs ++ a :: ys) = decodeUtf8 xs ++ decodeUtf8 (a :: ys) :=
  decodeUtf8_append_cons (.inr (isContinuation_of_ascii ha)) ys

/-- Behind a text that was decoded to its end, decoding starts afresh. -/
theorem decodeUtf8_append {xs : List UInt8}
    (h : ∀ c ∈ (decodeUtf8 xs).getLast?, c ≠ replacement) (ys : List UInt8) :
    decodeUtf8 (xs ++ ys) = decodeUtf8 xs ++ decodeUtf8 ys := by
  cases ys with
  | nil => rw [List.append_nil, decodeUtf8, List.append_nil]
  | cons a ys => exact decodeUtf8_append_cons (.inl h) ys

end Throughput.Text
