/-
  Throughput/Proofs/Text/Encoding.lean
  ====================================
  **Encoding and back.**  The bytes of a text decode to that text
  (`decodeUtf8_encodeUtf8`), and are accepted as well-formed (`utf8?_encodeUtf8`).
  Each length of a sequence is one case; the bounds on a first byte that decide
  what may follow it are those between which its characters lie.
-/
import Throughput.Proofs.Text.Decoding

namespace Throughput.Text

/-! ### First bytes -/

theorem lead?_two {a : UInt8} (h : 0xc2 ≤ a.toNat) (h' : a.toNat ≤ 0xdf) :
    lead? a = some ⟨1, 0x80, 0xbf⟩ := by
  simp only [lead?, UInt8.lt_iff_toNat_lt, UInt8.reduceToNat]
  rw [if_neg (by omega), if_neg (by omega), if_pos (by omega)]

theorem lead?_three {a : UInt8} (h : 0xe0 ≤ a.toNat) (h' : a.toNat ≤ 0xef) :
    lead? a = some ⟨2, if a.toNat = 0xe0 then 0xa0 else 0x80,
      if a.toNat = 0xed then 0x9f else 0xbf⟩ := by
  simp only [lead?, UInt8.lt_iff_toNat_lt, ← UInt8.toNat_inj, UInt8.reduceToNat]
  rw [if_neg (by omega), if_neg (by omega), if_neg (by omega)]
  split_ifs <;> first | rfl | omega

theorem lead?_four {a : UInt8} (h : 0xf0 ≤ a.toNat) (h' : a.toNat ≤ 0xf4) :
    lead? a = some ⟨3, if a.toNat = 0xf0 then 0x90 else 0x80,
      if a.toNat = 0xf4 then 0x8f else 0xbf⟩ := by
  simp only [lead?, UInt8.lt_iff_toNat_lt, ← UInt8.toNat_inj, UInt8.reduceToNat]
  rw [if_neg (by omega), if_neg (by omega), if_neg (by omega)]
  split_ifs <;> first | rfl | omega

/-! ### Sequences -/

section Sequences

variable {a b c d : UInt8} {l : Lead} (hl : lead? a = some l)
  (hb : (decide (l.lower ≤ b) && decide (b ≤ l.upper)) = true)
include hl hb

theorem decodeUtf8_two (hf : l.further = 1) (rest : List UInt8) :
    decodeUtf8 (a :: b :: rest) =
      Char.ofNat (payload 32 a * 64 + payload 64 b) :: decodeUtf8 rest := by
  rw [decodeUtf8]
  simp only [hl, hf, hb]
  rfl

theorem decodeUtf8_three (hf : l.further = 2) (hc : isContinuation c = true)
    (rest : List UInt8) :
    decodeUtf8 (a :: b :: c :: rest) =
      Char.ofNat ((payload 16 a * 64 + payload 64 b) * 64 + payload 64 c) ::
        decodeUtf8 rest := by
  rw [decodeUtf8]
  simp only [hl, hf, hb, hc]
  rfl

theorem decodeUtf8_four (hf : l.further = 3) (hc : isContinuation c = true)
    (hd : isContinuation d = true) (rest : List UInt8) :
    decodeUtf8 (a :: b :: c :: d :: rest) =
      Char.ofNat (((payload 8 a * 64 + payload 64 b) * 64 + payload 64 c) * 64 +
        payload 64 d) :: decodeUtf8 rest := by
  rw [decodeUtf8]
  simp only [hl, hf, hb, hc, hd]
  rfl

end Sequences

/-! ### Bytes of a number -/

theorem toNat_byte {n : Nat} (h : n < 256) : (UInt8.ofNat n).toNat = n := by
  rw [UInt8.toNat_ofNat']
  exact Nat.mod_eq_of_lt h

theorem isContinuation_byte (n : Nat) : isContinuation (UInt8.ofNat (n % 64 + 128)) = true := by
  have h : (UInt8.ofNat (n % 64 + 128)).toNat = n % 64 + 128 := toNat_byte (by omega)
  simp only [isContinuation, UInt8.le_iff_toNat_le, h, UInt8.reduceToNat, Bool.and_eq_true,
    decide_eq_true_eq]
  omega

theorem payload_continuation (n : Nat) : payload 64 (UInt8.ofNat (n % 64 + 128)) = n % 64 := by
  rw [payload, toNat_byte (by omega)]
  omega

section Numbers

variable {v : Nat} (rest : List UInt8)

theorem decodeUtf8_oneByte (h : v ≤ 0x7f) :
    decodeUtf8 (UInt8.ofNat v :: rest) = Char.ofNat v :: decodeUtf8 rest := by
  have ha : (UInt8.ofNat v).toNat = v := toNat_byte (by omega)
  have hascii : UInt8.ofNat v < 0x80 := by
    rw [UInt8.lt_iff_toNat_lt, ha]
    exact Nat.lt_succ_of_le h
  rw [decodeUtf8_cons_ascii hascii, ha]

theorem decodeUtf8_twoBytes (h : 0x7f < v) (h' : v ≤ 0x7ff) :
    decodeUtf8 (UInt8.ofNat (v / 64 % 32 + 192) :: UInt8.ofNat (v % 64 + 128) :: rest) =
      Char.ofNat v :: decodeUtf8 rest := by
  have ha : (UInt8.ofNat (v / 64 % 32 + 192)).toNat = v / 64 % 32 + 192 := toNat_byte (by omega)
  have hlead : lead? (UInt8.ofNat (v / 64 % 32 + 192)) = some _ := lead?_two (by omega) (by omega)
  have hvalue : (v / 64 % 32 + 192) % 32 * 64 + v % 64 = v := by omega
  rw [decodeUtf8_two hlead (isContinuation_byte v) rfl, payload_continuation, payload, ha, hvalue]

theorem decodeUtf8_threeBytes (h : 0x7ff < v) (h' : v ≤ 0xffff)
    (hscalar : v < 0xd800 ∨ 0xdfff < v) :
    decodeUtf8 (UInt8.ofNat (v / 4096 % 16 + 224) :: UInt8.ofNat (v / 64 % 64 + 128) ::
      UInt8.ofNat (v % 64 + 128) :: rest) = Char.ofNat v :: decodeUtf8 rest := by
  have ha : (UInt8.ofNat (v / 4096 % 16 + 224)).toNat = v / 4096 % 16 + 224 :=
    toNat_byte (by omega)
  have hb : (UInt8.ofNat (v / 64 % 64 + 128)).toNat = v / 64 % 64 + 128 := toNat_byte (by omega)
  have hlead : lead? (UInt8.ofNat (v / 4096 % 16 + 224)) = some _ :=
    lead?_three (by omega) (by omega)
  have hvalue : ((v / 4096 % 16 + 224) % 16 * 64 + v / 64 % 64) * 64 + v % 64 = v := by omega
  rw [decodeUtf8_three hlead ?_ rfl (isContinuation_byte v), payload_continuation,
    payload_continuation, payload, ha, hvalue]
  simp only [UInt8.le_iff_toNat_le, ha, hb, Bool.and_eq_true, decide_eq_true_eq]
  split_ifs <;> simp only [UInt8.reduceToNat] <;> omega

theorem decodeUtf8_fourBytes (h : 0xffff < v) (h' : v < 0x110000) :
    decodeUtf8 (UInt8.ofNat (v / 262144 % 8 + 240) :: UInt8.ofNat (v / 4096 % 64 + 128) ::
      UInt8.ofNat (v / 64 % 64 + 128) :: UInt8.ofNat (v % 64 + 128) :: rest) =
      Char.ofNat v :: decodeUtf8 rest := by
  have ha : (UInt8.ofNat (v / 262144 % 8 + 240)).toNat = v / 262144 % 8 + 240 :=
    toNat_byte (by omega)
  have hb : (UInt8.ofNat (v / 4096 % 64 + 128)).toNat = v / 4096 % 64 + 128 :=
    toNat_byte (by omega)
  have hlead : lead? (UInt8.ofNat (v / 262144 % 8 + 240)) = some _ :=
    lead?_four (by omega) (by omega)
  have hvalue : (((v / 262144 % 8 + 240) % 8 * 64 + v / 4096 % 64) * 64 + v / 64 % 64) * 64 +
      v % 64 = v := by omega
  rw [decodeUtf8_four hlead ?_ rfl (isContinuation_byte _) (isContinuation_byte v),
    payload_continuation, payload_continuation, payload_continuation, payload, ha, hvalue]
  simp only [UInt8.le_iff_toNat_le, ha, hb, Bool.and_eq_true, decide_eq_true_eq]
  split_ifs <;> simp only [UInt8.reduceToNat] <;> omega

end Numbers

/-! ### Characters and texts -/

/-- A character is decoded from its bytes, whatever follows them. -/
theorem decodeUtf8_encodeChar (c : Char) (rest : List UInt8) :
    decodeUtf8 (String.utf8EncodeChar c ++ rest) = c :: decodeUtf8 rest := by
  have hvalid : c.val.toNat < 0xd800 ∨ 0xdfff < c.val.toNat ∧ c.val.toNat < 0x110000 := c.valid
  have hc : Char.ofNat c.val.toNat = c := Char.ofNat_toNat c
  generalize hv : c.val.toNat = v at hvalid hc
  simp only [String.utf8EncodeChar, hv]
  rw [← hc]
  split_ifs with hone htwo hthree
  · exact decodeUtf8_oneByte rest hone
  · exact decodeUtf8_twoBytes rest (by omega) htwo
  · exact decodeUtf8_threeBytes rest (by omega) hthree (by omega)
  · exact decodeUtf8_fourBytes rest (by omega) (by omega)

/-- **The bytes of a text decode to that text.** -/
theorem decodeUtf8_encodeUtf8 (cs : List Char) : decodeUtf8 (encodeUtf8 cs) = cs := by
  induction cs with
  | nil => rfl
  | cons c cs ih =>
    rw [encodeUtf8, List.flatMap_cons, decodeUtf8_encodeChar]
    exact congrArg _ ih

theorem encodeUtf8_cons_ne_nil (c : Char) (cs : List Char) : encodeUtf8 (c :: cs) ≠ [] := by
  intro hnil
  have hdecoded := decodeUtf8_encodeUtf8 (c :: cs)
  rw [hnil] at hdecoded
  cases hdecoded

/-- An ASCII byte of an encoded text is a character of the text. -/
theorem mem_of_mem_encodeUtf8 {cs : List Char} {a : UInt8} (ha : a < 0x80)
    (h : a ∈ encodeUtf8 cs) : Char.ofNat a.toNat ∈ cs := by
  obtain ⟨before, after, heq⟩ := List.mem_iff_append.1 h
  rw [← decodeUtf8_encodeUtf8 cs, heq, decodeUtf8_append_ascii _ _ ha, decodeUtf8_cons_ascii ha]
  simp

theorem utf8?_encodeUtf8 (cs : List Char) : utf8? (encodeUtf8 cs) = some cs := by
  simp only [utf8?, decodeUtf8_encodeUtf8, if_true]

end Throughput.Text
