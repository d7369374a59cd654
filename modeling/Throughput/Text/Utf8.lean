/-
  Throughput/Text/Utf8.lean
  =========================
  **Reading bytes as text.**  Well-formed UTF-8 is decoded; where it is not
  well formed, each longest beginning of a sequence that cannot be completed
  becomes one replacement character, and decoding goes on behind it.
-/

namespace Throughput.Text

/-- The character that stands for bytes which encode none. -/
def replacement : Char := Char.ofNat 0xfffd

/-- What the first byte of a sequence says about the rest of it: the number of
    further bytes and the range of the second byte.  The range keeps out
    overlong forms, surrogates and numbers above `0x10ffff`. -/
structure Lead where
  further : Nat
  lower : UInt8
  upper : UInt8
  deriving DecidableEq

def lead? (b : UInt8) : Option Lead :=
  if b < 0x80 then some ⟨0, 0x80, 0xbf⟩
  else if b < 0xc2 then none
  else if b < 0xe0 then some ⟨1, 0x80, 0xbf⟩
  else if b = 0xe0 then some ⟨2, 0xa0, 0xbf⟩
  else if b = 0xed then some ⟨2, 0x80, 0x9f⟩
  else if b < 0xf0 then some ⟨2, 0x80, 0xbf⟩
  else if b = 0xf0 then some ⟨3, 0x90, 0xbf⟩
  else if b < 0xf4 then some ⟨3, 0x80, 0xbf⟩
  else if b = 0xf4 then some ⟨3, 0x80, 0x8f⟩
  else none

def isContinuation (b : UInt8) : Bool := 0x80 ≤ b && b ≤ 0xbf

/-- The bits that a byte of a sequence contributes. -/
def payload (mask : Nat) (b : UInt8) : Nat := b.toNat % mask

/-- Decodes bytes, with replacement characters where they are not UTF-8. -/
def decodeUtf8 : List UInt8 → List Char
  | [] => []
  | a :: rest =>
    match lead? a with
    | none => replacement :: decodeUtf8 rest
    | some l =>
      if l.further = 0 then Char.ofNat a.toNat :: decodeUtf8 rest
      else match rest with
        | [] => [replacement]
        | b :: rest₂ =>
          if !(l.lower ≤ b && b ≤ l.upper) then replacement :: decodeUtf8 (b :: rest₂)
          else if l.further = 1 then
            Char.ofNat (payload 32 a * 64 + payload 64 b) :: decodeUtf8 rest₂
          else match rest₂ with
            | [] => [replacement]
            | c :: rest₃ =>
              if !isContinuation c then replacement :: decodeUtf8 (c :: rest₃)
              else if l.further = 2 then
                Char.ofNat ((payload 16 a * 64 + payload 64 b) * 64 + payload 64 c) ::
                  decodeUtf8 rest₃
              else match rest₃ with
                | [] => [replacement]
                | d :: rest₄ =>
                  if !isContinuation d then replacement :: decodeUtf8 (d :: rest₄)
                  else
                    Char.ofNat (((payload 8 a * 64 + payload 64 b) * 64 + payload 64 c) * 64 +
                      payload 64 d) :: decodeUtf8 rest₄
  termination_by structural bytes => bytes

def encodeUtf8 (cs : List Char) : List UInt8 := cs.flatMap String.utf8EncodeChar

/-- The text that bytes encode, if they are well-formed UTF-8. -/
def utf8? (bytes : List UInt8) : Option (List Char) :=
  let cs := decodeUtf8 bytes
  if encodeUtf8 cs = bytes then some cs else none

end Throughput.Text
