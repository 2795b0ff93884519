import RiteVm.Bytes

/-!
Contract: text as UTF-8 bytes.

Owns:
- the bytes of a text;
- the text of arbitrary bytes, where each longest malformed beginning of a
  character becomes one replacement character.
-/

namespace RiteVm.Text

/-- The UTF-8 bytes of a text. -/
def utf8 (text : String) : Bytes := text.toUTF8.data

namespace Utf8

/-- How a character that begins with a given byte goes on: the range of its second
byte and how many bytes follow that one. -/
structure Lead where
  low : UInt8
  high : UInt8
  more : Nat
deriving DecidableEq, Repr

/-- The continuation that a first byte of 128 or more asks for, if it can begin a
character. Overlong forms, surrogates and numbers above 0x10ffff are excluded by the
range of the second byte. -/
def lead? (byte : UInt8) : Option Lead :=
  if 0xc2 ≤ byte ∧ byte ≤ 0xdf then some ⟨0x80, 0xbf, 0⟩
  else if byte = 0xe0 then some ⟨0xa0, 0xbf, 1⟩
  else if byte = 0xed then some ⟨0x80, 0x9f, 1⟩
  else if 0xe1 ≤ byte ∧ byte ≤ 0xef then some ⟨0x80, 0xbf, 1⟩
  else if byte = 0xf0 then some ⟨0x90, 0xbf, 2⟩
  else if 0xf1 ≤ byte ∧ byte ≤ 0xf3 then some ⟨0x80, 0xbf, 2⟩
  else if byte = 0xf4 then some ⟨0x80, 0x8f, 2⟩
  else none

/-- Whether a byte can stand behind the second byte of a character. -/
def isContinuation (byte : UInt8) : Bool := 0x80 ≤ byte && byte ≤ 0xbf

/-- The six bits that a continuation byte carries. -/
def payload (byte : UInt8) : Nat := byte.toNat % 64

/-- The characters of the bytes, `none` for each malformed piece. -/
def decode : List UInt8 → List (Option Char)
  | [] => []
  | b0 :: r0 =>
    if b0 < 0x80 then some (Char.ofNat b0.toNat) :: decode r0
    else match lead? b0 with
      | none => none :: decode r0
      | some lead =>
        match r0 with
        | [] => [none]
        | b1 :: r1 =>
          if lead.low ≤ b1 ∧ b1 ≤ lead.high then
            match lead.more with
            | 0 => some (Char.ofNat (b0.toNat % 32 * 64 + payload b1)) :: decode r1
            | more + 1 =>
              match r1 with
              | [] => [none]
              | b2 :: r2 =>
                if isContinuation b2 then
                  if more = 0 then
                    some (Char.ofNat (b0.toNat % 16 * 4096 + payload b1 * 64 + payload b2))
                      :: decode r2
                  else
                    match r2 with
                    | [] => [none]
                    | b3 :: r3 =>
                      if isContinuation b3 then
                        some (Char.ofNat (b0.toNat % 8 * 262144 + payload b1 * 4096
                          + payload b2 * 64 + payload b3)) :: decode r3
                      else none :: decode (b3 :: r3)
                else none :: decode (b2 :: r2)
          else none :: decode (b1 :: r1)

end Utf8

/-- The text of the bytes, with U+FFFD in place of each malformed piece. -/
def lossy (bytes : Bytes) : String :=
  String.ofList ((Utf8.decode bytes.toList).map (·.getD '\ufffd'))

end RiteVm.Text
