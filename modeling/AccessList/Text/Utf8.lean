/-!
# UTF-8

Decoding bytes to characters. Only well-formed sequences are decoded: the shortest form of a
Unicode scalar value, without surrogates.
-/

namespace AccessList.Text.Utf8

/-- The low six bits of a continuation byte. -/
def continuation? (byte : UInt8) : Option Nat :=
  if 0x80 ≤ byte ∧ byte < 0xC0 then some (byte.toNat - 0x80) else none

/-- The character with a code point, if that is a scalar value of at least `least`. A smaller
code point has a shorter sequence and must be written with it. -/
def scalar? (least code : Nat) : Option Char :=
  if least ≤ code ∧ code.isValidChar then some (Char.ofNat code) else none

/-- Decodes a whole byte string, or fails if any part of it is malformed. -/
def decode? : List UInt8 → Option (List Char)
  | [] => some []
  | a :: rest =>
    if a < 0x80 then do
      let chars ← decode? rest
      some (Char.ofNat a.toNat :: chars)
    else if a < 0xC0 then none
    else
      match rest with
      | [] => none
      | b :: rest =>
        if a < 0xE0 then do
          let b ← continuation? b
          let c ← scalar? 0x80 ((a.toNat - 0xC0) * 0x40 + b)
          let chars ← decode? rest
          some (c :: chars)
        else
          match rest with
          | [] => none
          | c :: rest =>
            if a < 0xF0 then do
              let b ← continuation? b
              let c ← continuation? c
              let d ← scalar? 0x800 (((a.toNat - 0xE0) * 0x40 + b) * 0x40 + c)
              let chars ← decode? rest
              some (d :: chars)
            else
              match rest with
              | [] => none
              | d :: rest =>
                if a < 0xF8 then do
                  let b ← continuation? b
                  let c ← continuation? c
                  let d ← continuation? d
                  let e ← scalar? 0x10000
                    ((((a.toNat - 0xF0) * 0x40 + b) * 0x40 + c) * 0x40 + d)
                  let chars ← decode? rest
                  some (e :: chars)
                else none

end AccessList.Text.Utf8
