import AccessList.Proofs.LineCutting
import AccessList.Text.Utf8

/-!
# Encoded text

The bytes of a text in UTF-8 are decoded to the text. The bytes of line endings belong to line
endings only, so the bytes of a text are cut where the text is, and the lines of the bytes are the
bytes of the lines.
-/

namespace AccessList.Text.Utf8

/-- The bytes of a text. -/
def encode (text : List Char) : List UInt8 := text.flatMap String.utf8EncodeChar

/-- The bytes of a text in two parts are those of the parts, one behind the other. -/
theorem encode_append (text later : List Char) :
    encode (text ++ later) = encode text ++ encode later := List.flatMap_append

/-- The bytes of the first character come first. -/
theorem encode_cons (c : Char) (text : List Char) :
    encode (c :: text) = String.utf8EncodeChar c ++ encode text := List.flatMap_cons

/-- A string is stored as the bytes of its characters. -/
theorem toList_toUTF8 (s : String) : s.toUTF8.data.toList = encode s.toList := by
  rw [String.toUTF8, ← String.utf8Encode_toList, List.utf8Encode]
  simp [encode]

/-! ## Decoding -/

/-- A number below 256 is the value of a byte. -/
theorem toNat_ofNat {n : Nat} (h : n < 256) : (UInt8.ofNat n).toNat = n :=
  UInt8.toNat_ofNat_of_lt' h

/-- A continuation byte holds six bits. -/
theorem continuation?_ofNat {n : Nat} (h : n < 64) :
    continuation? (UInt8.ofNat (n + 128)) = some n := by
  have hbyte := toNat_ofNat (show n + 128 < 256 by omega)
  simp only [continuation?, UInt8.le_iff_toNat_le, UInt8.lt_iff_toNat_lt, hbyte,
    UInt8.reduceToNat]
  rw [if_pos (by omega), Nat.add_sub_cancel]

/-- A code point that is not too small for its sequence stands for its character. -/
theorem scalar?_toNat {least : Nat} {c : Char} (h : least ≤ c.toNat) :
    scalar? least c.toNat = some c := by
  rw [scalar?, if_pos ⟨h, c.valid⟩, Char.ofNat_toNat]

/-- A byte below 128 is a character of its own. -/
theorem decode?_one {n : Nat} (hn : n < 128) (rest : List UInt8) :
    decode? (UInt8.ofNat n :: rest) = (decode? rest).map (Char.ofNat n :: ·) := by
  have hbyte := toNat_ofNat (show n < 256 by omega)
  conv => lhs; unfold decode?
  simp only [UInt8.lt_iff_toNat_lt, hbyte, UInt8.reduceToNat]
  rw [if_pos hn, Option.map_eq_bind]
  rfl

/-- Two bytes hold eleven bits. -/
theorem decode?_two {x y : Nat} (hx : x < 32) (hy : y < 64) (rest : List UInt8) :
    decode? (UInt8.ofNat (x + 192) :: UInt8.ofNat (y + 128) :: rest) =
      (scalar? 0x80 (x * 0x40 + y)).bind fun c => (decode? rest).map (c :: ·) := by
  have hbyte := toNat_ofNat (show x + 192 < 256 by omega)
  conv => lhs; unfold decode?
  simp only [UInt8.lt_iff_toNat_lt, hbyte, UInt8.reduceToNat, continuation?_ofNat hy,
    Nat.add_sub_cancel, Option.map_eq_bind]
  rw [if_neg (by omega), if_neg (by omega), if_pos (by omega)]
  rfl

/-- Three bytes hold sixteen bits. -/
theorem decode?_three {x y z : Nat} (hx : x < 16) (hy : y < 64) (hz : z < 64)
    (rest : List UInt8) :
    decode? (UInt8.ofNat (x + 224) :: UInt8.ofNat (y + 128) :: UInt8.ofNat (z + 128) :: rest) =
      (scalar? 0x800 ((x * 0x40 + y) * 0x40 + z)).bind fun c =>
        (decode? rest).map (c :: ·) := by
  have hbyte := toNat_ofNat (show x + 224 < 256 by omega)
  conv => lhs; unfold decode?
  simp only [UInt8.lt_iff_toNat_lt, hbyte, UInt8.reduceToNat, continuation?_ofNat hy,
    continuation?_ofNat hz, Nat.add_sub_cancel, Option.map_eq_bind]
  rw [if_neg (by omega), if_neg (by omega), if_neg (by omega), if_pos (by omega)]
  rfl

/-- Four bytes hold twenty-one bits. -/
theorem decode?_four {x y z w : Nat} (hx : x < 8) (hy : y < 64) (hz : z < 64) (hw : w < 64)
    (rest : List UInt8) :
    decode? (UInt8.ofNat (x + 240) :: UInt8.ofNat (y + 128) :: UInt8.ofNat (z + 128) ::
        UInt8.ofNat (w + 128) :: rest) =
      (scalar? 0x10000 (((x * 0x40 + y) * 0x40 + z) * 0x40 + w)).bind fun c =>
        (decode? rest).map (c :: ·) := by
  have hbyte := toNat_ofNat (show x + 240 < 256 by omega)
  conv => lhs; unfold decode?
  simp only [UInt8.lt_iff_toNat_lt, hbyte, UInt8.reduceToNat, continuation?_ofNat hy,
    continuation?_ofNat hz, continuation?_ofNat hw, Nat.add_sub_cancel, Option.map_eq_bind]
  rw [if_neg (by omega), if_neg (by omega), if_neg (by omega), if_neg (by omega),
    if_pos (by omega)]
  rfl

/-- The bytes of a character, by the size of its code point. -/
theorem utf8EncodeChar_eq (c : Char) :
    String.utf8EncodeChar c =
      if c.toNat ≤ 127 then [UInt8.ofNat c.toNat]
      else if c.toNat ≤ 2047 then
        [UInt8.ofNat (c.toNat / 64 % 32 + 192), UInt8.ofNat (c.toNat % 64 + 128)]
      else if c.toNat ≤ 65535 then
        [UInt8.ofNat (c.toNat / 4096 % 16 + 224), UInt8.ofNat (c.toNat / 64 % 64 + 128),
          UInt8.ofNat (c.toNat % 64 + 128)]
      else
        [UInt8.ofNat (c.toNat / 262144 % 8 + 240), UInt8.ofNat (c.toNat / 4096 % 64 + 128),
          UInt8.ofNat (c.toNat / 64 % 64 + 128), UInt8.ofNat (c.toNat % 64 + 128)] := rfl

/-- The bytes of a character are decoded to the character. -/
theorem decode?_utf8EncodeChar_append (c : Char) (rest : List UInt8) :
    decode? (String.utf8EncodeChar c ++ rest) = (decode? rest).map (c :: ·) := by
  have hvalid : c.toNat < 0xD800 ∨ 0xDFFF < c.toNat ∧ c.toNat < 0x110000 := c.valid
  have hlow : ∀ m, m % 64 < 64 := fun m => Nat.mod_lt m (by decide)
  rw [utf8EncodeChar_eq]
  split
  · next h =>
    rw [List.cons_append, List.nil_append, decode?_one (by omega), Char.ofNat_toNat]
  · split
    · next h =>
      have hcode : c.toNat / 64 % 32 * 0x40 + c.toNat % 64 = c.toNat := by omega
      simp only [List.cons_append, List.nil_append]
      rw [decode?_two (Nat.mod_lt _ (by decide)) (hlow _), hcode, scalar?_toNat (by omega)]
      rfl
    · split
      · next h =>
        have hcode : (c.toNat / 4096 % 16 * 0x40 + c.toNat / 64 % 64) * 0x40 + c.toNat % 64 =
            c.toNat := by omega
        simp only [List.cons_append, List.nil_append]
        rw [decode?_three (Nat.mod_lt _ (by decide)) (hlow _) (hlow _), hcode,
          scalar?_toNat (by omega)]
        rfl
      · have hcode : ((c.toNat / 262144 % 8 * 0x40 + c.toNat / 4096 % 64) * 0x40 +
            c.toNat / 64 % 64) * 0x40 + c.toNat % 64 = c.toNat := by omega
        simp only [List.cons_append, List.nil_append]
        rw [decode?_four (Nat.mod_lt _ (by decide)) (hlow _) (hlow _) (hlow _), hcode,
          scalar?_toNat (by omega)]
        rfl

/-- The bytes of a text are decoded to the text. -/
theorem decode?_encode (text : List Char) : decode? (encode text) = some text := by
  induction text with
  | nil => rfl
  | cons c text ih => rw [encode_cons, decode?_utf8EncodeChar_append, ih, Option.map_some]

/-! ## Bytes of line endings -/

/-- A byte below 128 is only used for the character of that number. -/
theorem toNat_eq_of_mem_utf8EncodeChar {c : Char} {byte : UInt8}
    (h : byte ∈ String.utf8EncodeChar c) (hbyte : byte.toNat < 128) : byte.toNat = c.toNat := by
  rw [utf8EncodeChar_eq] at h
  split at h
  · next hc =>
    rw [List.mem_singleton.mp h]
    exact toNat_ofNat (by omega)
  · have hhigh : ∀ n, 128 ≤ n → n < 256 → byte = UInt8.ofNat n → False := by
      rintro n hn hn' rfl
      rw [toNat_ofNat hn'] at hbyte
      omega
    exfalso
    split at h
    · simp only [List.mem_cons, List.not_mem_nil, or_false] at h
      rcases h with h | h <;> exact hhigh _ (by omega) (by omega) h
    · split at h
      · simp only [List.mem_cons, List.not_mem_nil, or_false] at h
        rcases h with h | h | h <;> exact hhigh _ (by omega) (by omega) h
      · simp only [List.mem_cons, List.not_mem_nil, or_false] at h
        rcases h with h | h | h | h <;> exact hhigh _ (by omega) (by omega) h

/-- The bytes of a character have an ASCII byte only if the character is the one of that byte. -/
theorem eq_of_mem_utf8EncodeChar {c ascii : Char} {byte : UInt8}
    (h : byte ∈ String.utf8EncodeChar c) (hbyte : byte.toNat = ascii.toNat)
    (hascii : ascii.toNat < 128) : c = ascii := by
  have heq := toNat_eq_of_mem_utf8EncodeChar h (hbyte ▸ hascii)
  rw [← Char.ofNat_toNat c, ← heq, hbyte, Char.ofNat_toNat]

/-- Every character has bytes. -/
theorem utf8EncodeChar_ne_nil (c : Char) : String.utf8EncodeChar c ≠ [] := by
  rw [utf8EncodeChar_eq]
  split_ifs <;> exact List.cons_ne_nil _ _

/-- There is no line feed in the bytes of a text without one. -/
theorem feed_notMem_encode {line : List Char} (h : LineEnding.chars.feed ∉ line) :
    LineEnding.bytes.feed ∉ encode line := by
  intro hmem
  obtain ⟨c, hc, hbyte⟩ := List.mem_flatMap.mp hmem
  obtain rfl : c = '\n' := eq_of_mem_utf8EncodeChar hbyte rfl (by decide)
  exact h hc

/-- The bytes of a text end with a carriage return only if the text does. -/
theorem getLast?_encode_ne {line : List Char}
    (h : line.getLast? ≠ some LineEnding.chars.carriageReturn) :
    (encode line).getLast? ≠ some LineEnding.bytes.carriageReturn := by
  intro hlast
  rcases List.eq_nil_or_concat line with rfl | ⟨front, c, rfl⟩
  · cases hlast
  · have hone : encode [c] = String.utf8EncodeChar c := List.flatMap_singleton _ _
    rw [List.concat_eq_append, encode_append, hone,
      List.getLast?_append_of_ne_nil _ (utf8EncodeChar_ne_nil c)] at hlast
    obtain rfl : c = '\r' :=
      eq_of_mem_utf8EncodeChar (List.mem_of_getLast? hlast) rfl (by decide)
    exact h (by simp [LineEnding.chars])

/-- A text that is not empty has bytes. -/
theorem encode_ne_nil {line : List Char} (h : line ≠ []) : encode line ≠ [] := by
  cases line with
  | nil => exact absurd rfl h
  | cons c line =>
    rw [encode_cons]
    exact List.append_ne_nil_of_left_ne_nil (utf8EncodeChar_ne_nil c) _

/-- The bytes of a text are cut where the text is. -/
theorem isCut_encode {text : List Char} {cut : List (List Char)} (h : IsCut .chars text cut) :
    IsCut .bytes (encode text) (cut.map encode) := by
  induction h with
  | nil => exact .nil
  | unfinished hne hline => exact .unfinished (encode_ne_nil hne) (feed_notMem_encode hline)
  | feed hline hlast _ ih =>
    rw [encode_append]
    exact .feed (feed_notMem_encode hline) (getLast?_encode_ne hlast) ih
  | returnFeed hline _ ih =>
    rw [encode_append]
    exact .returnFeed (feed_notMem_encode hline) ih

/-- The lines of the bytes of a text are the bytes of its lines. -/
theorem lines_encode (text : List Char) :
    lines .bytes (encode text) = (lines .chars text).map encode :=
  ((isCut_encode (isCut_lines .chars text)).eq_lines (by decide)).symm

end AccessList.Text.Utf8
