import Mathlib.Tactic.Common
import Roster.Text.Utf8

/-!
# `Roster.Proofs.Text.Utf8`: a text is read back from its bytes

`Utf8.decode_encode` is the round trip. The decoder tries a sequence at two, three and four bytes,
so at each length it has to be shown that the shorter ones do not fit: a lead byte is the lead
byte of one length only (`two_eq_none`, `three_eq_none`). The induction is on the characters, for
any characters that have been read before them; the index of the first byte only counts for
faults.
-/

set_option autoImplicit false

namespace Roster.Text.Utf8

variable {b0 b1 b2 b3 : UInt8} {x0 x1 x2 x3 least : Nat}

/-! ### Bytes by their payload -/

/-- Bytes are compared as numbers. -/
theorem not_lt_of_toNat_le {b n : UInt8} (h : n.toNat ≤ b.toNat) : ¬ b < n :=
  UInt8.not_lt.2 (UInt8.le_iff_toNat_le.2 h)

/-- The payload of a continuation byte. -/
theorem continuation_eq_some (h : b1.toNat = x1 + 0x80) (hx : x1 < 0x40) :
    continuation b1 = some x1 := by
  have hlow : (0x80 : UInt8) ≤ b1 := UInt8.le_iff_toNat_le.2 (by simp; omega)
  have hhigh : b1 < (0xc0 : UInt8) := UInt8.lt_iff_toNat_lt.2 (by simp; omega)
  simp [continuation, hlow, hhigh, h]

/-- A lead byte and a continuation byte with their payloads are read as the character of these. -/
theorem two_eq (h0 : b0.toNat = x0 + 0xc0) (hx : x0 < 0x20) (h1 : continuation b1 = some x1) :
    two b0 b1 = character 0x80 (x0 * 64 + x1) := by
  have hlow : (0xc0 : UInt8) ≤ b0 := UInt8.le_iff_toNat_le.2 (by simp; omega)
  have hhigh : b0 < (0xe0 : UInt8) := UInt8.lt_iff_toNat_lt.2 (by simp; omega)
  simp [two, h1, hlow, hhigh, h0]

/-- The same for a sequence of three bytes. -/
theorem three_eq (h0 : b0.toNat = x0 + 0xe0) (hx : x0 < 0x10) (h1 : continuation b1 = some x1)
    (h2 : continuation b2 = some x2) :
    three b0 b1 b2 = character 0x800 (x0 * 4096 + x1 * 64 + x2) := by
  have hlow : (0xe0 : UInt8) ≤ b0 := UInt8.le_iff_toNat_le.2 (by simp; omega)
  have hhigh : b0 < (0xf0 : UInt8) := UInt8.lt_iff_toNat_lt.2 (by simp; omega)
  simp [three, h1, h2, hlow, hhigh, h0]

/-- The same for a sequence of four bytes. -/
theorem four_eq (h0 : b0.toNat = x0 + 0xf0) (hx : x0 < 0x08) (h1 : continuation b1 = some x1)
    (h2 : continuation b2 = some x2) (h3 : continuation b3 = some x3) :
    four b0 b1 b2 b3 = character 0x10000 (x0 * 262144 + x1 * 4096 + x2 * 64 + x3) := by
  have hlow : (0xf0 : UInt8) ≤ b0 := UInt8.le_iff_toNat_le.2 (by simp; omega)
  have hhigh : b0 < (0xf8 : UInt8) := UInt8.lt_iff_toNat_lt.2 (by simp; omega)
  have hlead : (decide (0xf0 ≤ b0) && decide (b0 < 0xf8)) = true := by simp [hlow, hhigh]
  have hpayload : b0.toNat - 0xf0 = x0 := by omega
  rw [four, h1, h2, h3, Option.bind_eq_bind, Option.bind_some, Option.bind_some, Option.bind_some,
    if_pos hlead, hpayload]

/-- The lead byte of a longer sequence is none of a sequence of two bytes. -/
theorem two_eq_none (h : 0xe0 ≤ b0.toNat) : two b0 b1 = none := by
  have hlead : ¬ b0 < (0xe0 : UInt8) := not_lt_of_toNat_le h
  cases hx : continuation b1 <;> simp [two, hx, hlead]

/-- The lead byte of a longer sequence is none of a sequence of three bytes. -/
theorem three_eq_none (h : 0xf0 ≤ b0.toNat) : three b0 b1 b2 = none := by
  have hlead : ¬ b0 < (0xf0 : UInt8) := not_lt_of_toNat_le h
  cases hx : continuation b1 <;> cases hy : continuation b2 <;> simp [three, hx, hy, hlead]

/-- A character is the one of its code point. -/
theorem character_eq_some {c : Char} {code : Nat} (h : code = c.toNat) (hleast : least ≤ code) :
    character least code = some c := by
  have hvalid : code.isValidChar := h ▸ c.valid
  rw [character, if_pos ⟨hleast, hvalid⟩, h, Char.ofNat_toNat]

/-! ### Characters -/

section
variable {i : Nat} {before : List Char} {rest : Bytes} {c : Char}

/-- A byte below `0x80` is a character, and reading goes on behind it. -/
theorem decodeFrom_one (h : b0.toNat < 0x80) :
    decodeFrom i before (b0 :: rest) = decodeFrom (i + 1) (Char.ofNat b0.toNat :: before) rest := by
  have hlow : b0 < (0x80 : UInt8) := UInt8.lt_iff_toNat_lt.2 h
  rw [decodeFrom.eq_def]
  dsimp only
  rw [if_pos hlow]

/-- A sequence of two bytes that is a character is read as it. The byte in front is no character of
its own. -/
theorem decodeFrom_two (h : 0x80 ≤ b0.toNat) (hc : two b0 b1 = some c) :
    decodeFrom i before (b0 :: b1 :: rest) = decodeFrom (i + 2) (c :: before) rest := by
  have hhigh : ¬ b0 < (0x80 : UInt8) := not_lt_of_toNat_le h
  rw [decodeFrom.eq_def]
  dsimp only
  rw [if_neg hhigh, hc]

/-- A sequence of three bytes that is a character is read as it, since its lead byte leads no
shorter one. -/
theorem decodeFrom_three (h : 0xe0 ≤ b0.toNat) (hc : three b0 b1 b2 = some c) :
    decodeFrom i before (b0 :: b1 :: b2 :: rest) = decodeFrom (i + 3) (c :: before) rest := by
  have hhigh : ¬ b0 < (0x80 : UInt8) := not_lt_of_toNat_le (Nat.le_trans (by decide) h)
  rw [decodeFrom.eq_def]
  dsimp only
  rw [if_neg hhigh, two_eq_none h]
  dsimp only
  rw [hc]

/-- The same for a sequence of four bytes. -/
theorem decodeFrom_four (h : 0xf0 ≤ b0.toNat) (hc : four b0 b1 b2 b3 = some c) :
    decodeFrom i before (b0 :: b1 :: b2 :: b3 :: rest) = decodeFrom (i + 4) (c :: before) rest := by
  have hhigh : ¬ b0 < (0x80 : UInt8) := not_lt_of_toNat_le (Nat.le_trans (by decide) h)
  rw [decodeFrom.eq_def]
  dsimp only
  rw [if_neg hhigh, two_eq_none (by omega)]
  dsimp only
  rw [three_eq_none h]
  dsimp only
  rw [hc]

end

/-- The bytes of a character are read as this character. -/
theorem decodeFrom_encodeChar (c : Char) (i : Nat) (before : List Char) (rest : Bytes) :
    ∃ j, decodeFrom i before (String.utf8EncodeChar c ++ rest)
      = decodeFrom j (c :: before) rest := by
  obtain ⟨v, hv⟩ : ∃ v, v = c.val.toNat := ⟨_, rfl⟩
  have hmax : v < 0x110000 := by
    rcases c.valid with h | h
    · exact hv ▸ Nat.lt_trans h (by decide)
    · exact hv ▸ h.2
  -- A byte below 256 is kept as it is, and one of the tail gives back its six bits.
  have hbyte : ∀ lead < 256, (UInt8.ofNat lead).toNat = lead := fun lead hlead =>
    UInt8.toNat_ofNat_of_lt' hlead
  have htail : ∀ x < 0x40, continuation (UInt8.ofNat (x + 0x80)) = some x := fun x hx =>
    continuation_eq_some (hbyte (x + 0x80) (by omega)) hx
  have hchar : ∀ code least, code = v → least ≤ code → character least code = some c :=
    fun code least hcode hleast => character_eq_some (hcode.trans hv) hleast
  unfold String.utf8EncodeChar
  dsimp only
  rw [← hv]
  -- One, two, three or four bytes, by the size of the code.
  split
  case isTrue h1 =>
    have hlead := hbyte v (by omega)
    have hc : Char.ofNat v = c := hv ▸ Char.ofNat_toNat c
    refine ⟨i + 1, ?_⟩
    rw [List.singleton_append, decodeFrom_one (by omega), hlead, hc]
  split
  case isTrue h1 h2 =>
    have hlead := hbyte (v / 64 % 0x20 + 0xc0) (by omega)
    have hc := two_eq hlead (by omega) (htail (v % 0x40) (by omega))
    rw [hchar _ _ (by omega) (by omega)] at hc
    exact ⟨_, decodeFrom_two (by omega) hc⟩
  split
  case isTrue h1 h2 h3 =>
    have hlead := hbyte (v / 4096 % 0x10 + 0xe0) (by omega)
    have hc := three_eq hlead (by omega) (htail (v / 64 % 0x40) (by omega))
      (htail (v % 0x40) (by omega))
    rw [hchar _ _ (by omega) (by omega)] at hc
    exact ⟨_, decodeFrom_three (by omega) hc⟩
  case isFalse h1 h2 h3 =>
    have hlead := hbyte (v / 262144 % 0x08 + 0xf0) (by omega)
    have hc := four_eq hlead (by omega) (htail (v / 4096 % 0x40) (by omega))
      (htail (v / 64 % 0x40) (by omega)) (htail (v % 0x40) (by omega))
    rw [hchar _ _ (by omega) (by omega)] at hc
    exact ⟨_, decodeFrom_four (by omega) hc⟩

/-! ### Texts -/

/-- The bytes of characters are read as these characters. -/
theorem decodeFrom_flatMap (cs before : List Char) (i : Nat) :
    decodeFrom i before (cs.flatMap String.utf8EncodeChar) = .ok (before.reverse ++ cs) := by
  induction cs generalizing before i with
  | nil => simp [decodeFrom]
  | cons c cs ih =>
    obtain ⟨j, hj⟩ := decodeFrom_encodeChar c i before (cs.flatMap String.utf8EncodeChar)
    rw [List.flatMap_cons, hj, ih, List.reverse_cons, List.append_assoc, List.singleton_append]

/-- A text is read back from its bytes. -/
theorem decode_encode (s : String) : decode (encode s) = .ok s := by
  have hbytes : encode s = s.toList.flatMap String.utf8EncodeChar := by
    show s.toByteArray.data.toList = _
    rw [← String.utf8Encode_toList, List.utf8Encode, List.toList_data_toByteArray]
  rw [decode, hbytes, decodeFrom_flatMap]
  simp [Except.map]

end Roster.Text.Utf8
