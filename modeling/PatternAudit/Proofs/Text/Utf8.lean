/-
Texts that are written as bytes and read again.

The bytes of a text are those of its characters, one after the other (`bytes_eq`), and the
lossy reading takes them apart again: of the bytes of a character, and whatever comes after
them, it reads the character and leaves the rest (`nextChar_encoded`). So no text is changed by
being written as bytes and read (`decodeLossy_bytes`). The ranges that `leadRange` allows are
exactly those that a character can have, which is where surrogates and overlong forms would
fail.

Bytes that are no text are read as well, and there the ASCII bytes are what can be relied on:
each is read as its own character, whatever stands around it (`decodeLossyChars_append`).
-/
import Mathlib.Data.List.Basic
import PatternAudit.Text.Utf8

set_option autoImplicit false

namespace PatternAudit.Text

/-! ## The bytes of a text -/

theorem toList_loop (bs : ByteArray) (i : Nat) (found : List UInt8) :
    ByteArray.toList.loop bs i found = found.reverse ++ bs.data.toList.drop i := by
  fun_induction ByteArray.toList.loop bs i found with
  | case1 i found hlt ih =>
    have hi : i < bs.data.toList.length := hlt
    have hget : bs.get! i = bs.data.toList[i] := getElem!_pos bs.data i hlt
    rw [ih, hget, List.reverse_cons, List.append_assoc, List.singleton_append,
      ← List.drop_eq_getElem_cons hi]
  | case2 i found hend =>
    have hpast : bs.data.toList.length ≤ i := Nat.le_of_not_lt hend
    rw [List.drop_eq_nil_of_le hpast, List.append_nil]

/-- The bytes of a text are those of its characters, in order. -/
theorem bytes_eq (s : String) : bytes s = s.toList.flatMap String.utf8EncodeChar := by
  have hbytes : s.toUTF8 = (s.toList.flatMap String.utf8EncodeChar).toByteArray :=
    String.utf8Encode_toList.symm
  rw [bytes, hbytes, ByteArray.toList, toList_loop, List.toList_data_toByteArray]
  rfl

/-! ## Single characters

The bytes of a character are made of numbers, and are compared as bytes. -/

/-- What holds of the first 256 numbers, as bytes, holds of every byte. -/
theorem forall_byte {p : UInt8 → Prop} (h : ∀ n < 256, p (UInt8.ofNat n)) (b : UInt8) : p b := by
  have hb := h b.toNat b.toNat_lt
  rwa [UInt8.ofNat_toNat] at hb

theorem toNat_ofNat_of_lt {n : Nat} (h : n < 256) : (UInt8.ofNat n).toNat = n := by
  rw [UInt8.toNat_ofNat', Nat.mod_eq_of_lt h]

/-- What a leading byte allows, by its number. At either end of what three or four bytes can
say, the range of the second byte is narrower. -/
theorem leadRange_eq (b : UInt8) :
    leadRange b =
      if 0xC2 ≤ b.toNat ∧ b.toNat ≤ 0xDF then some (0x80, 0xBF, 0)
      else if 0xE0 ≤ b.toNat ∧ b.toNat ≤ 0xEF then
        some (if b.toNat = 0xE0 then 0xA0 else 0x80, if b.toNat = 0xED then 0x9F else 0xBF, 1)
      else if 0xF0 ≤ b.toNat ∧ b.toNat ≤ 0xF4 then
        some (if b.toNat = 0xF0 then 0x90 else 0x80, if b.toNat = 0xF4 then 0x8F else 0xBF, 2)
      else none := by
  revert b
  exact forall_byte (by decide +kernel)

theorem isContinuation_ofNat_iff {n : Nat} (h : n < 256) :
    isContinuation (UInt8.ofNat n) = true ↔ 128 ≤ n ∧ n < 192 := by
  simp only [isContinuation, UInt8.le_iff_toNat_le, toNat_ofNat_of_lt h, Bool.and_eq_true,
    decide_eq_true_eq]
  exact and_congr_right' Nat.lt_succ_iff.symm

/-- A continuation byte carries six bits. -/
theorem takeContinuation_ofNat {k : Nat} (hk : k < 64) (n acc : Nat) (bs : List UInt8) :
    takeContinuation (n + 1) acc (UInt8.ofNat (k + 128) :: bs)
      = takeContinuation n (acc * 64 + k) bs := by
  have hbyte : (UInt8.ofNat (k + 128)).toNat = k + 128 := toNat_ofNat_of_lt (by omega)
  have hcontinues : isContinuation (UInt8.ofNat (k + 128)) = true :=
    (isContinuation_ofNat_iff (by omega)).2 (by omega)
  rw [takeContinuation, if_pos hcontinues, hbyte]
  congr 2
  omega

/-- A leading byte and a second byte in its range begin a character. -/
theorem nextChar_of_lead {b : UInt8} {lo hi : UInt8} {more k : Nat} {bs : List UInt8}
    (hb : 0x80 ≤ b.toNat) (hlead : leadRange b = some (lo, hi, more))
    (hk : lo.toNat ≤ k + 128 ∧ k + 128 ≤ hi.toNat) (hfits : k < 64) :
    nextChar b (UInt8.ofNat (k + 128) :: bs)
      = ((takeContinuation more (leadBits b (more + 1) * 64 + k) bs).1.map Char.ofNat,
          (takeContinuation more (leadBits b (more + 1) * 64 + k) bs).2) := by
  have hbyte : (UInt8.ofNat (k + 128)).toNat = k + 128 := toNat_ofNat_of_lt (by omega)
  have hnot : ¬ b < 0x80 := by
    rw [UInt8.lt_iff_toNat_lt]
    exact Nat.not_lt.2 hb
  have hrange : (decide (lo ≤ UInt8.ofNat (k + 128)) && decide (UInt8.ofNat (k + 128) ≤ hi)) = true := by
    simp only [UInt8.le_iff_toNat_le, hbyte, hk, decide_true, Bool.and_self]
  have hbits : (k + 128) % 64 = k := by omega
  simp only [nextChar, if_neg hnot, hlead, hrange, if_true, hbyte, hbits]

theorem nextChar_of_one {v : Nat} (h : v ≤ 127) (rest : List UInt8) :
    nextChar (UInt8.ofNat v) rest = (some (Char.ofNat v), rest) := by
  have hb : (UInt8.ofNat v).toNat = v := toNat_ofNat_of_lt (by omega)
  have hlt : UInt8.ofNat v < 0x80 := by
    rw [UInt8.lt_iff_toNat_lt, hb]
    exact Nat.lt_succ_of_le h
  simp only [nextChar, if_pos hlt, hb]

theorem nextChar_of_two {v : Nat} (h : 127 < v ∧ v ≤ 2047) (rest : List UInt8) :
    nextChar (UInt8.ofNat (v / 64 % 32 + 192)) (UInt8.ofNat (v % 64 + 128) :: rest)
      = (some (Char.ofNat v), rest) := by
  have hb : (UInt8.ofNat (v / 64 % 32 + 192)).toNat = v / 64 + 192 := by
    rw [toNat_ofNat_of_lt (by omega)]
    omega
  have hlead : leadRange (UInt8.ofNat (v / 64 % 32 + 192)) = some (0x80, 0xBF, 0) := by
    rw [leadRange_eq, hb, if_pos (by omega)]
  have hbits : leadBits (UInt8.ofNat (v / 64 % 32 + 192)) 1 = v / 64 := by
    simp only [leadBits, hb]
    omega
  have hsum : v / 64 * 64 + v % 64 = v := by omega
  rw [nextChar_of_lead (by omega) hlead (by simp; omega) (by omega), hbits, hsum]
  rfl

/-- Here overlong forms and surrogates are left out. -/
theorem nextChar_of_three {v : Nat} (h : 2047 < v ∧ v ≤ 65535) (hvalid : v < 0xD800 ∨ 0xDFFF < v)
    (rest : List UInt8) :
    nextChar (UInt8.ofNat (v / 4096 % 16 + 224))
        (UInt8.ofNat (v / 64 % 64 + 128) :: UInt8.ofNat (v % 64 + 128) :: rest)
      = (some (Char.ofNat v), rest) := by
  have hb : (UInt8.ofNat (v / 4096 % 16 + 224)).toNat = v / 4096 + 224 := by
    rw [toNat_ofNat_of_lt (by omega)]
    omega
  have hlead := leadRange_eq (UInt8.ofNat (v / 4096 % 16 + 224))
  rw [hb, if_neg (by omega), if_pos (by omega)] at hlead
  have hbits : leadBits (UInt8.ofNat (v / 4096 % 16 + 224)) 2 = v / 4096 := by
    simp only [leadBits, hb]
    omega
  have hsum : (v / 4096 * 64 + v / 64 % 64) * 64 + v % 64 = v := by omega
  rw [nextChar_of_lead (by omega) hlead (by split <;> split <;> simp <;> omega) (by omega), hbits,
    takeContinuation_ofNat (by omega), hsum]
  rfl

/-- Here overlong forms and numbers past the last character are left out. -/
theorem nextChar_of_four {v : Nat} (h : 65535 < v ∧ v < 0x110000) (rest : List UInt8) :
    nextChar (UInt8.ofNat (v / 262144 % 8 + 240)) (UInt8.ofNat (v / 4096 % 64 + 128)
        :: UInt8.ofNat (v / 64 % 64 + 128) :: UInt8.ofNat (v % 64 + 128) :: rest)
      = (some (Char.ofNat v), rest) := by
  have hb : (UInt8.ofNat (v / 262144 % 8 + 240)).toNat = v / 262144 + 240 := by
    rw [toNat_ofNat_of_lt (by omega)]
    omega
  have hlead := leadRange_eq (UInt8.ofNat (v / 262144 % 8 + 240))
  rw [hb, if_neg (by omega), if_neg (by omega), if_pos (by omega)] at hlead
  have hbits : leadBits (UInt8.ofNat (v / 262144 % 8 + 240)) 3 = v / 262144 := by
    simp only [leadBits, hb]
    omega
  have hsum : ((v / 262144 * 64 + v / 4096 % 64) * 64 + v / 64 % 64) * 64 + v % 64 = v := by omega
  rw [nextChar_of_lead (by omega) hlead (by split <;> split <;> simp <;> omega) (by omega), hbits,
    takeContinuation_ofNat (by omega), takeContinuation_ofNat (by omega), hsum]
  rfl

/-- **A character is read from its bytes**, and what comes after them is left. -/
theorem nextChar_encoded (c : Char) (rest : List UInt8) :
    ∃ b bs, String.utf8EncodeChar c = b :: bs ∧ nextChar b (bs ++ rest) = (some c, rest) := by
  have hvalid : c.toNat < 0xD800 ∨ 0xDFFF < c.toNat ∧ c.toNat < 0x110000 := c.valid
  have hback : Char.ofNat c.val.toNat = c := Char.ofNat_toNat c
  rw [Char.toNat] at hvalid
  unfold String.utf8EncodeChar
  dsimp only
  split
  · rename_i hone
    exact ⟨_, _, rfl, (nextChar_of_one hone rest).trans (by rw [hback])⟩
  · split
    · rename_i hone htwo
      exact ⟨_, _, rfl, (nextChar_of_two ⟨by omega, htwo⟩ rest).trans (by rw [hback])⟩
    · split
      · rename_i hone htwo hthree
        refine ⟨_, _, rfl, (nextChar_of_three ⟨by omega, hthree⟩ (by omega) rest).trans ?_⟩
        rw [hback]
      · refine ⟨_, _, rfl, (nextChar_of_four (by omega) rest).trans ?_⟩
        rw [hback]

/-! ## Whole texts -/

theorem decodeLossyChars_encoded (cs : List Char) :
    decodeLossyChars (cs.flatMap String.utf8EncodeChar) = cs := by
  induction cs with
  | nil => rw [List.flatMap_nil, decodeLossyChars]
  | cons c cs ih =>
    obtain ⟨b, bs, hbytes, hnext⟩ := nextChar_encoded c (cs.flatMap String.utf8EncodeChar)
    rw [List.flatMap_cons, hbytes, List.cons_append, decodeLossyChars]
    simp only [hnext, ih, Option.getD_some]

theorem decodeChars?_encoded (cs : List Char) :
    decodeChars? (cs.flatMap String.utf8EncodeChar) = some cs := by
  induction cs with
  | nil => rw [List.flatMap_nil, decodeChars?]
  | cons c cs ih =>
    obtain ⟨b, bs, hbytes, hnext⟩ := nextChar_encoded c (cs.flatMap String.utf8EncodeChar)
    rw [List.flatMap_cons, hbytes, List.cons_append, decodeChars?]
    split
    · rename_i d rest hread
      rw [hnext] at hread
      cases hread
      rw [ih]
      rfl
    · rename_i rest hfailed
      rw [hnext] at hfailed
      cases hfailed

/-- **A text is read from its bytes** as it was. -/
theorem decodeLossy_bytes (s : String) : decodeLossy (bytes s) = s := by
  rw [decodeLossy, bytes_eq, decodeLossyChars_encoded, String.ofList_toList]

/-! ## Cutting at an ASCII byte

No character goes on across a byte below `80`, so bytes can be read in two parts there, also
where they are malformed. -/

section Ascii

variable {b : UInt8} (hb : b < 0x80)
include hb

theorem not_isContinuation_of_ascii : isContinuation b = false := by
  rw [isContinuation, Bool.and_eq_false_iff]
  left
  rw [decide_eq_false_iff_not, UInt8.not_le]
  exact hb

theorem takeContinuation_append (n acc : Nat) (bs rest : List UInt8) :
    takeContinuation n acc (bs ++ b :: rest)
      = ((takeContinuation n acc bs).1, (takeContinuation n acc bs).2 ++ b :: rest) := by
  induction n generalizing acc bs with
  | zero => rfl
  | succ n ih =>
    cases bs with
    | nil =>
      simp [takeContinuation, not_isContinuation_of_ascii hb]
    | cons a bs =>
      rw [List.cons_append, takeContinuation, takeContinuation]
      by_cases ha : isContinuation a = true
      · rw [if_pos ha, if_pos ha, ih]
      · rw [if_neg ha, if_neg ha]
        rfl

/-- A second byte is never an ASCII one. -/
theorem not_second_of_ascii {a lo hi : UInt8} {more : Nat}
    (hlead : leadRange a = some (lo, hi, more)) : ¬ lo ≤ b := by
  have hlo : 0x80 ≤ lo := by
    unfold leadRange at hlead
    repeat' split at hlead
    all_goals cases hlead
    all_goals decide
  intro hle
  exact absurd hb (UInt8.not_lt.2 (UInt8.le_trans hlo hle))

theorem nextChar_append (a : UInt8) (bs rest : List UInt8) :
    nextChar a (bs ++ b :: rest) = ((nextChar a bs).1, (nextChar a bs).2 ++ b :: rest) := by
  unfold nextChar
  by_cases ha : a < 0x80
  · rw [if_pos ha, if_pos ha]
  rw [if_neg ha, if_neg ha]
  cases hlead : leadRange a with
  | none => rfl
  | some range =>
    obtain ⟨lo, hi, more⟩ := range
    cases bs with
    | nil =>
      have hnot := not_second_of_ascii hb hlead
      simp [hnot]
    | cons c bs =>
      dsimp only [List.cons_append]
      split
      · rw [takeContinuation_append hb]
      · rfl

/-- **Bytes are read in two parts** at an ASCII byte. -/
theorem decodeLossyChars_append (as rest : List UInt8) :
    decodeLossyChars (as ++ b :: rest)
      = decodeLossyChars as ++ Char.ofNat b.toNat :: decodeLossyChars rest := by
  have hself : nextChar b rest = (some (Char.ofNat b.toNat), rest) := by
    unfold nextChar
    rw [if_pos hb]
  fun_induction decodeLossyChars as with
  | case1 =>
    rw [List.nil_append, decodeLossyChars, hself]
    rfl
  | case2 a as next ih =>
    rw [List.cons_append, decodeLossyChars, nextChar_append hb]
    dsimp only
    rw [ih]
    rfl

end Ascii

end PatternAudit.Text
