/-
Reading bytes as UTF-8 when they may not be.

`decodeLossy` is the reading that never fails: a maximal run of bytes that
starts a well-formed sequence without finishing it becomes one U+FFFD, and so
does every byte that can start nothing. `decode?` is the strict reading.

`charIndex` counts characters before a byte offset. The engines report byte
offsets, the findings report characters, and an offset may fall inside a
character: then only the characters that end before it count.
-/

set_option autoImplicit false

namespace PatternAudit.Text

/-! ## Sequences -/

/-- The bytes `80..BF`, which continue a sequence. -/
def isContinuation (b : UInt8) : Bool := 0x80 ≤ b && b ≤ 0xBF

/-- What may follow a leading byte: the range of the second byte and the number
of plain continuation bytes after it. The narrowed ranges rule out overlong
forms, surrogates and values past U+10FFFF. -/
def leadRange (b : UInt8) : Option (UInt8 × UInt8 × Nat) :=
  if 0xC2 ≤ b && b ≤ 0xDF then some (0x80, 0xBF, 0)
  else if b == 0xE0 then some (0xA0, 0xBF, 1)
  else if b == 0xED then some (0x80, 0x9F, 1)
  else if 0xE1 ≤ b && b ≤ 0xEF then some (0x80, 0xBF, 1)
  else if b == 0xF0 then some (0x90, 0xBF, 2)
  else if 0xF1 ≤ b && b ≤ 0xF3 then some (0x80, 0xBF, 2)
  else if b == 0xF4 then some (0x80, 0x8F, 2)
  else none

/-- The payload bits of a leading byte that `rest` more bytes follow. -/
def leadBits (b : UInt8) (rest : Nat) : Nat :=
  match rest with
  | 1 => b.toNat % 32
  | 2 => b.toNat % 16
  | _ => b.toNat % 8

/-- Reads up to `n` continuation bytes on top of the bits read so far. Answers
the value (`none` if a byte was missing) and what is left. -/
def takeContinuation : Nat → Nat → List UInt8 → Option Nat × List UInt8
  | 0, acc, bs => (some acc, bs)
  | _ + 1, _, [] => (none, [])
  | n + 1, acc, b :: bs =>
    if isContinuation b then takeContinuation n (acc * 64 + b.toNat % 64) bs else (none, b :: bs)

theorem takeContinuation_length (n acc : Nat) (bs : List UInt8) :
    (takeContinuation n acc bs).2.length ≤ bs.length := by
  induction n generalizing acc bs with
  | zero => simp [takeContinuation]
  | succ n ih =>
    cases bs with
    | nil => simp [takeContinuation]
    | cons b bs =>
      rw [takeContinuation]
      split
      · exact Nat.le_succ_of_le (ih _ _)
      · simp

/-- Reads one character, or `none` for a malformed piece, and what is left. -/
def nextChar (b : UInt8) (bs : List UInt8) : Option Char × List UInt8 :=
  if b < 0x80 then (some (Char.ofNat b.toNat), bs)
  else match leadRange b, bs with
    | some (lo, hi, more), b2 :: bs' =>
      if lo ≤ b2 && b2 ≤ hi then
        let (value, rest) := takeContinuation more (leadBits b (more + 1) * 64 + b2.toNat % 64) bs'
        (value.map Char.ofNat, rest)
      else (none, bs)
    | _, _ => (none, bs)

theorem nextChar_length (b : UInt8) (bs : List UInt8) : (nextChar b bs).2.length ≤ bs.length := by
  unfold nextChar
  split
  · simp
  · split
    · split
      · exact Nat.le_succ_of_le (takeContinuation_length _ _ _)
      · simp
    · simp

/-! ## Whole texts -/

/-- Reads bytes as UTF-8, with U+FFFD for each malformed piece. -/
def decodeLossyChars : List UInt8 → List Char
  | [] => []
  | b :: bs =>
    let next := nextChar b bs
    next.1.getD '\uFFFD' :: decodeLossyChars next.2
termination_by bs => bs.length
decreasing_by
  have := nextChar_length b bs
  simp only [List.length_cons]
  omega

/-- Reads bytes as UTF-8, with U+FFFD for each malformed piece. -/
def decodeLossy (bs : List UInt8) : String := String.ofList (decodeLossyChars bs)

/-- Reads bytes as UTF-8, or fails on the first malformed piece. -/
def decodeChars? : List UInt8 → Option (List Char)
  | [] => some []
  | b :: bs =>
    match h : nextChar b bs with
    | (some c, rest) =>
      have : rest.length ≤ bs.length := by simpa [h] using nextChar_length b bs
      (decodeChars? rest).map (c :: ·)
    | (none, _) => none
termination_by bs => bs.length
decreasing_by
  simp only [List.length_cons]
  omega

/-- The UTF-8 bytes of a string, as a list. -/
def bytes (s : String) : List UInt8 := s.toUTF8.toList

/-! ## Offsets -/

/-- How many of the characters end at or before a byte offset. -/
def charIndex : List Char → Nat → Nat
  | [], _ => 0
  | c :: cs, offset =>
    if c.utf8Size ≤ offset then charIndex cs (offset - c.utf8Size) + 1 else 0

/-- The number of UTF-8 bytes of a list of characters. -/
def byteSize (cs : List Char) : Nat := cs.foldl (fun n c => n + c.utf8Size) 0

end PatternAudit.Text
