/-
The characters before a byte offset.

Engines count bytes and findings count characters, so an offset has to be told as a number of
characters, wherever in the text it is and also beyond its end. `charIndex` takes the sizes of the
characters off the offset, one after the other. What it counts is said by `le_charIndex_iff`: the
offset has `i` characters before it exactly if the text has that many and they take no more bytes.
So `charIndex` is the other side of `byteIndex`, the map from characters to offsets, and all else
follows from that.

The same characters can be found in the bytes (`charsBefore?`): from the offset, or from the end
if the offset is beyond it, back to the closest boundary, and what stands before it read as a
text. A boundary is told by the byte behind it. A search may find none, and what is cut off at a
wrong place is no text; in the bytes of a text neither happens. There the boundaries are the
offsets of the characters and of the end (`isBoundary_encoded_iff`), and the search comes to the
one up to which `charIndex` counts (`charsBefore?_bytes`).
-/
import Mathlib.Data.Nat.Count
import PatternAudit.Proofs.Text.Utf8

set_option autoImplicit false

namespace PatternAudit.Text

/-! ## From characters to bytes -/

/-- The offset of a character: how many bytes the characters before it take. Behind the last
character this is the offset of the end. -/
def byteIndex (cs : List Char) (i : Nat) : Nat :=
  ((cs.take i).flatMap String.utf8EncodeChar).length

theorem byteIndex_zero (cs : List Char) : byteIndex cs 0 = 0 := rfl

theorem byteIndex_nil (i : Nat) : byteIndex [] i = 0 := by
  rw [byteIndex, List.take_nil]
  rfl

theorem byteIndex_cons_succ (c : Char) (cs : List Char) (i : Nat) :
    byteIndex (c :: cs) (i + 1) = c.utf8Size + byteIndex cs i := by
  rw [byteIndex, List.take_succ_cons, List.flatMap_cons, List.length_append,
    String.length_utf8EncodeChar, byteIndex]

/-- The offsets in a text are the start, and those in the text behind its first character. -/
theorem exists_byteIndex_cons_iff {c : Char} {cs : List Char} {p : Nat} :
    (∃ i ≤ (c :: cs).length, byteIndex (c :: cs) i = p) ↔
      p = 0 ∨ ∃ i ≤ cs.length, c.utf8Size + byteIndex cs i = p := by
  constructor
  · rintro ⟨i, hi, rfl⟩
    cases i with
    | zero => exact Or.inl (byteIndex_zero _)
    | succ i => exact Or.inr ⟨i, Nat.le_of_succ_le_succ hi, (byteIndex_cons_succ c cs i).symm⟩
  · rintro (rfl | ⟨i, hi, rfl⟩)
    · exact ⟨0, Nat.zero_le _, rfl⟩
    · exact ⟨i + 1, Nat.succ_le_succ hi, byteIndex_cons_succ c cs i⟩

/-- The bytes before a character are those of the characters before it. -/
theorem take_byteIndex (cs : List Char) (i : Nat) :
    (cs.flatMap String.utf8EncodeChar).take (byteIndex cs i)
      = (cs.take i).flatMap String.utf8EncodeChar := by
  have hsplit : cs.flatMap String.utf8EncodeChar
      = (cs.take i).flatMap String.utf8EncodeChar ++ (cs.drop i).flatMap String.utf8EncodeChar := by
    rw [← List.flatMap_append, List.take_append_drop]
  rw [hsplit, byteIndex, List.take_left]

theorem byteIndex_le_length (cs : List Char) (i : Nat) :
    byteIndex cs i ≤ (cs.flatMap String.utf8EncodeChar).length := by
  rw [byteIndex, ← take_byteIndex]
  exact List.length_take_le' _ _

theorem byteIndex_mono (cs : List Char) : Monotone (byteIndex cs) := by
  intro i j hle
  -- the characters before `i` are those of the text that ends at `j`
  have htake : cs.take i = (cs.take j).take i := by
    rw [List.take_take, Nat.min_eq_left hle]
  rw [byteIndex, htake]
  exact byteIndex_le_length (cs.take j) i

/-! ## From bytes to characters -/

/-- **Counting characters is the other side of measuring them.** -/
theorem le_charIndex_iff {cs : List Char} {offset i : Nat} :
    i ≤ charIndex cs offset ↔ i ≤ cs.length ∧ byteIndex cs i ≤ offset := by
  induction cs generalizing offset i with
  | nil => simp [charIndex, byteIndex_nil]
  | cons c cs ih =>
    cases i with
    | zero => simp [byteIndex_zero]
    | succ i =>
      rw [charIndex, byteIndex_cons_succ, List.length_cons]
      by_cases hfits : c.utf8Size ≤ offset
      -- the other characters are held against what the first one leaves of the offset
      · rw [if_pos hfits, Nat.add_le_add_iff_right, ih, Nat.add_le_add_iff_right]
        apply and_congr_right'
        omega
      · rw [if_neg hfits]
        omega

theorem charIndex_le_length (cs : List Char) (offset : Nat) : charIndex cs offset ≤ cs.length :=
  (le_charIndex_iff.1 (Nat.le_refl _)).1

theorem byteIndex_charIndex_le (cs : List Char) (offset : Nat) :
    byteIndex cs (charIndex cs offset) ≤ offset :=
  (le_charIndex_iff.1 (Nat.le_refl _)).2

theorem charIndex_mono (cs : List Char) : Monotone (charIndex cs) := by
  intro a b hle
  apply le_charIndex_iff.2
  exact ⟨charIndex_le_length cs a, Nat.le_trans (byteIndex_charIndex_le cs a) hle⟩

theorem charIndex_byteIndex {cs : List Char} {i : Nat} (h : i ≤ cs.length) :
    charIndex cs (byteIndex cs i) = i := by
  induction cs generalizing i with
  | nil =>
    rw [Nat.le_zero.1 h]
    rfl
  | cons c cs ih =>
    cases i with
    -- no character is empty, so the start has none before it
    | zero => rw [byteIndex_zero, charIndex, if_neg (Nat.not_le.2 c.utf8Size_pos)]
    | succ i =>
      rw [byteIndex_cons_succ, charIndex, if_pos (Nat.le_add_right _ _), Nat.add_sub_cancel_left,
        ih (Nat.le_of_succ_le_succ h)]

/-- Counted are the characters whose bytes end at the offset or before it. -/
theorem charIndex_eq_count (cs : List Char) (offset : Nat) :
    charIndex cs offset = Nat.count (fun i => byteIndex cs (i + 1) ≤ offset) cs.length := by
  have hcounted : {i ∈ Finset.range cs.length | byteIndex cs (i + 1) ≤ offset}
      = Finset.range (charIndex cs offset) := by
    ext i
    rw [Finset.mem_filter, Finset.mem_range, Finset.mem_range]
    exact le_charIndex_iff.symm
  rw [Nat.count_eq_card_filter_range, hcounted, Finset.card_range]

/-! ## Boundaries -/

/-- Whether a position in bytes is the start, the end, or one whose byte continues no sequence. -/
def isBoundary (bs : List UInt8) (p : Nat) : Bool :=
  p == 0 || match bs[p]? with
    | some b => !isContinuation b
    | none => p == bs.length

theorem isBoundary_zero (bs : List UInt8) : isBoundary bs 0 = true := rfl

/-- Of the bytes of a character, the first one continues nothing and all others do. -/
theorem isContinuation_encoded (c : Char) :
    ∃ b bs, String.utf8EncodeChar c = b :: bs ∧ isContinuation b = false ∧
      ∀ x ∈ bs, isContinuation x = true := by
  have hlead : ∀ n < 256, n < 128 ∨ 192 ≤ n → isContinuation (UInt8.ofNat n) = false := by
    intro n hn hout
    rw [Bool.eq_false_iff, Ne, isContinuation_ofNat_iff hn]
    omega
  have htrail : ∀ n, isContinuation (UInt8.ofNat (n % 64 + 128)) = true := by
    intro n
    apply (isContinuation_ofNat_iff (by omega)).2
    omega
  -- one case for each size
  unfold String.utf8EncodeChar
  dsimp only
  split
  · exact ⟨_, [], rfl, hlead _ (by omega) (by omega), nofun⟩
  · split
    · refine ⟨_, [_], rfl, hlead _ (by omega) (by omega), ?_⟩
      exact List.forall_mem_singleton.2 (htrail _)
    · split
      · refine ⟨_, [_, _], rfl, hlead _ (by omega) (by omega), ?_⟩
        exact List.forall_mem_cons.2 ⟨htrail _, List.forall_mem_singleton.2 (htrail _)⟩
      · refine ⟨_, [_, _, _], rfl, hlead _ (by omega) (by omega), ?_⟩
        exact List.forall_mem_cons.2
          ⟨htrail _, List.forall_mem_cons.2 ⟨htrail _, List.forall_mem_singleton.2 (htrail _)⟩⟩

/-- No boundary is inside a character. -/
theorem isBoundary_of_lt {c : Char} {p : Nat} (hpos : 0 < p) (h : p < c.utf8Size)
    (rest : List UInt8) : isBoundary (String.utf8EncodeChar c ++ rest) p = false := by
  obtain ⟨b, bs, hbytes, -, htrail⟩ := isContinuation_encoded c
  have hlength : bs.length + 1 = c.utf8Size := by
    rw [← String.length_utf8EncodeChar, hbytes, List.length_cons]
  obtain ⟨q, rfl⟩ := Nat.exists_eq_succ_of_ne_zero (Nat.ne_of_gt hpos)
  have hq : q < bs.length := by omega
  have hget : (String.utf8EncodeChar c ++ rest)[q + 1]? = some bs[q] := by
    rw [hbytes, List.cons_append, List.getElem?_cons_succ, List.getElem?_append_left hq,
      List.getElem?_eq_getElem hq]
  rw [isBoundary, hget]
  simp [htrail]

/-- Behind a character, the boundaries are those of what follows. -/
theorem isBoundary_add (c : Char) (cs : List Char) (p : Nat) :
    isBoundary ((c :: cs).flatMap String.utf8EncodeChar) (c.utf8Size + p)
      = isBoundary (cs.flatMap String.utf8EncodeChar) p := by
  rw [List.flatMap_cons]
  generalize hrest : cs.flatMap String.utf8EncodeChar = rest
  have hpos : c.utf8Size + p ≠ 0 := Nat.ne_of_gt (Nat.add_pos_left c.utf8Size_pos p)
  have hget : (String.utf8EncodeChar c ++ rest)[c.utf8Size + p]? = rest[p]? := by
    rw [← String.length_utf8EncodeChar, List.getElem?_append_right (Nat.le_add_right _ _),
      Nat.add_sub_cancel_left]
  have hend : (c.utf8Size + p == (String.utf8EncodeChar c ++ rest).length)
      = (p == rest.length) := by
    simp
  rw [isBoundary, hget, hend, beq_false_of_ne hpos, Bool.false_or]
  cases p with
  | succ p => rw [isBoundary, beq_false_of_ne (Nat.succ_ne_zero p), Bool.false_or]
  | zero =>
    -- what follows is at its end, or begins with the first byte of a character
    rw [isBoundary_zero, ← hrest]
    cases cs with
    | nil => rfl
    | cons d cs =>
      obtain ⟨b, bs, hbytes, hlead, -⟩ := isContinuation_encoded d
      rw [List.flatMap_cons, hbytes, List.cons_append, List.getElem?_cons_zero]
      exact congrArg not hlead

/-- **The boundaries in the bytes of a text** are the offsets of its characters and of its end. -/
theorem isBoundary_encoded_iff {cs : List Char} {p : Nat} :
    isBoundary (cs.flatMap String.utf8EncodeChar) p = true ↔
      ∃ i ≤ cs.length, byteIndex cs i = p := by
  induction cs generalizing p with
  | nil => simp [isBoundary, byteIndex_nil, @eq_comm Nat 0 p]
  | cons c cs ih =>
    rw [exists_byteIndex_cons_iff]
    rcases Nat.lt_or_ge p c.utf8Size with hinside | hbehind
    · rcases Nat.eq_zero_or_pos p with rfl | hpos
      · exact iff_of_true (isBoundary_zero _) (Or.inl rfl)
      · rw [List.flatMap_cons, isBoundary_of_lt hpos hinside]
        apply iff_of_false Bool.false_ne_true
        rintro (rfl | ⟨i, -, rfl⟩) <;> omega
    · obtain ⟨q, rfl⟩ := Nat.exists_eq_add_of_le hbehind
      have hstart : c.utf8Size + q ≠ 0 := Nat.ne_of_gt (Nat.add_pos_left c.utf8Size_pos q)
      rw [isBoundary_add, ih, or_iff_right hstart]
      simp only [Nat.add_left_cancel_iff]

/-! ## Going back -/

/-- The closest boundary at a position or before it, looked for backwards, if there is one. -/
def boundaryBack? (bs : List UInt8) : Nat → Option Nat
  | 0 => if isBoundary bs 0 then some 0 else none
  | p + 1 => if isBoundary bs (p + 1) then some (p + 1) else boundaryBack? bs p

/-- The characters before an offset, found in the bytes, if the search comes to a boundary and
what stands before that is a text. -/
def charsBefore? (bs : List UInt8) (offset : Nat) : Option (List Char) :=
  (boundaryBack? bs (min offset bs.length)).bind fun stop => decodeChars? (bs.take stop)

theorem boundaryBack?_of_isBoundary {bs : List UInt8} {p : Nat} (h : isBoundary bs p = true) :
    boundaryBack? bs p = some p := by
  cases p <;> rw [boundaryBack?, if_pos h]

/-- The search passes over what is no boundary. -/
theorem boundaryBack?_eq_some {bs : List UInt8} {p q : Nat} (hle : p ≤ q)
    (h : isBoundary bs p = true) (hnone : ∀ r, p < r → r ≤ q → isBoundary bs r = false) :
    boundaryBack? bs q = some p := by
  induction hle with
  | refl => exact boundaryBack?_of_isBoundary h
  | @step q hle ih =>
    have hfirst : isBoundary bs (q + 1) = false :=
      hnone (q + 1) (Nat.lt_succ_of_le hle) (Nat.le_refl _)
    rw [boundaryBack?, hfirst, if_neg Bool.false_ne_true]
    apply ih
    intro r hr hrq
    exact hnone r hr (Nat.le_succ_of_le hrq)

theorem boundaryBack?_encoded (cs : List Char) (offset : Nat) :
    boundaryBack? (cs.flatMap String.utf8EncodeChar)
        (min offset (cs.flatMap String.utf8EncodeChar).length)
      = some (byteIndex cs (charIndex cs offset)) := by
  apply boundaryBack?_eq_some
  · exact Nat.le_min.2 ⟨byteIndex_charIndex_le cs offset, byteIndex_le_length cs _⟩
  · exact isBoundary_encoded_iff.2 ⟨_, charIndex_le_length cs offset, rfl⟩
  · intro r hr hle
    rw [Bool.eq_false_iff, Ne, isBoundary_encoded_iff]
    rintro ⟨i, hi, rfl⟩
    -- a boundary between would be the offset of a character that is counted already
    have hcounted : i ≤ charIndex cs offset :=
      le_charIndex_iff.2 ⟨hi, (Nat.le_min.1 hle).1⟩
    exact Nat.not_le.2 hr (byteIndex_mono cs hcounted)

theorem charsBefore?_bytes (s : String) (offset : Nat) :
    charsBefore? (bytes s) offset = some (s.toList.take (charIndex s.toList offset)) := by
  rw [bytes_eq, charsBefore?, boundaryBack?_encoded, Option.bind_some, take_byteIndex,
    decodeChars?_encoded]

/-- **An offset is told as the number of characters that end there or before**, in every text and
for every offset. These are the characters that are found by going back in the bytes to the
closest boundary, which never fails. So a later offset has no fewer characters before it, no
offset has more of them than there are, and on the boundaries characters and offsets are told as
each other both ways. -/
theorem charIndex_counts_characters (s : String) :
    (∀ offset,
      charIndex s.toList offset
        = Nat.count (fun i => byteIndex s.toList (i + 1) ≤ offset) s.length ∧
      charIndex s.toList offset ≤ s.length ∧
      charsBefore? (bytes s) offset = some (s.toList.take (charIndex s.toList offset))) ∧
    Monotone (charIndex s.toList) ∧
    (∀ i ≤ s.length, isBoundary (bytes s) (byteIndex s.toList i) = true ∧
      charIndex s.toList (byteIndex s.toList i) = i) ∧
    ∀ offset, isBoundary (bytes s) offset = true →
      byteIndex s.toList (charIndex s.toList offset) = offset := by
  rw [← String.length_toList]
  refine ⟨?_, charIndex_mono _, ?_, ?_⟩
  · intro offset
    exact ⟨charIndex_eq_count _ _, charIndex_le_length _ _, charsBefore?_bytes s offset⟩
  · intro i hi
    rw [bytes_eq, isBoundary_encoded_iff]
    exact ⟨⟨i, hi, rfl⟩, charIndex_byteIndex hi⟩
  · intro offset hboundary
    rw [bytes_eq, isBoundary_encoded_iff] at hboundary
    obtain ⟨i, hi, rfl⟩ := hboundary
    rw [charIndex_byteIndex hi]

/-- A text with characters of one, two, three and four bytes. -/
def mixedSizes : String := "aé€😀"

/-- Offsets of that text in front of its last character, inside it and beyond the end. -/
theorem mixedSizes_counted :
    (3 ≤ mixedSizes.length ∧ charIndex mixedSizes.toList (byteIndex mixedSizes.toList 3) = 3) ∧
      (isBoundary (bytes mixedSizes) 6 = true ∧
        byteIndex mixedSizes.toList (charIndex mixedSizes.toList 6) = 6) ∧
      (isBoundary (bytes mixedSizes) 9 = false ∧
        charsBefore? (bytes mixedSizes) 9 = some ['a', 'é', '€']) ∧
      charsBefore? (bytes mixedSizes) 100 = some ['a', 'é', '€', '😀'] := by
  obtain ⟨hcounted, -, hforth, hback⟩ := charIndex_counts_characters mixedSizes
  have hlength : 3 ≤ mixedSizes.length := by decide
  have hboundary : isBoundary (bytes mixedSizes) 6 = true := by
    rw [bytes_eq]
    decide
  have hinside : isBoundary (bytes mixedSizes) 9 = false := by
    rw [bytes_eq]
    decide
  exact ⟨⟨hlength, (hforth 3 hlength).2⟩, ⟨hboundary, hback 6 hboundary⟩,
    ⟨hinside, (hcounted 9).2.2⟩, (hcounted 100).2.2⟩

end PatternAudit.Text
