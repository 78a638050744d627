/-
What percent escapes stand for.

An escape is a percent sign and two hexadecimal digits. Undoing the escapes of a text is reading
its bytes from the left: an escape is replaced by the byte that its digits write, and every other
byte is kept. `Undone` says so without the loop that does it, for any reading of the two bytes
after the sign.

The loop reads them as a number, and numbers may have a sign: `%+A` is replaced, too
(`signedEscape_undone`). That is all: where no percent sign is followed by a plus sign and a
digit, escapes are undone and nothing else (`percentDecode_standsFor`).
-/
import PatternAudit.Pointer
import PatternAudit.Proofs.Text.Utf8
import PatternAudit.Text.Hex

set_option autoImplicit false

namespace PatternAudit.Pointer

/-! ## Digits -/

/-- The value of a byte that is a hexadecimal digit. -/
def digit? (b : UInt8) : Option Nat := Text.hexValue? (Char.ofNat b.toNat)

/-- The byte that two hexadecimal digits write. -/
def pair? (x y : UInt8) : Option UInt8 :=
  match digit? x, digit? y with
  | some m, some n => some (UInt8.ofNat (m * 16 + n))
  | _, _ => none

/-- The byte that two hexadecimal digits write, or a plus sign and one digit. -/
def signedPair? (x y : UInt8) : Option UInt8 :=
  if x = 43 then (digit? y).map UInt8.ofNat else pair? x y

theorem hexValue?_eq (b : UInt8) : hexValue? b = (digit? b).map UInt8.ofNat := by
  revert b
  exact Text.forall_byte (by decide +kernel)

theorem hexPair?_eq (x y : UInt8) : hexPair? x y = signedPair? x y := by
  unfold hexPair? signedPair? pair?
  rw [hexValue?_eq, hexValue?_eq]
  by_cases hx : x = 43
  · rw [if_pos hx, if_pos hx]
  rw [if_neg hx, if_neg hx]
  cases digit? x with
  | none => rfl
  | some m =>
    cases digit? y with
    | none => rfl
    | some n => simp

/-- A digit is neither a sign nor a percent sign, and writes a number below sixteen. -/
theorem of_digit?_eq_some {b : UInt8} {n : Nat} (h : digit? b = some n) :
    b ≠ 37 ∧ b ≠ 43 ∧ n < 16 := by
  have hall : ∀ b : UInt8, (digit? b).isSome = true → b ≠ 37 ∧ b ≠ 43 ∧ (digit? b).getD 0 < 16 :=
    Text.forall_byte (by decide +kernel)
  have hb := hall b (h ▸ rfl)
  rwa [h] at hb

theorem pair?_eq_some_iff {x y v : UInt8} :
    pair? x y = some v ↔
      ∃ m n, digit? x = some m ∧ digit? y = some n ∧ v = UInt8.ofNat (m * 16 + n) := by
  unfold pair?
  split
  · rename_i m n hx hy
    simp [hx, hy, eq_comm]
  · rename_i hnone
    constructor
    · nofun
    · rintro ⟨m, n, hx, hy, -⟩
      exact absurd hy (hnone m n hx)

/-! ## Undoing escapes -/

/-- Bytes, and what they are when their escapes are undone from the left. What two bytes stand
for after a percent sign is given. -/
inductive Undone (two? : UInt8 → UInt8 → Option UInt8) : List UInt8 → List UInt8 → Prop where
  | nil : Undone two? [] []
  | escape {x y v : UInt8} {bs out : List UInt8} (hv : two? x y = some v)
      (h : Undone two? bs out) : Undone two? (37 :: x :: y :: bs) (v :: out)
  | byte {b : UInt8} {bs out : List UInt8}
      (hb : ∀ x y after, b :: bs = 37 :: x :: y :: after → two? x y = none)
      (h : Undone two? bs out) : Undone two? (b :: bs) (b :: out)

variable {two? : UInt8 → UInt8 → Option UInt8}

/-- Escapes are undone in one way only. -/
theorem Undone.unique {bs out out' : List UInt8} (h : Undone two? bs out)
    (h' : Undone two? bs out') : out = out' := by
  induction h generalizing out' with
  | nil =>
    cases h'
    rfl
  | escape hv _ ih =>
    cases h' with
    | escape hv' h' =>
      rw [hv] at hv'
      cases hv'
      rw [ih h']
    | byte hb =>
      rw [hb _ _ _ rfl] at hv
      cases hv
  | byte hb _ ih =>
    cases h' with
    | escape hv' =>
      rw [hb _ _ _ rfl] at hv'
      cases hv'
    | byte _ h' => rw [ih h']

/-- What the loop makes of bytes. -/
theorem undone_decodePercent (bs : List UInt8) : Undone signedPair? bs (decodePercent bs) := by
  fun_induction decodePercent bs with
  | case1 x y rest v hpair ih =>
    rw [hexPair?_eq] at hpair
    exact .escape hpair ih
  | case2 x y rest hpair ih =>
    rw [hexPair?_eq] at hpair
    refine .byte ?_ ih
    intro x' y' after heq
    cases heq
    exact hpair
  | case3 b x y rest hb ih =>
    refine .byte ?_ ih
    intro x' y' after heq
    cases heq
    exact absurd rfl hb
  | case4 bs hshort =>
    -- fewer than three bytes hold no escape
    match bs, hshort with
    | [], _ => exact .nil
    | [b], _ => exact .byte (by simp) .nil
    | [b, c], _ => exact .byte (by simp) (.byte (by simp) .nil)
    | b :: x :: y :: rest, hshort => exact absurd rfl (hshort b x y rest)

/-- Whatever two bytes stand for, the escapes of all bytes can be undone. -/
theorem exists_undone (two? : UInt8 → UInt8 → Option UInt8) (bs : List UInt8) :
    ∃ out, Undone two? bs out := by
  match bs with
  | [] => exact ⟨[], .nil⟩
  | b :: bs =>
    by_cases hescape : ∃ x y after v, b :: bs = 37 :: x :: y :: after ∧ two? x y = some v
    · obtain ⟨x, y, after, v, heq, hv⟩ := hescape
      cases heq
      obtain ⟨out, hout⟩ := exists_undone two? after
      exact ⟨v :: out, .escape hv hout⟩
    · obtain ⟨out, hout⟩ := exists_undone two? bs
      refine ⟨b :: out, .byte ?_ hout⟩
      intro x y after heq
      apply Option.eq_none_iff_forall_ne_some.2
      intro v hv
      exact hescape ⟨x, y, after, v, heq, hv⟩
termination_by bs.length

/-! ## Signs -/

/-- Whether a percent sign is followed by a plus sign and a hexadecimal digit, somewhere. -/
def HoldsSigned (bs : List UInt8) : Prop :=
  ∃ y, (digit? y).isSome = true ∧ [37, 43, y] <:+: bs

theorem holdsSigned_cons_iff {b : UInt8} {bs : List UInt8} :
    HoldsSigned (b :: bs) ↔
      (∃ y after, (digit? y).isSome = true ∧ b :: bs = 37 :: 43 :: y :: after) ∨ HoldsSigned bs := by
  constructor
  · rintro ⟨y, hy, hinfix⟩
    rcases List.infix_cons_iff.1 hinfix with ⟨after, hprefix⟩ | hinfix
    · exact Or.inl ⟨y, after, hy, hprefix.symm⟩
    · exact Or.inr ⟨y, hy, hinfix⟩
  · rintro (⟨y, after, hy, heq⟩ | ⟨y, hy, hinfix⟩)
    · exact ⟨y, hy, [], after, heq.symm⟩
    · exact ⟨y, hy, hinfix.trans (List.infix_cons (List.infix_refl bs))⟩

theorem holdsSigned_cons_of_ne {b : UInt8} (hb : b ≠ 37) {bs : List UInt8} :
    HoldsSigned (b :: bs) ↔ HoldsSigned bs := by
  rw [holdsSigned_cons_iff, or_iff_right]
  rintro ⟨y, after, -, heq⟩
  cases heq
  exact hb rfl

/-- No sign stands in an escape of two digits, or begins there. -/
theorem holdsSigned_escape_iff {x y v : UInt8} (hv : pair? x y = some v) {bs : List UInt8} :
    HoldsSigned (37 :: x :: y :: bs) ↔ HoldsSigned bs := by
  obtain ⟨m, n, hx, hy, -⟩ := pair?_eq_some_iff.1 hv
  rw [holdsSigned_cons_iff, or_iff_right, holdsSigned_cons_of_ne (of_digit?_eq_some hx).1,
    holdsSigned_cons_of_ne (of_digit?_eq_some hy).1]
  rintro ⟨_, _, -, heq⟩
  cases heq
  exact (of_digit?_eq_some hx).2.1 rfl

theorem signedPair?_of_ne {x : UInt8} (hx : x ≠ 43) (y : UInt8) : signedPair? x y = pair? x y := by
  rw [signedPair?, if_neg hx]

/-- A plus sign is no digit, so what has a sign is no escape of two digits. -/
theorem pair?_plus (y : UInt8) : pair? 43 y = none := rfl

theorem pair?_eq_none_of_signed {x y : UInt8} (h : signedPair? x y = none) : pair? x y = none := by
  by_cases hx : x = 43
  · rw [hx, pair?_plus]
  · rwa [← signedPair?_of_ne hx]

/-- Without signs, escapes have two digits. -/
theorem Undone.of_not_holdsSigned {bs out : List UInt8} (h : Undone signedPair? bs out)
    (hnone : ¬ HoldsSigned bs) : Undone pair? bs out := by
  induction h with
  | nil => exact .nil
  | @escape x y v bs out hv _ ih =>
    by_cases hx : x = 43
    · -- the sign and the digit are at hand
      rw [hx, signedPair?, if_pos rfl, Option.map_eq_some_iff] at hv
      obtain ⟨n, hy, -⟩ := hv
      exact absurd (holdsSigned_cons_iff.2 (Or.inl ⟨y, bs, hy ▸ rfl, hx ▸ rfl⟩)) hnone
    · rw [signedPair?_of_ne hx] at hv
      exact .escape hv (ih fun hsigned => hnone ((holdsSigned_escape_iff hv).2 hsigned))
  | byte hb _ ih =>
    refine .byte (fun x y after heq => pair?_eq_none_of_signed (hb x y after heq)) (ih ?_)
    exact fun hsigned => hnone (holdsSigned_cons_iff.2 (Or.inr hsigned))

/-- With signs, the two ways of undoing escapes part at the first one: there the one has a
number below sixteen, and the other still has the percent sign. -/
theorem Undone.part_of_holdsSigned {bs out out' : List UInt8} (h : Undone signedPair? bs out)
    (h' : Undone pair? bs out') (hsigned : HoldsSigned bs) :
    ∃ before v after after', v.toNat < 16 ∧ out = before ++ v :: after ∧
      out' = before ++ 37 :: after' := by
  induction h generalizing out' with
  | nil =>
    obtain ⟨y, -, hinfix⟩ := hsigned
    cases List.infix_nil.1 hinfix
  | @escape x y v bs out hv _ ih =>
    by_cases hx : x = 43
    · subst hx
      rw [signedPair?, if_pos rfl, Option.map_eq_some_iff] at hv
      obtain ⟨n, hy, rfl⟩ := hv
      have hn : n < 16 := (of_digit?_eq_some hy).2.2
      cases h' with
      | escape hv' => cases hv'
      | byte hb h' =>
        refine ⟨[], UInt8.ofNat n, out, _, ?_, rfl, rfl⟩
        rwa [Text.toNat_ofNat_of_lt (by omega)]
    · rw [signedPair?_of_ne hx] at hv
      cases h' with
      | escape hv' h' =>
        rw [hv] at hv'
        cases hv'
        obtain ⟨before, u, after, after', hu, hout, hout'⟩ :=
          ih h' ((holdsSigned_escape_iff hv).1 hsigned)
        exact ⟨v :: before, u, after, after', hu, congrArg _ hout, congrArg _ hout'⟩
      | byte hb =>
        rw [hb _ _ _ rfl] at hv
        cases hv
  | @byte b bs out hb _ ih =>
    cases h' with
    | escape hv' =>
      rw [pair?_eq_none_of_signed (hb _ _ _ rfl)] at hv'
      cases hv'
    | byte _ h' =>
      have hrest : HoldsSigned bs := by
        refine (holdsSigned_cons_iff.1 hsigned).resolve_left ?_
        rintro ⟨y, after, hy, heq⟩
        have hnone := hb _ _ _ heq
        rw [signedPair?, if_pos rfl, Option.map_eq_none_iff] at hnone
        rw [hnone] at hy
        cases hy
      obtain ⟨before, u, after, after', hu, hout, hout'⟩ := ih h' hrest
      exact ⟨b :: before, u, after, after', hu, congrArg _ hout, congrArg _ hout'⟩

/-! ## Texts -/

/-- Whether a text stands for another one: its escapes undone, its bytes read as UTF-8. -/
def StandsFor (two? : UInt8 → UInt8 → Option UInt8) (s t : String) : Prop :=
  ∃ out, Undone two? (Text.bytes s) out ∧ t = Text.decodeLossy out

theorem standsFor_unique (two? : UInt8 → UInt8 → Option UInt8) (s : String) :
    ∃! t, StandsFor two? s t := by
  obtain ⟨out, hout⟩ := exists_undone two? (Text.bytes s)
  refine ⟨Text.decodeLossy out, ⟨out, hout, rfl⟩, ?_⟩
  rintro t ⟨out', hout', rfl⟩
  rw [hout.unique hout']

/-- Texts that part at bytes of different ASCII characters are different. -/
theorem decodeLossy_ne {before after after' : List UInt8} {v : UInt8} (hv : v.toNat < 16) :
    Text.decodeLossy (before ++ v :: after) ≠ Text.decodeLossy (before ++ 37 :: after') := by
  have hascii : v < 0x80 := by
    rw [UInt8.lt_iff_toNat_lt]
    exact Nat.lt_trans hv (by decide)
  intro heq
  have hchars := congrArg String.toList heq
  rw [Text.decodeLossy, Text.decodeLossy, String.toList_ofList, String.toList_ofList,
    Text.decodeLossyChars_append hascii, Text.decodeLossyChars_append (by decide)] at hchars
  have hsame := (List.cons.inj (List.append_cancel_left hchars)).1
  have hall : ∀ n < 16, Char.ofNat n ≠ Char.ofNat (37 : UInt8).toNat := by decide
  exact hall _ hv hsame

/-- **Percent escapes are undone, and signed ones as well.** What a text is decoded to is what it
stands for if the first of two digits may be replaced by a plus sign. What it stands for by
digits alone is one text, too, and this is what it is decoded to exactly if no percent sign is
followed by a plus sign and a digit. -/
theorem percentDecode_standsFor (s : String) :
    (∀ t, StandsFor signedPair? s t ↔ t = percentDecode s) ∧ (∃! t, StandsFor pair? s t) ∧
      (StandsFor pair? s (percentDecode s) ↔ ¬ HoldsSigned (Text.bytes s)) := by
  have hdecoded := undone_decodePercent (Text.bytes s)
  refine ⟨fun t => ⟨?_, ?_⟩, standsFor_unique pair? s, ⟨?_, ?_⟩⟩
  · rintro ⟨out, hout, rfl⟩
    rw [hout.unique hdecoded]
    rfl
  · rintro rfl
    exact ⟨_, hdecoded, rfl⟩
  · rintro ⟨out', hout', heq⟩ hsigned
    obtain ⟨before, v, after, after', hv, hout, hpart⟩ :=
      hdecoded.part_of_holdsSigned hout' hsigned
    rw [percentDecode, hout, hpart] at heq
    exact decodeLossy_ne hv heq
  · intro hnone
    exact ⟨_, hdecoded.of_not_holdsSigned hnone, rfl⟩

/-- **A sign and a digit are taken for an escape.** The text holds none and stands for itself,
but is decoded to a line feed. -/
theorem signedEscape_undone :
    StandsFor pair? "%+A" "%+A" ∧ percentDecode "%+A" = "\n" ∧
      ¬ StandsFor pair? "%+A" (percentDecode "%+A") := by
  have hbytes : Text.bytes "%+A" = [37, 43, 65] := by decide +kernel
  have hself : StandsFor pair? "%+A" "%+A" := by
    refine ⟨[37, 43, 65], ?_, ?_⟩
    · rw [hbytes]
      refine .byte ?_ (.byte (by simp) (.byte (by simp) .nil))
      intro x y after heq
      cases heq
      rfl
    · rw [← hbytes, Text.decodeLossy_bytes]
  have hdecoded : percentDecode "%+A" = "\n" := by
    have hline : decodePercent [37, 43, 65] = Text.bytes "\n" := by decide +kernel
    rw [percentDecode, hbytes, hline, Text.decodeLossy_bytes]
  refine ⟨hself, hdecoded, ?_⟩
  rw [hdecoded]
  intro hother
  have hsame := (standsFor_unique pair? "%+A").unique hself hother
  exact absurd hsame (by decide)

end PatternAudit.Pointer
