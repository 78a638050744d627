/-
Written trees read back.

`Reads shape levels v` says that the text of a tree, on one line or over several, is read as
that tree and to its end, wherever it stands in a longer one. There is one lemma for each
shape, and each is about the text that is left when the parts have been read, so a form that
is put together of shapes reads back by putting the lemmas together. `parseAs_write` is about
whole texts.

What is written is not all that can be read. Records are written in declared order and
without fields that have no value, numbers without points and exponents, and blanks stand
only where a line begins and after a colon.
-/
import PatternAudit.Json.Read
import PatternAudit.Json.Write
import PatternAudit.Proofs.Lists

set_option autoImplicit false

namespace PatternAudit.Json.Read

/-! ## Strings -/

theorem hexDigit?_hexDigit : ∀ n < 16, hexDigit? (Write.hexDigit n) = some n := by decide

/-- A control character comes back from the four digits that it is written with. -/
theorem unicodeEscape_control {c : Char} (h : c.toNat < 0x20) (rest : List Char) :
    unicodeEscape false ('0' :: '0' :: Write.hexDigit (c.toNat / 16)
      :: Write.hexDigit (c.toNat % 16) :: rest) = .ok (c, rest) := by
  have hzero : hexDigit? '0' = some 0 := by decide
  have hhigh : hexDigit? (Write.hexDigit (c.toNat / 16)) = some (c.toNat / 16) :=
    hexDigit?_hexDigit _ (by omega)
  have hlow : hexDigit? (Write.hexDigit (c.toNat % 16)) = some (c.toNat % 16) :=
    hexDigit?_hexDigit _ (by omega)
  have hnumber : ((0 * 16 + 0) * 16 + c.toNat / 16) * 16 + c.toNat % 16 = c.toNat := by omega
  have hfour : hexFour ('0' :: '0' :: Write.hexDigit (c.toNat / 16)
      :: Write.hexDigit (c.toNat % 16) :: rest) = .ok (c.toNat, rest) := by
    simp only [hexFour, hzero, hhigh, hlow, hnumber]
  have hsurrogate : ¬(0xDC00 ≤ c.toNat && c.toNat ≤ 0xDFFF) = true := by
    simp only [Bool.and_eq_true, decide_eq_true_eq]
    omega
  rw [unicodeEscape, hfour]
  simp only [bind, Except.bind, Bool.false_eq_true, if_false, hsurrogate]
  rw [if_pos (by simp; omega), Char.ofNat_toNat]

/-- A character of a string is read as it is written. -/
theorem stringBody_escapeChar (c : Char) (fuel : Nat) (acc rest : List Char) :
    stringBody false (fuel + 1) acc (Write.escapeChar c ++ rest)
      = stringBody false fuel (c :: acc) rest := by
  by_cases hshort : c ∈ ['"', '\\', '\n', '\r', '\t', '\x08', '\x0c']
  · -- these have an escape of two characters
    simp only [List.mem_cons, List.not_mem_nil, or_false] at hshort
    rcases hshort with rfl | rfl | rfl | rfl | rfl | rfl | rfl <;> rfl
  · simp only [List.mem_cons, List.not_mem_nil, or_false, not_or] at hshort
    obtain ⟨hquote, hbackslash, hn, hr, ht, hb, hf⟩ := hshort
    rw [Write.escapeChar, if_neg hquote, if_neg hbackslash, if_neg hn, if_neg hr, if_neg ht,
      if_neg hb, if_neg hf]
    split
    · rename_i hcontrol
      have hescape := unicodeEscape_control hcontrol rest
      simp [stringBody, escape, hescape, bind, Except.bind]
    · rename_i hplain
      simp [stringBody, hquote, hbackslash, hplain]

theorem stringBody_escaped (cs acc rest : List Char) {fuel : Nat} (h : cs.length < fuel) :
    stringBody false fuel acc (cs.flatMap Write.escapeChar ++ '"' :: rest)
      = .ok (acc.reverse ++ cs, rest) := by
  induction cs generalizing acc fuel with
  | nil =>
    obtain ⟨fuel, rfl⟩ := Nat.exists_eq_succ_of_ne_zero (Nat.ne_zero_of_lt h)
    simp [stringBody]
  | cons c cs ih =>
    obtain ⟨fuel, rfl⟩ := Nat.exists_eq_succ_of_ne_zero (Nat.ne_zero_of_lt h)
    have hshort : cs.length < fuel := by simpa using h
    rw [List.flatMap_cons, List.append_assoc, stringBody_escapeChar, ih _ hshort]
    simp

theorem length_le_length_escaped (cs : List Char) :
    cs.length ≤ (cs.flatMap Write.escapeChar).length := by
  induction cs with
  | nil => exact Nat.le_refl _
  | cons c cs ih =>
    have hone : 1 ≤ (Write.escapeChar c).length := by
      unfold Write.escapeChar
      repeat' split
      all_goals exact Nat.le_add_left 1 _
    rw [List.flatMap_cons, List.length_append, List.length_cons]
    omega

/-- **A string reads back**, whatever characters it has. -/
theorem string_written (s : String) (rest : List Char) :
    string false (s.toList.flatMap Write.escapeChar ++ '"' :: rest) = .ok (s, rest) := by
  have hfuel : s.toList.length
      < (s.toList.flatMap Write.escapeChar ++ '"' :: rest).length + 1 := by
    have hle := length_le_length_escaped s.toList
    rw [List.length_append]
    omega
  rw [string, stringBody_escaped _ _ _ hfuel]
  simp [bind, Except.bind]

/-! ## Numbers -/

/-- What may follow a value: the end of the text or of its line, or what closes or goes on
with the list that the value stands in. -/
def Ended (rest : List Char) : Prop :=
  ∀ c ∈ rest.head?, c = ',' ∨ c = ']' ∨ c = '\x7d' ∨ c = '\n'

theorem isDigit_digitChar : ∀ n < 10, isDigit (Nat.digitChar n) = true := by decide

theorem isDigit_of_mem_toDigits {n : Nat} {c : Char} (h : c ∈ Nat.toDigits 10 n) :
    isDigit c = true :=
  of_mem_toDigits (p := fun c => isDigit c = true) (by decide) isDigit_digitChar h

/-- The first digit of a number is not zero, unless the number is. -/
theorem exists_toDigits_eq_cons {n : Nat} (h : 0 < n) :
    ∃ c cs, Nat.toDigits 10 n = c :: cs ∧ c ≠ '0' := by
  have hdigit : ∀ k < 10, 0 < k → Nat.digitChar k ≠ '0' := by decide
  induction n using Nat.strongRecOn with
  | ind n ih =>
    rw [Nat.toDigits_eq_if (by decide)]
    split
    · rename_i hlt
      exact ⟨_, [], rfl, hdigit n hlt h⟩
    · rename_i hge
      obtain ⟨c, cs, hcs, hc⟩ := ih (n / 10) (by omega) (by omega)
      exact ⟨c, cs ++ [Nat.digitChar (n % 10)], by rw [hcs, List.cons_append], hc⟩

theorem le_ofDigitChars (cs : List Char) (n : Nat) : n ≤ Nat.ofDigitChars 10 cs n := by
  induction cs generalizing n with
  | nil => exact Nat.le_refl n
  | cons c cs ih =>
    have hstep : n ≤ 10 * n + (c.toNat - '0'.toNat) := by omega
    exact Nat.le_trans hstep (ih _)

theorem not_isDigit_of_ended {rest : List Char} (h : Ended rest) :
    rest.head?.any isDigit = false := by
  cases rest with
  | nil => rfl
  | cons c rest => rcases h c rfl with rfl | rfl | rfl | rfl <;> rfl

/-- Digits are read as far as they go, where the number fits 64 bits. -/
theorem significand_digits {cs rest : List Char} (hdigits : ∀ c ∈ cs, isDigit c = true)
    (hrest : Ended rest) {n : Nat} (hfits : Word.fits 64 (Nat.ofDigitChars 10 cs n) = true) :
    significand n (cs ++ rest) = (Nat.ofDigitChars 10 cs n, rest) := by
  induction cs generalizing n with
  | nil =>
    have hend := not_isDigit_of_ended hrest
    cases rest with
    | nil => rfl
    | cons c rest =>
      have hc : isDigit c = false := hend
      simp [significand, hc, Nat.ofDigitChars]
  | cons c cs ih =>
    obtain ⟨hc, hcs⟩ := List.forall_mem_cons.1 hdigits
    have hvalue : 10 * n + (c.toNat - '0'.toNat) = n * 10 + digit c := by
      rw [digit]
      omega
    have hnext : Nat.ofDigitChars 10 (c :: cs) n = Nat.ofDigitChars 10 cs (n * 10 + digit c) := by
      rw [← hvalue]
      rfl
    rw [hnext] at hfits ⊢
    -- a number fits where one fits that goes on from it
    have hsofar : Word.fits 64 (n * 10 + digit c) = true := by
      have hle := le_ofDigitChars cs (n * 10 + digit c)
      rw [Word.fits, decide_eq_true_eq] at hfits ⊢
      omega
    rw [List.cons_append, significand, hc, hsofar]
    exact ih hcs hfits

theorem afterInteger_of_ended (n : Nat) {rest : List Char} (h : Ended rest) :
    afterInteger false n rest = .ok (.int n, rest) := by
  cases rest with
  | nil => rfl
  | cons c rest => rcases h c rfl with rfl | rfl | rfl | rfl <;> rfl

/-- **A natural number reads back** if it fits 64 bits. -/
theorem number_toDigits {n : Nat} (hfits : Word.fits 64 n = true) {rest : List Char}
    (hrest : Ended rest) :
    number false (Nat.toDigits 10 n ++ rest) = .ok (.int n, rest) := by
  have hend := not_isDigit_of_ended hrest
  rcases Nat.eq_zero_or_pos n with rfl | hpos
  · have hzero : Nat.toDigits 10 0 = ['0'] := by decide
    simp [hzero, number, hend, afterInteger_of_ended 0 hrest]
  · obtain ⟨c, cs, hcs, hc⟩ := exists_toDigits_eq_cons hpos
    have hdigits : ∀ a ∈ c :: cs, isDigit a = true := fun a ha =>
      isDigit_of_mem_toDigits (hcs ▸ ha)
    have hvalue : Nat.ofDigitChars 10 cs (digit c) = n := by
      have hall := Nat.ofDigitChars_toDigits (n := n) (b := 10) (by decide) (by decide)
      rw [hcs] at hall
      simpa [Nat.ofDigitChars, digit] using hall
    have hread := significand_digits (fun a ha => hdigits a (List.mem_cons_of_mem _ ha)) hrest
      (n := digit c) (by rw [hvalue]; exact hfits)
    rw [hcs, List.cons_append, number]
    · simp only [hdigits c List.mem_cons_self, if_true, hread, hvalue, hend,
        Bool.false_eq_true, if_false, afterInteger_of_ended n hrest]
    · exact hc

/-! ## Layouts -/

/-- How a tree is written: on one line, or over several from a depth on. -/
inductive Layout where
  | line
  | lines (depth : Nat)

namespace Layout

/-- The text of a tree. -/
def write : Layout → Json → String
  | line => Write.compact
  | lines depth => Write.pretty depth

/-- How the parts of a tree are written. -/
def below : Layout → Layout
  | line => line
  | lines depth => lines (depth + 1)

/-- What stands before a part, and before what closes the list. -/
def lead : Layout → List Char
  | line => []
  | lines depth => (Write.indent depth).toList

/-- What stands after a colon. -/
def gap : Layout → List Char
  | line => []
  | lines _ => [' ']

theorem lead_lines (depth : Nat) :
    (lines depth).lead = '\n' :: List.replicate (2 * depth) ' ' := by
  rw [lead, Write.indent, String.toList_append, String.toList_ofList, String.toList_ofList,
    List.singleton_append]

theorem skipBlanks_lead (layout : Layout) (cs : List Char) :
    skipBlanks (layout.lead ++ cs) = skipBlanks cs := by
  have hspaces : ∀ n, skipBlanks (List.replicate n ' ' ++ cs) = skipBlanks cs := by
    intro n
    induction n with
    | zero => rfl
    | succ n ih => exact ih
  cases layout with
  | line => rfl
  | lines depth =>
    rw [lead_lines]
    exact hspaces (2 * depth)

/-- A line begins with what may follow a value. -/
theorem ended_lead (layout : Layout) {cs : List Char} (h : Ended cs) :
    Ended (layout.lead ++ cs) := by
  cases layout with
  | line => exact h
  | lines depth =>
    intro c hc
    rw [lead_lines] at hc
    exact .inr (.inr (.inr (Option.some.inj hc).symm))

/-- A value is read from where it begins. -/
theorem value_gap (layout : Layout) {fuel : Nat} (hfuel : 0 < fuel) (depth : Nat) (shape : Shape)
    (cs : List Char) : value false fuel depth shape (layout.gap ++ cs)
      = value false fuel depth shape cs := by
  obtain ⟨fuel, rfl⟩ := Nat.exists_eq_add_of_le' hfuel
  cases layout <;> rfl

end Layout

/-! ## Values -/

/-- The characters of a tree. -/
def chars (layout : Layout) (v : Json) : List Char := (layout.write v).toList

/-- Whether a value other than null may begin with a character: it is no blank, and neither
closes nor goes on with a list. -/
def Opens (c : Char) : Prop := c ∉ ['n', ' ', '\n', '\t', '\r', ',', ']', '\x7d']

/-- Whether the text of a tree is read as that tree, in the form of a shape and within a
number of levels, wherever it stands and however it is laid out. -/
structure Reads (shape : Shape) (levels : Nat) (v : Json) : Prop where
  opens : ∀ layout, ∃ c cs, chars layout v = c :: cs ∧ Opens c
  read : ∀ layout fuel depth rest, (chars layout v).length ≤ fuel → levels < depth →
    Ended rest → value false fuel depth shape (chars layout v ++ rest) = .ok (v, rest)

/-- Fuel for the characters of a text is more than fuel for those after the first one. -/
theorem exists_fuel {layout : Layout} {v : Json} {c : Char} {cs : List Char}
    (hv : chars layout v = c :: cs) {fuel : Nat} (h : (chars layout v).length ≤ fuel) :
    ∃ less, fuel = less + 1 ∧ cs.length ≤ less := by
  rw [hv, List.length_cons] at h
  obtain ⟨less, rfl⟩ := Nat.exists_eq_add_of_le' (Nat.le_of_add_left_le h)
  exact ⟨less, rfl, Nat.le_of_succ_le_succ h⟩

theorem skipBlanks_of_opens {c : Char} (h : Opens c) (cs : List Char) :
    skipBlanks (c :: cs) = c :: cs := by
  simp only [Opens, List.mem_cons, List.not_mem_nil, or_false, not_or] at h
  obtain ⟨-, hspace, hline, htab, hreturn, -⟩ := h
  unfold skipBlanks
  split <;> simp_all

section Leaves

variable (levels : Nat)

theorem chars_str (layout : Layout) (s : String) :
    chars layout (.str s) = '"' :: (s.toList.flatMap Write.escapeChar ++ ['"']) := by
  have hwrite : layout.write (.str s) = Write.string s := by cases layout <;> rfl
  rw [chars, hwrite, Write.string, String.toList_ofList]
  rfl

theorem opens_str (s : String) (layout : Layout) :
    ∃ c cs, chars layout (.str s) = c :: cs ∧ Opens c :=
  ⟨'"', _, chars_str layout s, by unfold Opens; decide⟩

/-- The text of a string, with what follows it. -/
theorem chars_str_append (layout : Layout) (s : String) (rest : List Char) :
    chars layout (.str s) ++ rest = '"' :: (s.toList.flatMap Write.escapeChar ++ '"' :: rest) := by
  rw [chars_str, List.cons_append, List.append_assoc]
  rfl

theorem reads_string (s : String) : Reads .string levels (.str s) where
  opens := opens_str s
  read layout fuel depth rest hfuel _ _ := by
    obtain ⟨fuel, rfl, -⟩ := exists_fuel (chars_str layout s) hfuel
    have hunfold : ∀ cs, value false (fuel + 1) depth .string ('"' :: cs)
        = (string false cs).bind fun p => .ok (.str p.1, p.2) := fun cs => rfl
    rw [chars_str_append, hunfold, string_written]
    rfl

theorem reads_refined {accepts : String → Bool} {complaint : String → String} {s : String}
    (h : accepts s = true) : Reads (.refined accepts complaint) levels (.str s) where
  opens := opens_str s
  read layout fuel depth rest hfuel _ _ := by
    obtain ⟨fuel, rfl, -⟩ := exists_fuel (chars_str layout s) hfuel
    have hunfold : ∀ cs, value false (fuel + 1) depth (.refined accepts complaint) ('"' :: cs)
        = (string false cs).bind fun p =>
          if accepts p.1 then .ok (.str p.1, p.2)
          else .error ⟨.mismatch (.refused (complaint p.1)), pastObject p.2, 0⟩ := fun cs => rfl
    rw [chars_str_append, hunfold, string_written]
    exact if_pos h

theorem reads_variant {names : List String} {s : String} (h : s ∈ names) :
    Reads (.variant names) levels (.str s) where
  opens := opens_str s
  read layout fuel depth rest hfuel _ _ := by
    obtain ⟨fuel, rfl, -⟩ := exists_fuel (chars_str layout s) hfuel
    have hunfold : ∀ cs, value false (fuel + 1) depth (.variant names) ('"' :: cs)
        = (string false cs).bind fun p =>
          (if p.1 ∈ names then .ok (p.1, p.2)
            else stop (.mismatch (.unknownVariant p.1 names)) p.2).bind fun q =>
          .ok (.str q.1, q.2) := fun cs => rfl
    rw [chars_str_append, hunfold, string_written]
    simp [Except.bind, h]

theorem chars_boolean (layout : Layout) (b : Bool) :
    chars layout (.bool b) = (if b then "true" else "false").toList := by
  cases layout <;> rfl

theorem reads_boolean (b : Bool) : Reads .boolean levels (.bool b) where
  opens layout := by
    rw [chars_boolean]
    cases b <;> exact ⟨_, _, rfl, by unfold Opens; decide⟩
  read layout fuel depth rest hfuel _ _ := by
    rw [chars_boolean] at hfuel ⊢
    have hone : 1 ≤ fuel := by
      cases b with
      | false => exact Nat.le_of_add_left_le (Nat.le_trans (by decide : 1 + 4 ≤ _) hfuel)
      | true => exact Nat.le_trans (by decide) hfuel
    obtain ⟨fuel, rfl⟩ := Nat.exists_eq_add_of_le' hone
    cases b <;> rfl

/-- A digit opens a value, and no number with a sign. -/
theorem opens_of_isDigit {c : Char} (h : isDigit c = true) : Opens c ∧ c ≠ '-' := by
  have hnone : ['-', 'n', ' ', '\n', '\t', '\r', ',', ']', '\x7d'].all (!isDigit ·) = true := rfl
  have hno : c ∉ ['-', 'n', ' ', '\n', '\t', '\r', ',', ']', '\x7d'] := by
    intro hmem
    have hother := List.all_eq_true.1 hnone c hmem
    rw [h] at hother
    cases hother
  exact ⟨fun hmem => hno (List.mem_cons_of_mem _ hmem), List.ne_of_not_mem_cons hno⟩

theorem chars_natural (layout : Layout) (n : Nat) :
    chars layout (.num (.int n)) = Nat.toDigits 10 n := by
  have hwrite : layout.write (.num (.int n)) = String.ofList (Nat.toDigits 10 n) := by
    cases layout <;> rfl
  rw [chars, hwrite, String.toList_ofList]

theorem reads_natural {n : Nat} (h : Word.fits 64 n = true) (name : String) :
    Reads (.natural name) levels (.num (.int n)) := by
  obtain ⟨c, cs, hcs⟩ := List.exists_cons_of_ne_nil (Nat.toDigits_ne_nil (n := n) (b := 10))
  have hc : isDigit c = true := isDigit_of_mem_toDigits (hcs ▸ List.mem_cons_self)
  obtain ⟨hopens, hminus⟩ := opens_of_isDigit hc
  refine ⟨fun layout => ⟨c, cs, (chars_natural layout n).trans hcs, hopens⟩, ?_⟩
  intro layout fuel depth rest hfuel _ hrest
  obtain ⟨fuel, rfl, -⟩ := exists_fuel ((chars_natural layout n).trans hcs) hfuel
  have hread := number_toDigits h hrest
  rw [chars_natural]
  rw [hcs, List.cons_append] at hread ⊢
  have hsign : (c == '-') = false := beq_false_of_ne hminus
  unfold value
  simp only [skipBlanks_of_opens hopens, hminus, hc, hsign, hread, bind, Except.bind,
    decide_false, Bool.false_or, if_true, if_false]
  exact if_neg (Int.not_lt.2 (Int.natCast_nonneg n))

end Leaves

/-! ## Lists

The text of a list is read part by part. Before the first part there is no comma, and in an
empty list there are no lines. -/

/-- The texts of parts, up to what closes their list. -/
def separated (layout : Layout) (close : Char) (first : Bool) : List (List Char) → List Char
  | [] => (if first then [] else layout.lead) ++ [close]
  | part :: parts =>
    (if first then [] else [',']) ++ (layout.below.lead ++ part)
      ++ separated layout close false parts

/-- Parts and what closes their list take a character at least. -/
theorem length_separated_pos (layout : Layout) (close : Char) (first : Bool)
    (parts : List (List Char)) : 0 < (separated layout close first parts).length := by
  induction parts generalizing first with
  | nil => simp [separated]
  | cons part parts ih =>
    have hrest := ih false
    rw [separated, List.length_append]
    omega

/-- What closes a list is found behind the lead of its line. -/
theorem skipBlanks_close (layout : Layout) {close : Char} (h : close = ']' ∨ close = '\x7d')
    (first : Bool) (rest : List Char) :
    skipBlanks (separated layout close first [] ++ rest) = close :: rest := by
  have hclose : skipBlanks (close :: rest) = close :: rest := by
    rcases h with rfl | rfl <;> rfl
  rw [separated, List.append_assoc]
  cases first with
  | true => exact hclose
  | false => exact (layout.skipBlanks_lead (close :: rest)).trans hclose

theorem separated_ended (layout : Layout) {close : Char} (h : close = ']' ∨ close = '\x7d')
    (parts : List (List Char)) (rest : List Char) :
    Ended (separated layout close false parts ++ rest) := by
  cases parts with
  | nil =>
    have hclose : Ended ([close] ++ rest) := by
      intro c hc
      rw [← Option.some.inj hc]
      exact .inr (h.imp id .inl)
    rw [separated, if_neg Bool.false_ne_true, List.append_assoc]
    exact layout.ended_lead hclose
  | cons part parts =>
    intro c hc
    exact .inl (Option.some.inj hc).symm

/-- Where a list has parts, commas stand between them and the rest of its last line before
what closes it. -/
theorem toList_intercalate (layout : Layout) (close : Char) (part : List Char)
    (parts : List (List Char)) :
    (",".intercalate ((part :: parts).map fun p => String.ofList (layout.below.lead ++ p))).toList
        ++ (layout.lead ++ [close])
      = separated layout close true (part :: parts) := by
  induction parts generalizing part with
  | nil => simp [separated]
  | cons next parts ih =>
    have hnext := ih next
    rw [List.map_cons] at hnext
    rw [List.map_cons, List.map_cons, String.intercalate_cons_cons, String.toList_append,
      String.toList_append, List.append_assoc, hnext]
    simp [separated]

theorem compactItems_eq (vs : List Json) : Write.compactItems vs = vs.map Write.compact := by
  induction vs with
  | nil => rfl
  | cons v vs ih => rw [Write.compactItems, ih, List.map_cons]

theorem prettyItems_eq (depth : Nat) (vs : List Json) :
    Write.prettyItems depth vs = vs.map fun v => Write.indent depth ++ Write.pretty depth v := by
  induction vs with
  | nil => rfl
  | cons v vs ih => rw [Write.prettyItems, ih, List.map_cons]

theorem chars_arr (layout : Layout) (vs : List Json) :
    chars layout (.arr vs) = '[' :: separated layout ']' true (vs.map (chars layout.below)) := by
  cases vs with
  | nil =>
    cases layout with
    | line => rfl
    | lines depth =>
      rw [chars, Layout.write, Write.pretty]
      rfl
  | cons v vs =>
    have hparts := toList_intercalate layout ']' (chars layout.below v) (vs.map (chars layout.below))
    refine Eq.trans ?_ (congrArg ('[' :: ·) hparts)
    cases layout with
    | line =>
      rw [chars, Layout.write, Write.compact, compactItems_eq]
      simp [Layout.lead, Layout.below, Layout.write, chars, Function.comp_def]
    | lines depth =>
      rw [chars, Layout.write, Write.pretty, prettyItems_eq]
      simp [Layout.lead, Layout.below, Layout.write, chars, Function.comp_def]

/-- The next item is found where it begins. -/
theorem nextItem_written (layout : Layout) {c : Char} (h : Opens c) (first : Bool)
    (cs : List Char) :
    nextItem false first ((if first then [] else [',']) ++ (layout.lead ++ (c :: cs)))
      = .ok (true, c :: cs) := by
  have hskip : skipBlanks (layout.lead ++ (c :: cs)) = c :: cs := by
    rw [layout.skipBlanks_lead, skipBlanks_of_opens h]
  simp only [Opens, List.mem_cons, List.not_mem_nil, or_false, not_or] at h
  obtain ⟨-, -, -, -, -, hcomma, hbracket, -⟩ := h
  cases first with
  | true =>
    rw [if_pos rfl, List.nil_append, nextItem, hskip]
    split <;> simp_all
  | false =>
    have hseparator : ∀ cs, skipBlanks (',' :: cs) = ',' :: cs := fun cs => rfl
    rw [if_neg Bool.false_ne_true, List.singleton_append, nextItem, hseparator]
    simp only [Bool.false_eq_true, if_false, hskip]
    split <;> simp_all

/-- After the last item comes what closes the list. -/
theorem nextItem_close (layout : Layout) (first : Bool) (rest : List Char) :
    nextItem false first (separated layout ']' first [] ++ rest) = .ok (false, ']' :: rest) := by
  rw [nextItem, skipBlanks_close layout (.inl rfl)]
  rfl

section Lists

variable {shape : Shape} {levels : Nat}

theorem items_written (layout : Layout) {vs : List Json} (h : ∀ v ∈ vs, Reads shape levels v)
    {fuel depth : Nat} (hdepth : levels < depth) {first : Bool}
    (hfuel : (separated layout ']' first (vs.map (chars layout.below))).length ≤ fuel)
    (rest : List Char) :
    items false fuel depth shape first
        (separated layout ']' first (vs.map (chars layout.below)) ++ rest) = .ok (vs, rest) := by
  induction vs generalizing fuel first with
  | nil =>
    obtain ⟨fuel, rfl⟩ := Nat.exists_eq_add_of_le' (m := 1)
      (Nat.le_trans (length_separated_pos layout _ _ _) hfuel)
    rw [List.map_nil, items, nextItem_close]
    rfl
  | cons v vs ih =>
    obtain ⟨hv, hvs⟩ := List.forall_mem_cons.1 h
    obtain ⟨c, cs, hchars, hopens⟩ := hv.opens layout.below
    have hclose := length_separated_pos layout ']' false (vs.map (chars layout.below))
    simp only [List.map_cons, separated, List.length_append] at hfuel
    have hone : 1 ≤ (chars layout.below v).length := by
      rw [hchars]
      exact Nat.le_add_left 1 _
    -- a turn takes one unit of fuel and at least one character
    obtain ⟨fuel, rfl⟩ := Nat.exists_eq_add_of_le' (m := 1) (n := fuel) (by omega)
    have hnext := nextItem_written layout.below hopens first
      (cs ++ separated layout ']' false (vs.map (chars layout.below)) ++ rest)
    have hvalue := hv.read layout.below fuel depth
      (separated layout ']' false (vs.map (chars layout.below)) ++ rest) (by omega)
      hdepth (separated_ended layout (.inl rfl) _ _)
    have hrest : items false fuel depth shape false
        (separated layout ']' false (vs.map (chars layout.below)) ++ rest) = .ok (vs, rest) :=
      ih hvs (by omega)
    simp only [List.map_cons, separated, List.append_assoc, hchars, List.cons_append]
      at hnext hvalue ⊢
    rw [items, hnext]
    simp only [bind, Except.bind, if_true, hvalue, hrest]

/-- **A sequence reads back** if its items do, one level up. -/
theorem reads_sequence {vs : List Json} (h : ∀ v ∈ vs, Reads shape levels v) :
    Reads (.sequence shape) (levels + 1) (.arr vs) where
  opens layout := ⟨'[', _, chars_arr layout vs, by unfold Opens; decide⟩
  read layout fuel depth rest hfuel hdepth _ := by
    obtain ⟨fuel, rfl, hfuel⟩ := exists_fuel (chars_arr layout vs) hfuel
    have hunfold : ∀ cs, value false (fuel + 1) depth (.sequence shape) ('[' :: cs)
        = if depth ≤ 1 then stopAhead .tooDeep ('[' :: cs)
          else (items false fuel (depth - 1) shape true cs).bind fun p =>
            .ok (.arr p.1, p.2) := fun cs => rfl
    have hitems : items false fuel (depth - 1) shape true
        (separated layout ']' true (vs.map (chars layout.below)) ++ rest) = .ok (vs, rest) :=
      items_written layout h (by omega) (by omega) rest
    rw [chars_arr, List.cons_append, hunfold, if_neg (by omega), hitems]
    rfl

end Lists

/-! ## Members

The value of a member may be read with a unit of fuel to spare, because there is a key before
it. A value that may be null takes that unit. -/

/-- Whether the text of a tree is read as that tree where there is fuel to spare. -/
def ReadsMember (shape : Shape) (levels : Nat) (v : Json) : Prop :=
  ∀ layout fuel depth rest, (chars layout v).length < fuel → levels < depth → Ended rest →
    value false fuel depth shape (chars layout v ++ rest) = .ok (v, rest)

theorem Reads.member {shape : Shape} {levels : Nat} {v : Json} (h : Reads shape levels v) :
    ReadsMember shape levels v :=
  fun layout fuel depth rest hfuel => h.read layout fuel depth rest (Nat.le_of_lt hfuel)

/-- What reads back does so where null could stand in its place. -/
theorem Reads.nullable {shape : Shape} {levels : Nat} {v : Json} (h : Reads shape levels v) :
    ReadsMember (.nullable shape) levels v := by
  intro layout fuel depth rest hfuel hdepth hrest
  obtain ⟨fuel, rfl⟩ := Nat.exists_eq_add_of_le' (Nat.zero_lt_of_lt hfuel)
  obtain ⟨c, cs, hchars, hopens⟩ := h.opens layout
  have hnull : c ≠ 'n' := List.ne_of_not_mem_cons hopens
  have hread := h.read layout fuel depth rest (Nat.le_of_lt_succ hfuel) hdepth hrest
  rw [hchars, List.cons_append] at hread ⊢
  unfold value
  simp only [skipBlanks_of_opens hopens, hnull, if_false, hread]

/-- The text of a member. -/
def memberChars (layout : Layout) (m : String × Json) : List Char :=
  chars layout (.str m.1) ++ ':' :: (layout.gap ++ chars layout m.2)

theorem compactMembers_eq (ms : List (String × Json)) :
    Write.compactMembers ms
      = ms.map fun m => Write.string m.1 ++ ":" ++ Write.compact m.2 := by
  induction ms with
  | nil => rfl
  | cons m ms ih => rw [Write.compactMembers, ih, List.map_cons]

theorem prettyMembers_eq (depth : Nat) (ms : List (String × Json)) :
    Write.prettyMembers depth ms = ms.map fun m =>
      Write.indent depth ++ Write.string m.1 ++ ": " ++ Write.pretty depth m.2 := by
  induction ms with
  | nil => rfl
  | cons m ms ih => rw [Write.prettyMembers, ih, List.map_cons]

theorem chars_obj (layout : Layout) (ms : List (String × Json)) :
    chars layout (.obj ms)
      = '{' :: separated layout '\x7d' true (ms.map (memberChars layout.below)) := by
  cases ms with
  | nil =>
    cases layout with
    | line => rfl
    | lines depth =>
      rw [chars, Layout.write, Write.pretty]
      rfl
  | cons m ms =>
    have hparts := toList_intercalate layout '\x7d' (memberChars layout.below m)
      (ms.map (memberChars layout.below))
    refine Eq.trans ?_ (congrArg ('{' :: ·) hparts)
    cases layout with
    | line =>
      rw [chars, Layout.write, Write.compact, compactMembers_eq]
      simp [Layout.lead, Layout.below, Layout.write, Layout.gap, memberChars, chars,
        Write.compact, Function.comp_def]
    | lines depth =>
      rw [chars, Layout.write, Write.pretty, prettyMembers_eq]
      simp [Layout.lead, Layout.below, Layout.write, Layout.gap, memberChars, chars,
        Write.pretty, Function.comp_def]

/-- The next key is found, and what comes after it. -/
theorem nextKey_written (layout layout' : Layout) (key : String) (first : Bool) (cs : List Char) :
    nextKey false first
        ((if first then [] else [',']) ++ (layout.lead ++ (chars layout' (.str key) ++ cs)))
      = .ok (some key, cs) := by
  have hskip := layout.skipBlanks_lead (chars layout' (.str key) ++ cs)
  have hquote : ∀ cs, skipBlanks ('"' :: cs) = '"' :: cs := fun cs => rfl
  have hseparator : ∀ cs, skipBlanks (',' :: cs) = ',' :: cs := fun cs => rfl
  rw [chars_str_append, hquote] at hskip
  rw [chars_str_append]
  cases first with
  | true =>
    rw [if_pos rfl, List.nil_append, nextKey, hskip]
    simp only [if_true, string_written, bind, Except.bind]
  | false =>
    rw [if_neg Bool.false_ne_true, List.singleton_append, nextKey, hseparator]
    simp only [Bool.false_eq_true, if_false, hskip, string_written, bind, Except.bind]

/-- After the last member comes what closes the object. -/
theorem nextKey_close (layout : Layout) (first : Bool) (rest : List Char) :
    nextKey false first (separated layout '\x7d' first [] ++ rest) = .ok (none, '\x7d' :: rest) := by
  rw [nextKey, skipBlanks_close layout (.inr rfl)]
  rfl

/-- A member, with what has to be read of it and after it. -/
theorem length_separated_member (layout : Layout) (first : Bool) (m : String × Json)
    (ms : List (String × Json)) :
    (chars layout.below m.2).length
        + (separated layout '\x7d' false (ms.map (memberChars layout.below))).length + 2
      ≤ (separated layout '\x7d' first ((m :: ms).map (memberChars layout.below))).length := by
  have hkey : 1 ≤ (chars layout.below (.str m.1)).length := by
    rw [chars_str]
    exact Nat.le_add_left 1 _
  simp only [List.map_cons, separated, memberChars, List.length_append, List.length_cons]
  omega

section Members

variable (layout : Layout) {levels fuel depth : Nat} (hdepth : levels < depth) {first : Bool}

include hdepth

theorem members_written {shape : Shape} {ms done : List (String × Json)}
    (h : ∀ m ∈ ms, Reads shape levels m.2) (hkeys : ((done ++ ms).map Prod.fst).Nodup)
    (hfuel : (separated layout '\x7d' first (ms.map (memberChars layout.below))).length ≤ fuel)
    (rest : List Char) :
    members false fuel depth shape first done
        (separated layout '\x7d' first (ms.map (memberChars layout.below)) ++ rest)
      = .ok (done ++ ms, rest) := by
  induction ms generalizing fuel first done with
  | nil =>
    obtain ⟨fuel, rfl⟩ := Nat.exists_eq_add_of_le' (m := 1)
      (Nat.le_trans (length_separated_pos layout _ _ _) hfuel)
    rw [List.append_nil, List.map_nil, members, nextKey_close]
    rfl
  | cons m ms ih =>
    obtain ⟨key, v⟩ := m
    obtain ⟨hv, hms⟩ := List.forall_mem_cons.1 h
    have hlength : (chars layout.below v).length
        + (separated layout '\x7d' false (ms.map (memberChars layout.below))).length + 2 ≤ fuel :=
      Nat.le_trans (length_separated_member layout first (key, v) ms) hfuel
    obtain ⟨fuel, rfl⟩ := Nat.exists_eq_add_of_le' (m := 1) (n := fuel) (by omega)
    -- what was read before has other keys, so the member comes to its end
    have hfresh : key ∉ done.map Prod.fst := by
      rw [List.map_append] at hkeys
      intro hmem
      exact (List.nodup_append.1 hkeys).2.2 key hmem key List.mem_cons_self rfl
    have hkeys' : ((done ++ [(key, v)] ++ ms).map Prod.fst).Nodup := by
      rw [List.append_assoc]
      exact hkeys
    have hvalue := hv.read layout.below fuel depth
      (separated layout '\x7d' false (ms.map (memberChars layout.below)) ++ rest)
      (by show (chars layout.below v).length ≤ fuel; omega) hdepth
      (separated_ended layout (.inr rfl) _ _)
    have hrest : members false fuel depth shape false (done ++ [(key, v)])
        (separated layout '\x7d' false (ms.map (memberChars layout.below)) ++ rest)
          = .ok (done ++ [(key, v)] ++ ms, rest) := ih hms hkeys' (by omega)
    have hgap : ∀ cs, value false fuel depth shape (layout.below.gap ++ cs)
        = value false fuel depth shape cs := layout.below.value_gap (by omega) depth shape
    simp only [List.map_cons, separated, memberChars, List.append_assoc, List.cons_append]
    rw [members, nextKey_written]
    have hcolon : ∀ cs, colon (':' :: cs) = .ok ((), cs) := fun cs => rfl
    simp only [bind, Except.bind, hcolon, hgap, hvalue, Bool.false_eq_true, if_false,
      Json.insert_of_not_mem hfresh, hrest, List.append_assoc, List.singleton_append]

theorem fieldMembers_written {fields : List (String × Presence × Shape)}
    {ms done : List (String × Json)}
    (h : ∀ m ∈ ms, ∃ presence shape, fieldOf m.1 fields = some (presence, shape) ∧
      ReadsMember shape levels m.2)
    (hkeys : ((ms.reverse ++ done).map Prod.fst).Nodup)
    (hfuel : (separated layout '\x7d' first (ms.map (memberChars layout.below))).length ≤ fuel)
    (rest : List Char) :
    fieldMembers fuel depth fields first done
        (separated layout '\x7d' first (ms.map (memberChars layout.below)) ++ rest)
      = .ok (ms.reverse ++ done, rest) := by
  induction ms generalizing fuel first done with
  | nil =>
    obtain ⟨fuel, rfl⟩ := Nat.exists_eq_add_of_le' (m := 1)
      (Nat.le_trans (length_separated_pos layout _ _ _) hfuel)
    rw [List.map_nil, fieldMembers, nextKey_close]
    rfl
  | cons m ms ih =>
    obtain ⟨key, v⟩ := m
    obtain ⟨⟨presence, shape, hfield, hv⟩, hms⟩ := List.forall_mem_cons.1 h
    have hlength : (chars layout.below v).length
        + (separated layout '\x7d' false (ms.map (memberChars layout.below))).length + 2 ≤ fuel :=
      Nat.le_trans (length_separated_member layout first (key, v) ms) hfuel
    obtain ⟨fuel, rfl⟩ := Nat.exists_eq_add_of_le' (m := 1) (n := fuel) (by omega)
    -- fields are collected in front of those that were read before
    rw [List.reverse_cons, List.append_assoc, List.singleton_append] at hkeys ⊢
    have hfresh : Json.lookup key done = none := by
      rw [Json.lookup_eq_none_iff]
      rw [List.map_append, List.nodup_append] at hkeys
      exact (List.nodup_cons.1 hkeys.2.1).1
    have hvalue := hv layout.below fuel depth
      (separated layout '\x7d' false (ms.map (memberChars layout.below)) ++ rest)
      (by show (chars layout.below v).length < fuel; omega) hdepth
      (separated_ended layout (.inr rfl) _ _)
    have hrest : fieldMembers fuel depth fields false ((key, v) :: done)
        (separated layout '\x7d' false (ms.map (memberChars layout.below)) ++ rest)
          = .ok (ms.reverse ++ (key, v) :: done, rest) := ih hms hkeys (by omega)
    have hgap : ∀ cs, value false fuel depth shape (layout.below.gap ++ cs)
        = value false fuel depth shape cs := layout.below.value_gap (by omega) depth shape
    simp only [List.map_cons, separated, memberChars, List.append_assoc, List.cons_append]
    rw [fieldMembers, nextKey_written]
    have hcolon : ∀ cs, colon (':' :: cs) = .ok ((), cs) := fun cs => rfl
    simp only [bind, Except.bind, hfield, hfresh, hcolon, hgap, hvalue, Option.isSome_none,
      Bool.false_eq_true, if_false, hrest]

end Members

/-- **A mapping reads back** if its values do and no key comes twice, one level up. -/
theorem reads_mapping {shape : Shape} {levels : Nat} {ms : List (String × Json)}
    (h : ∀ m ∈ ms, Reads shape levels m.2) (hkeys : (ms.map Prod.fst).Nodup) :
    Reads (.mapping shape) (levels + 1) (.obj ms) where
  opens layout := ⟨'{', _, chars_obj layout ms, by unfold Opens; decide⟩
  read layout fuel depth rest hfuel hdepth _ := by
    obtain ⟨fuel, rfl, hfuel⟩ := exists_fuel (chars_obj layout ms) hfuel
    have hunfold : ∀ cs, value false (fuel + 1) depth (.mapping shape) ('{' :: cs)
        = if depth ≤ 1 then stopAhead .tooDeep ('{' :: cs)
          else (members false fuel (depth - 1) shape true [] cs).bind fun p =>
            .ok (.obj p.1, p.2) := fun cs => rfl
    have hkeys' : (([] ++ ms).map Prod.fst).Nodup := hkeys
    have hmembers : members false fuel (depth - 1) shape true []
        (separated layout '\x7d' true (ms.map (memberChars layout.below)) ++ rest)
          = .ok ([] ++ ms, rest) :=
      members_written layout (by omega) h hkeys' (by omega) rest
    rw [chars_obj, List.cons_append, hunfold, if_neg (by omega), hmembers]
    rfl

/-! ## Records -/

/-- Whether members are values of the fields of a record, in declared order. Only optional
fields may be left out. -/
inductive Fills (levels : Nat) :
    List (String × Presence × Shape) → List (String × Json) → Prop where
  | nil : Fills levels [] []
  | field {key : String} {presence : Presence} {shape : Shape} {v : Json}
      {fields : List (String × Presence × Shape)} {ms : List (String × Json)}
      (hv : Reads shape levels v) (hrest : Fills levels fields ms) :
      Fills levels ((key, presence, shape) :: fields) ((key, v) :: ms)
  | nullable {key : String} {presence : Presence} {shape : Shape} {v : Json}
      {fields : List (String × Presence × Shape)} {ms : List (String × Json)}
      (hv : Reads shape levels v) (hrest : Fills levels fields ms) :
      Fills levels ((key, presence, .nullable shape) :: fields) ((key, v) :: ms)
  | omitted {key : String} {shape : Shape} {fields : List (String × Presence × Shape)}
      {ms : List (String × Json)} (hrest : Fills levels fields ms) :
      Fills levels ((key, .optional, shape) :: fields) ms

section Fills

variable {levels : Nat} {fields : List (String × Presence × Shape)} {ms : List (String × Json)}

theorem Fills.keys_sublist (h : Fills levels fields ms) :
    (ms.map Prod.fst).Sublist (fields.map Prod.fst) := by
  induction h with
  | nil => exact List.Sublist.slnil
  | field _ _ ih | nullable _ _ ih => exact ih.cons_cons _
  | omitted _ ih => exact ih.cons _

/-- A member has the field of its key. -/
theorem Fills.field_of_mem (h : Fills levels fields ms) {m : String × Json} (hm : m ∈ ms) :
    ∃ presence shape, (m.1, presence, shape) ∈ fields ∧ ReadsMember shape levels m.2 := by
  induction h with
  | nil => cases hm
  | field hv _ ih =>
    rcases List.mem_cons.1 hm with rfl | hm
    · exact ⟨_, _, List.mem_cons_self, hv.member⟩
    · obtain ⟨presence, shape, hfield, hreads⟩ := ih hm
      exact ⟨presence, shape, List.mem_cons_of_mem _ hfield, hreads⟩
  | nullable hv _ ih =>
    rcases List.mem_cons.1 hm with rfl | hm
    · exact ⟨_, _, List.mem_cons_self, hv.nullable⟩
    · obtain ⟨presence, shape, hfield, hreads⟩ := ih hm
      exact ⟨presence, shape, List.mem_cons_of_mem _ hfield, hreads⟩
  | omitted _ ih =>
    obtain ⟨presence, shape, hfield, hreads⟩ := ih hm
    exact ⟨presence, shape, List.mem_cons_of_mem _ hfield, hreads⟩

/-- Whatever order the members were found in, none is missing, and they are put into the
declared order. -/
theorem Fills.absent_inOrder (h : Fills levels fields ms) (hkeys : (fields.map Prod.fst).Nodup)
    {found : List (String × Json)}
    (hfound : ∀ key ∈ fields.map Prod.fst, Json.lookup key found = Json.lookup key ms) :
    absent fields found = none ∧ inOrder fields found = ms := by
  induction h with
  | nil => exact ⟨rfl, rfl⟩
  | @field key _ _ v fields ms _ hrest ih | @nullable key _ _ v fields ms _ hrest ih =>
    obtain ⟨hfirst, hothers⟩ := List.nodup_cons.1 hkeys
    have hhere : Json.lookup key found = some v := by
      rw [hfound key List.mem_cons_self, Json.lookup, if_pos rfl]
    obtain ⟨habsent, horder⟩ := ih hothers fun other hother => by
      have hne : key ≠ other := fun hsame => hfirst (hsame ▸ hother)
      rw [hfound other (List.mem_cons_of_mem _ hother), Json.lookup, if_neg hne]
    constructor
    · simp [absent, hhere, habsent]
    · rw [inOrder, hhere, horder]
  | @omitted key shape fields ms hrest ih =>
    obtain ⟨hfirst, hothers⟩ := List.nodup_cons.1 hkeys
    have hhere : Json.lookup key found = none := by
      rw [hfound key List.mem_cons_self, Json.lookup_eq_none_iff]
      exact fun hmem => hfirst (hrest.keys_sublist.subset hmem)
    obtain ⟨habsent, horder⟩ := ih hothers fun other hother =>
      hfound other (List.mem_cons_of_mem _ hother)
    constructor
    · simp [absent, habsent]
    · rw [inOrder, hhere, horder]

/-- **A record reads back** if the values of its fields do, one level up. -/
theorem reads_record (name : String) (h : Fills levels fields ms)
    (hkeys : (fields.map Prod.fst).Nodup) :
    Reads (.record name fields) (levels + 1) (.obj ms) where
  opens layout := ⟨'{', _, chars_obj layout ms, by unfold Opens; decide⟩
  read layout fuel depth rest hfuel hdepth _ := by
    obtain ⟨fuel, rfl, hfuel⟩ := exists_fuel (chars_obj layout ms) hfuel
    have hunfold : ∀ cs, value false (fuel + 1) depth (.record name fields) ('{' :: cs)
        = if depth ≤ 1 then stopAhead .tooDeep ('{' :: cs)
          else (fieldMembers fuel (depth - 1) fields true [] cs).bind fun p =>
            (absent fields p.1).elim (.ok (.obj (inOrder fields p.1), p.2))
              fun key => stop (.mismatch (.missingField key)) p.2 := by
      intro cs
      refine congrArg (fun next => if depth ≤ 1 then stopAhead .tooDeep ('{' :: cs)
        else (fieldMembers fuel (depth - 1) fields true [] cs).bind next) (funext fun p => ?_)
      obtain ⟨found, left⟩ := p
      cases hfound : absent fields found <;>
        simp only [hfound, Option.elim_some, Option.elim_none]
    have hfields : ∀ m ∈ ms, ∃ presence shape, fieldOf m.1 fields = some (presence, shape) ∧
        ReadsMember shape levels m.2 := by
      intro m hm
      obtain ⟨presence, shape, hfield, hreads⟩ := h.field_of_mem hm
      exact ⟨presence, shape, (Json.lookup_eq_some_iff hkeys).2 hfield, hreads⟩
    have hms : (ms.map Prod.fst).Nodup := hkeys.sublist h.keys_sublist
    have hreverse : (ms.reverse.map Prod.fst).Nodup :=
      ((List.reverse_perm ms).map Prod.fst).nodup_iff.2 hms
    have hmembers : fieldMembers fuel (depth - 1) fields true []
        (separated layout '\x7d' true (ms.map (memberChars layout.below)) ++ rest)
          = .ok (ms.reverse ++ [], rest) :=
      fieldMembers_written layout (by omega) hfields (by rw [List.append_nil]; exact hreverse)
        (by omega) rest
    have hlookup : ∀ key, Json.lookup key ms.reverse = Json.lookup key ms := by
      intro key
      refine Option.ext fun v => ?_
      rw [Json.lookup_eq_some_iff hreverse, Json.lookup_eq_some_iff hms, List.mem_reverse]
    obtain ⟨habsent, horder⟩ := h.absent_inOrder hkeys fun key _ => hlookup key
    rw [chars_obj, List.cons_append, hunfold, if_neg (by omega), hmembers, List.append_nil]
    simp only [Except.bind, habsent, horder, Option.elim_none]

end Fills

/-! ## Whole texts -/

/-- **Reading undoes writing**, however the text is laid out. -/
theorem parseAs_write {shape : Shape} {levels : Nat} {v : Json} (h : Reads shape levels v)
    (hlevels : levels < maxDepth) (layout : Layout) : parseAs shape (layout.write v) = .ok v := by
  have hread := h.read layout (2 * (chars layout v).length + 8) maxDepth [] (by omega) hlevels
    (fun c hc => by cases hc)
  rw [List.append_nil] at hread
  have hdocument : document shape (chars layout v) = .ok v := by
    rw [document, hread]
    rfl
  rw [parseAs, ← chars, hdocument]

/-- The value that is read from the text of a tree. -/
def reread {α : Type} (layout : Layout) (shape : Shape) (ofJson : Json → α) (v : Json) :
    Except String α := (parseAs shape (layout.write v)).map ofJson

/-- A value that is taken out of its tree is read from the text of that tree. -/
theorem reread_of_reads {α : Type} {shape : Shape} {levels : Nat} {ofJson : Json → α} {v : Json}
    {a : α} (h : Reads shape levels v) (hlevels : levels < maxDepth) (hvalue : ofJson v = a)
    (layout : Layout) : reread layout shape ofJson v = .ok a := by
  rw [reread, parseAs_write h hlevels, ← hvalue]
  rfl

end PatternAudit.Json.Read
