/-
Entries that are taken for others.

A line is searched for what an entry begins with, so an entry between single quotes is found in
every line that goes on behind its closing quote. A quote inside a pattern is written twice, and
the first of the two passes for a closing one: the entry of `a` is in the line of `a'b`. And the
plain entry is compared without regard to quotes, so a pattern that is another one between single
quotes is found where that one is. There is no third way, among patterns without blanks
(`isEntry_quoted_iff`); so the line found is that of the pattern exactly where these two are
excluded (`found_between_quotes`).

With no blanks there is one space in such a line, the one behind the key. Whatever is found in it
has to have a space there, too (`infix_iff_of_one`).
-/
import Mathlib.Data.List.Basic
import PatternAudit.Proofs.Lines.Entries

set_option autoImplicit false

namespace PatternAudit.Lines

open Text (isBlank narrow collapseChars)

/-! ## Doubled quotes -/

/-- A closing quote is found behind a text with doubled quotes where the text ends, and where it
goes on with a quote. -/
theorem doubled_prefix_iff {p q : List Char} :
    doubled p ++ ['\''] <+: doubled q ++ ['\''] ↔ q = p ∨ p ++ ['\''] <+: q := by
  induction p generalizing q with
  | nil =>
    cases q with
    | nil => simp
    | cons d q =>
      rw [doubled_cons]
      simp [doubled]
  | cons c p ih =>
    cases q with
    | nil =>
      -- what is written of a character leaves no room for a closing quote
      rw [doubled_cons]
      simp [doubled]
    | cons d q =>
      by_cases hcd : c = d
      · rw [hcd, doubled_cons, doubled_cons, List.cons_append, List.cons_append, List.append_assoc,
          List.append_assoc, List.cons_prefix_cons, List.prefix_append_right_inj, ih]
        simp
      · rw [doubled_cons, doubled_cons]
        simp [hcd, Ne.symm hcd]

/-! ## Texts with one space -/

/-- In a text with one space, a text with a space is found around it. -/
theorem infix_iff_of_one {word rest front back : List Char} (hword : ' ' ∉ word)
    (hrest : ' ' ∉ rest) :
    front ++ ' ' :: back <:+: word ++ ' ' :: rest ↔ front <:+ word ∧ back <+: rest := by
  constructor
  · rintro ⟨before, behind, h⟩
    have hspace : word ++ ' ' :: rest = (before ++ front) ++ ' ' :: (back ++ behind) := by
      simpa using h.symm
    -- the only space of the text is the one behind `front`
    obtain ⟨rfl, -, rfl⟩ := (List.append_cons_inj_of_notMem hword hrest).1 hspace
    exact ⟨List.suffix_append .., List.prefix_append ..⟩
  · rintro ⟨⟨before, rfl⟩, ⟨behind, rfl⟩⟩
    exact ⟨before, behind, by simp⟩

/-! ## Lines of entries between single quotes -/

/-- A pattern without blanks. -/
def Unbroken (pattern : String) : Prop := ∀ c ∈ pattern.toList, isBlank c = false

instance (pattern : String) : Decidable (Unbroken pattern) :=
  List.decidableBAll (fun c => isBlank c = false) pattern.toList

variable {p q : String}

theorem Unbroken.isBlank_doubled (h : Unbroken q) : ∀ c ∈ doubled q.toList, isBlank c = false :=
  fun c hc => h c (mem_doubled.1 hc)

/-- An entry has no blanks at its ends. -/
theorem Form.trim_write (form : Form) (pattern : String) :
    Text.trim (form.write pattern) = form.write pattern := by
  obtain ⟨c, cs, hkey, hc⟩ : ∃ c cs, form.key.toList = c :: cs ∧ isBlank c = false := by
    cases form with
    | singleQuoted | json => exact ⟨'p', "attern: ".toList, by decide, by decide⟩
    | jsonMember => exact ⟨'"', "pattern\": ".toList, by decide, by decide⟩
  have htrimmed : Text.Trimmed (form.write pattern).toList := by
    rw [form.toList_write, ← List.append_assoc]
    constructor
    · rw [hkey]
      simpa using hc
    · rw [List.getLast?_concat]
      simpa using form.isBlank_quote
  rw [Text.trim, Text.trimChars_eq_self_iff.2 htrimmed, String.ofList_toList]

/-- The line of a pattern without blanks has one space, behind the key. -/
theorem collapse_quoted (hq : Unbroken q) :
    collapseChars (Form.singleQuoted.write q).toList
      = "pattern:".toList ++ ' ' :: '\'' :: (doubled q.toList ++ ['\'']) := by
  have hline : Text.trim (Form.singleQuoted.write q) = Form.singleQuoted.write q ++ "" := by
    rw [Form.trim_write, String.append_empty]
  have hkey : Form.singleQuoted.key.toList = "pattern:".toList ++ [' '] := by decide
  rw [collapse_write (by decide) hline, hkey, Form.body, Text.narrow_eq_self hq.isBlank_doubled]
  simp only [Form.quote, String.toList_empty, List.append_nil, List.append_assoc, List.cons_append,
    List.nil_append]

section OneSpace

variable {word : List Char}

/-- Between the quotes there is no space. -/
theorem Unbroken.space_notMem (hq : Unbroken q) : ' ' ∉ '\'' :: (doubled q.toList ++ ['\'']) := by
  intro hmem
  have hspace : ' ' ∈ doubled q.toList := by simpa using hmem
  exact absurd (hq.isBlank_doubled _ hspace) (by decide)

/-- What is found around the space goes on with a single quote. -/
theorem Unbroken.head_eq_of_held {front back : List Char} {c : Char} (hq : Unbroken q)
    (hword : ' ' ∉ word)
    (h : front ++ ' ' :: c :: back <:+: word ++ ' ' :: '\'' :: (doubled q.toList ++ ['\''])) :
    c = '\'' := by
  obtain ⟨-, hback⟩ := (infix_iff_of_one hword hq.space_notMem).1 h
  exact (List.cons_prefix_cons.1 hback).1

/-- The entry of a pattern is in the line of another one if it ends at one of its quotes. -/
theorem Unbroken.quoted_held_iff (hq : Unbroken q) (hword : ' ' ∉ word) :
    word ++ ' ' :: '\'' :: (doubled p.toList ++ ['\''])
        <:+: word ++ ' ' :: '\'' :: (doubled q.toList ++ ['\'']) ↔
      q = p ∨ p.toList ++ ['\''] <+: q.toList := by
  rw [infix_iff_of_one hword hq.space_notMem, List.cons_prefix_cons, doubled_prefix_iff,
    String.toList_inj]
  simp

/-- The plain entry does not end the line: nothing but the space stands before it. -/
theorem Unbroken.not_plain_suffix (hq : Unbroken q) (hword : ' ' ∉ word) (hquote : '\'' ∉ word)
    (back : List Char) :
    ¬ ' ' :: (word ++ ' ' :: back) <:+ word ++ ' ' :: '\'' :: (doubled q.toList ++ ['\'']) := by
  intro hsuffix
  have hheld : [] ++ ' ' :: (word ++ ' ' :: back)
      <:+: word ++ ' ' :: '\'' :: (doubled q.toList ++ ['\'']) := hsuffix.isInfix
  obtain ⟨-, hback⟩ := (infix_iff_of_one hword hq.space_notMem).1 hheld
  cases word with
  | nil => exact absurd (List.cons_prefix_cons.1 hback).1 (by decide)
  | cons c word =>
    have hc : c = '\'' := (List.cons_prefix_cons.1 hback).1
    exact hquote (hc ▸ List.mem_cons_self ..)

/-- The entries of a pattern without blanks have one space, too. What stands behind it tells
which of them the line holds. -/
theorem Unbroken.isEntry_iff_of_keys {member : List Char} (hq : Unbroken q)
    (hword : ' ' ∉ word) (hquote : '\'' ∉ word) (json : List Char) :
    (∃ entry ∈ [word ++ ' ' :: '\'' :: (doubled p.toList ++ ['\'']),
          word ++ ' ' :: '"' :: json, member ++ ' ' :: '"' :: json],
        entry <:+: word ++ ' ' :: '\'' :: (doubled q.toList ++ ['\''])) ∨
      word ++ ' ' :: '\'' :: (doubled q.toList ++ ['\'']) = word ++ ' ' :: p.toList ∨
      ' ' :: (word ++ ' ' :: p.toList)
        <:+ word ++ ' ' :: '\'' :: (doubled q.toList ++ ['\'']) ↔
    (q = p ∨ p.toList ++ ['\''] <+: q.toList) ∨
      p.toList = '\'' :: (doubled q.toList ++ ['\'']) := by
  rw [← hq.quoted_held_iff hword]
  constructor
  · rintro (⟨entry, hentry, hheld⟩ | hplain | hsuffix)
    · rcases List.mem_cons.1 hentry with rfl | hentry
      · exact Or.inl hheld
      · -- a JSON string begins with another quote
        rcases List.mem_pair.1 hentry with rfl | rfl
        · exact absurd (hq.head_eq_of_held hword hheld) (by decide)
        · exact absurd (hq.head_eq_of_held hword hheld) (by decide)
    · exact Or.inr (List.cons_inj_right _ |>.1 (List.append_cancel_left hplain)).symm
    · exact absurd hsuffix (hq.not_plain_suffix hword hquote _)
  · rintro (hheld | hplain)
    · exact Or.inl ⟨_, List.mem_cons_self .., hheld⟩
    · exact Or.inr (Or.inl (by rw [hplain]))

end OneSpace

/-- The entries of a pattern without blanks, with the space of each brought out. -/
theorem Unbroken.quotedEntries_eq (hp : Unbroken p) :
    ∃ json, quotedEntries p.toList =
      ["pattern:".toList ++ ' ' :: '\'' :: (doubled p.toList ++ ['\'']),
        "pattern:".toList ++ ' ' :: '"' :: json, "\"pattern\":".toList ++ ' ' :: '"' :: json] := by
  have hkey : "pattern: ".toList = "pattern:".toList ++ [' '] := by decide
  have hmember : "\"pattern\": ".toList = "\"pattern\":".toList ++ [' '] := by decide
  refine ⟨narrow false (p.toList.flatMap Json.Write.escapeChar) ++ ['"'], ?_⟩
  unfold quotedEntries
  rw [hkey, hmember, singleQuoted, ← doubled, Text.collapseChars_eq_self hp.isBlank_doubled,
    doubleQuoted_eq]
  simp only [List.append_assoc, List.cons_append, List.nil_append]

theorem Unbroken.plainEntry_eq (hp : Unbroken p) :
    plainEntry p.toList = "pattern:".toList ++ ' ' :: p.toList := by
  have hkey : "pattern: ".toList = "pattern:".toList ++ [' '] := by decide
  unfold plainEntry
  rw [hkey, Text.collapseChars_eq_self hp, List.append_assoc, List.singleton_append]

/-- A line between single quotes is an entry of its pattern, of every pattern that its own goes
on from with a quote, and of the pattern that is its value, quotes included. -/
theorem isEntry_quoted_iff (hp : Unbroken p) (hq : Unbroken q) :
    isEntry (quotedEntries p.toList) (plainEntry p.toList)
        (collapseChars (Form.singleQuoted.write q).toList) = true ↔
      (q = p ∨ p.toList ++ ['\''] <+: q.toList) ∨ p = Form.singleQuoted.value q := by
  have hvalue : p = Form.singleQuoted.value q ↔
      p.toList = '\'' :: (doubled q.toList ++ ['\'']) := by
    rw [← String.toList_inj, Form.toList_value, Form.quote, Form.body, List.cons_append]
  obtain ⟨json, hentries⟩ := hp.quotedEntries_eq
  rw [isEntry_iff, collapse_quoted hq, hentries, hp.plainEntry_eq, hvalue]
  exact hq.isEntry_iff_of_keys (by decide) (by decide) json

/-! ## The line found -/

/-- No pattern is its own value. -/
theorem Form.value_ne_self (pattern : String) : pattern ≠ Form.singleQuoted.value pattern := by
  intro h
  have hcount := congrArg (fun s : String => s.toList.count '\'') h
  have hdoubled := count_quote_le_doubled pattern.toList
  simp only [Form.toList_value, Form.quote, Form.body, List.cons_append, List.count_cons_self,
    List.count_append, List.count_nil] at hcount
  omega

/-- **A line found is that of the pattern, with two exceptions.** In a text whose lines are
patterns without blanks between single quotes, the line found for such a pattern holds either
this pattern, or one that goes on from it with a quote, or the one that it is the quoted value
of; it holds the pattern itself exactly if it is none of the last two. -/
theorem found_between_quotes {qs : List String} {source p : String} {i : Nat}
    (hlines : Text.lines source = qs.map Form.singleQuoted.write) (hqs : ∀ q ∈ qs, Unbroken q)
    (hp : Unbroken p) (hfind : (Index.ofText source).find p = i + 1) :
    ∃ q, qs[i]? = some q ∧
      (q = p ↔ ¬ p.toList ++ ['\''] <+: q.toList ∧ p ≠ Form.singleQuoted.value q) := by
  obtain ⟨⟨line, hline, hfound⟩, -⟩ := find_eq_succ_iff.1 hfind
  rw [getElem?_ofText, hlines, List.getElem?_map, Option.map_map, Option.map_eq_some_iff] at hline
  obtain ⟨q, hq, rfl⟩ := hline
  rw [Function.comp_apply, isEntry_quoted_iff hp (hqs q (List.mem_of_getElem? hq))] at hfound
  refine ⟨q, hq, ?_, ?_⟩
  · rintro rfl
    refine ⟨fun hmore => ?_, Form.value_ne_self q⟩
    -- no pattern goes on from itself
    have hlength := hmore.length_le
    rw [List.length_append, List.length_singleton] at hlength
    omega
  · rintro ⟨hmore, hvalue⟩
    rcases hfound with (hsame | hprefix) | hquoted
    · exact hsame
    · exact absurd hprefix hmore
    · exact absurd hquoted hvalue

/-- A pattern is not taken for a part of another one, nor for what stands between the quotes of
another one. -/
theorem part_not_found :
    (Text.lines "pattern: 'abc'\npattern: '''ab'''\npattern: 'ab'\n"
          = ["abc", "'ab'", "ab"].map Form.singleQuoted.write ∧
        (∀ q ∈ ["abc", "'ab'", "ab"], Unbroken q) ∧ Unbroken "ab" ∧
        (Index.ofText "pattern: 'abc'\npattern: '''ab'''\npattern: 'ab'\n").find "ab" = 2 + 1) ∧
      ∃ q, ["abc", "'ab'", "ab"][2]? = some q ∧
        (q = "ab" ↔ ¬ "ab".toList ++ ['\''] <+: q.toList ∧ "ab" ≠ Form.singleQuoted.value q) := by
  have hlines : Text.lines "pattern: 'abc'\npattern: '''ab'''\npattern: 'ab'\n"
      = ["abc", "'ab'", "ab"].map Form.singleQuoted.write := by decide +kernel
  have hqs : ∀ q ∈ ["abc", "'ab'", "ab"], Unbroken q := by decide +kernel
  have hp : Unbroken "ab" := by decide +kernel
  have hfind : (Index.ofText "pattern: 'abc'\npattern: '''ab'''\npattern: 'ab'\n").find "ab"
      = 2 + 1 := by decide +kernel
  exact ⟨⟨hlines, hqs, hp, hfind⟩, found_between_quotes hlines hqs hp hfind⟩

/-- **The one line of the pattern `a'b` is found for two others**: for `a`, which it goes on from
with a quote, and for its own quoted value. -/
theorem neighbours_found :
    Text.lines "pattern: 'a''b'\n" = ["a'b"].map Form.singleQuoted.write ∧
      (Unbroken "a'b" ∧ Unbroken "a" ∧ Unbroken "'a''b'") ∧
      (Index.ofText "pattern: 'a''b'\n").find "a" = 1 ∧
      (Index.ofText "pattern: 'a''b'\n").find "'a''b'" = 1 := by
  decide +kernel

end PatternAudit.Lines
