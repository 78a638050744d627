/-
The segments that keys are written as.

`IsSegment` says what a written key looks like: it holds no slash, and each of its tildes is
followed by a digit that says what is meant. Writing a key gives such a text, reading it gives
the key back, and every such text is what some key is written as (`segments_are_escaped_keys`).

Writing and reading can also be told as two replacements each, one for each escape. Between the
two of them a text holds characters of both kinds, those that stand for themselves and those of
escapes, so it matters which comes first: a tilde is escaped before there are tildes of escapes,
and it is brought back after these are gone (`escapeChars_eq`, `unescapeChars_eq`).
-/
import PatternAudit.Proofs.Walk.Location

set_option autoImplicit false

namespace PatternAudit.Pointer

/-! ## Replacing -/

/-- A text with a word replaced wherever it occurs. Occurrences are looked for from left to
right, each behind the end of the one before. -/
def replaceAll (old new : List Char) : List Char → List Char
  | [] => []
  | c :: cs =>
    if old <+: c :: cs then new ++ replaceAll old new (cs.drop (old.length - 1))
    else c :: replaceAll old new cs
termination_by cs => cs.length

variable {old new : List Char}

/-- Behind an occurrence the text goes on after its last character. -/
theorem replaceAll_append (hold : old ≠ []) (cs : List Char) :
    replaceAll old new (old ++ cs) = new ++ replaceAll old new cs := by
  cases old with
  | nil => exact absurd rfl hold
  | cons c rest =>
    have hoccurs : c :: rest <+: c :: (rest ++ cs) := List.prefix_append (c :: rest) cs
    rw [List.cons_append, replaceAll, if_pos hoccurs, List.length_cons, Nat.add_sub_cancel,
      List.drop_left]

/-- A character that begins no occurrence stays. -/
theorem replaceAll_cons {c : Char} {cs : List Char} (h : ¬ old <+: c :: cs) :
    replaceAll old new (c :: cs) = c :: replaceAll old new cs := by
  rw [replaceAll, if_neg h]

/-- What a replaced text begins with begins the new word or the text. -/
theorem head?_replaceAll {c d : Char} {cs : List Char}
    (h : (replaceAll old (c :: new) cs).head? = some d) : c = d ∨ cs.head? = some d := by
  cases cs with
  | nil =>
    rw [replaceAll] at h
    cases h
  | cons first rest =>
    by_cases hoccurs : old <+: first :: rest
    · left
      rw [replaceAll, if_pos hoccurs] at h
      exact Option.some.inj h
    · right
      rw [replaceAll_cons hoccurs] at h
      exact h

/-! ## Escapes as replacements -/

/-- Tildes are escaped first, so that those of the other escape are not escaped again. -/
theorem escapeChars_eq (cs : List Char) :
    escapeChars cs = replaceAll ['/'] ['~', '1'] (replaceAll ['~'] ['~', '0'] cs) := by
  fun_induction escapeChars cs with
  | case1 => rw [replaceAll, replaceAll]
  | case2 cs ih =>
    have htilde : replaceAll ['~'] ['~', '0'] ('~' :: cs)
        = '~' :: '0' :: replaceAll ['~'] ['~', '0'] cs :=
      replaceAll_append (by decide) cs
    rw [htilde, replaceAll_cons (by simp), replaceAll_cons (by simp), ih]
  | case3 cs ih =>
    have hslash : ∀ ds, replaceAll ['/'] ['~', '1'] ('/' :: ds)
        = '~' :: '1' :: replaceAll ['/'] ['~', '1'] ds :=
      replaceAll_append (by decide)
    rw [replaceAll_cons (by simp), hslash, ih]
  | case4 c cs htilde hslash ih =>
    have hfirst : ¬ ['~'] <+: c :: cs := by simpa using Ne.symm htilde
    have hsecond : ∀ ds, ¬ ['/'] <+: c :: ds := by simpa using Ne.symm hslash
    rw [replaceAll_cons hfirst, replaceAll_cons (hsecond _), ih]

/-- Slashes are brought back first, so that no tilde that is brought back begins an escape. -/
theorem unescapeChars_eq (cs : List Char) :
    unescapeChars cs = replaceAll ['~', '0'] ['~'] (replaceAll ['~', '1'] ['/'] cs) := by
  fun_induction unescapeChars cs with
  | case1 => rw [replaceAll, replaceAll]
  | case2 cs ih =>
    have hfirst : replaceAll ['~', '1'] ['/'] ('~' :: '0' :: cs)
        = '~' :: '0' :: replaceAll ['~', '1'] ['/'] cs := by
      rw [replaceAll_cons (by simp), replaceAll_cons (by simp)]
    have hsecond : ∀ ds, replaceAll ['~', '0'] ['~'] ('~' :: '0' :: ds)
        = '~' :: replaceAll ['~', '0'] ['~'] ds :=
      replaceAll_append (by decide)
    rw [hfirst, hsecond, ih]
  | case3 cs ih =>
    have hslash : replaceAll ['~', '1'] ['/'] ('~' :: '1' :: cs)
        = '/' :: replaceAll ['~', '1'] ['/'] cs :=
      replaceAll_append (by decide) cs
    rw [hslash, replaceAll_cons (by simp), ih]
  | case4 c cs hzero hone ih =>
    have hfirst : ¬ ['~', '1'] <+: c :: cs := by
      rintro ⟨rest, heq⟩
      obtain ⟨hc, hcs⟩ := List.cons.inj heq
      exact hone rest hc.symm hcs.symm
    -- the first replacement brings no zero to the front
    have hsecond : ¬ ['~', '0'] <+: c :: replaceAll ['~', '1'] ['/'] cs := by
      rintro ⟨rest, heq⟩
      obtain ⟨hc, hcs⟩ := List.cons.inj heq
      have hhead : (replaceAll ['~', '1'] ['/'] cs).head? = some '0' := by
        rw [← hcs]
        rfl
      rcases head?_replaceAll hhead with hslash | hdigit
      · cases hslash
      · obtain ⟨behind, rfl⟩ := List.head?_eq_some_iff.1 hdigit
        exact hzero behind hc.symm rfl
    rw [replaceAll_cons hfirst, replaceAll_cons hsecond, ih]

/-- In the other order, an escaped tilde in front of a one would be read as a slash. -/
example : replaceAll ['~', '1'] ['/'] (replaceAll ['~', '0'] ['~'] ['~', '0', '1']) = ['/'] := by
  cbv

/-! ## Segments -/

/-- The form of a written key: no slash, and no tilde without one of the two digits behind it. -/
structure IsSegment (cs : List Char) : Prop where
  slash : '/' ∉ cs
  tilde : ∀ i, cs[i]? = some '~' → cs[i + 1]? = some '0' ∨ cs[i + 1]? = some '1'

theorem isSegment_nil : IsSegment [] := ⟨List.not_mem_nil, nofun⟩

theorem isSegment_cons_iff {c : Char} {cs : List Char} :
    IsSegment (c :: cs) ↔
      c ≠ '/' ∧ (c = '~' → cs.head? = some '0' ∨ cs.head? = some '1') ∧ IsSegment cs := by
  constructor
  · intro h
    have hslash := h.slash
    rw [List.mem_cons, not_or] at hslash
    refine ⟨Ne.symm hslash.1, ?_, hslash.2, fun i hi => h.tilde (i + 1) hi⟩
    rintro rfl
    simpa [List.head?_eq_getElem?] using h.tilde 0 rfl
  · rintro ⟨hslash, htilde, hrest⟩
    refine ⟨?_, ?_⟩
    · rw [List.mem_cons, not_or]
      exact ⟨Ne.symm hslash, hrest.slash⟩
    · intro i hi
      cases i with
      | zero => simpa [List.head?_eq_getElem?] using htilde (Option.some.inj hi)
      | succ i => exact hrest.tilde i hi

theorem isSegment_escapeChars (cs : List Char) : IsSegment (escapeChars cs) := by
  fun_induction escapeChars cs with
  | case1 => exact isSegment_nil
  | case2 cs ih => simp [isSegment_cons_iff, ih]
  | case3 cs ih => simp [isSegment_cons_iff, ih]
  | case4 c cs htilde hslash ih =>
    exact isSegment_cons_iff.2 ⟨hslash, fun h => absurd h htilde, ih⟩

theorem escapeChars_unescapeChars {cs : List Char} (h : IsSegment cs) :
    escapeChars (unescapeChars cs) = cs := by
  fun_induction unescapeChars cs with
  | case1 => rfl
  | case2 cs ih =>
    have hrest : IsSegment cs := (isSegment_cons_iff.1 (isSegment_cons_iff.1 h).2.2).2.2
    rw [escapeChars, ih hrest]
  | case3 cs ih =>
    have hrest : IsSegment cs := (isSegment_cons_iff.1 (isSegment_cons_iff.1 h).2.2).2.2
    rw [escapeChars, ih hrest]
  | case4 c cs hzero hone ih =>
    obtain ⟨hslash, hdigit, hrest⟩ := isSegment_cons_iff.1 h
    -- a tilde of a segment begins an escape, and these were the cases before
    have htilde : c ≠ '~' := by
      intro hc
      rcases hdigit hc with hhead | hhead
      · obtain ⟨behind, rfl⟩ := List.head?_eq_some_iff.1 hhead
        exact hzero behind hc rfl
      · obtain ⟨behind, rfl⟩ := List.head?_eq_some_iff.1 hhead
        exact hone behind hc rfl
    rw [escapeChars, ih hrest]
    · exact htilde
    · exact hslash

/-- **The segments are the escaped keys**, one for each key. A key is written as a segment, which
is read back as the key, and a segment is what the key that is read from it is written as; so
different keys are written differently. Writing replaces tildes and then slashes, and reading
replaces the escapes of slashes and then those of tildes. -/
theorem segments_are_escaped_keys :
    (∀ key : String,
      (escape key).toList
        = replaceAll ['/'] ['~', '1'] (replaceAll ['~'] ['~', '0'] key.toList) ∧
      (unescape key).toList
        = replaceAll ['~', '0'] ['~'] (replaceAll ['~', '1'] ['/'] key.toList) ∧
      IsSegment (escape key).toList ∧ unescape (escape key) = key) ∧
    (∀ segment : String, IsSegment segment.toList → escape (unescape segment) = segment) ∧
    Function.Injective escape := by
  have hback : Function.LeftInverse unescape escape := by
    intro key
    rw [unescape, escape, String.toList_ofList, unescapeChars_escapeChars, String.ofList_toList]
  refine ⟨?_, ?_, hback.injective⟩
  · intro key
    rw [escape, unescape, String.toList_ofList, String.toList_ofList]
    exact ⟨escapeChars_eq _, unescapeChars_eq _, isSegment_escapeChars _, hback key⟩
  · intro segment hsegment
    rw [escape, unescape, String.toList_ofList, escapeChars_unescapeChars hsegment,
      String.ofList_toList]

/-- A segment for a key in which tildes stand in front of digits, of each other and of a slash. -/
theorem tildes_written :
    IsSegment "~01~0~00~0~1".toList ∧ unescape "~01~0~00~0~1" = "~1~~0~/" ∧
      escape "~1~~0~/" = "~01~0~00~0~1" := by
  have hform : IsSegment "~01~0~00~0~1".toList := by
    rw [show "~01~0~00~0~1" = escape "~1~~0~/" by decide]
    exact (segments_are_escaped_keys.1 "~1~~0~/").2.2.1
  have hkey : unescape "~01~0~00~0~1" = "~1~~0~/" := by decide
  have hwritten := segments_are_escaped_keys.2.1 "~01~0~00~0~1" hform
  rw [hkey] at hwritten
  exact ⟨hform, hkey, hwritten⟩

end PatternAudit.Pointer
