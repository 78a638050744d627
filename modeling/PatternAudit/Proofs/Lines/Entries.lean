/-
Quoted entries are found.

A pattern may be written between single quotes, or as a JSON string under a plain or a quoted
key. A line that holds one of these three forms is an entry of the pattern, whatever blanks and
quotes the pattern has: line and entry are narrowed apart from each other, and come out the same
because a quote stands at each end of what is quoted (`collapse_write`).

Only the form with single quotes is narrowed before it is quoted. A blank at an end of the
pattern is trimmed away there, and stays in the line. Such a line is no entry of its pattern
(`not_isEntry_of_not_trimmed`). That none of the other entries is in it either is a matter of
counting: narrowing keeps every character that is no blank, and each of these entries has a
character more than the line has.
-/
import PatternAudit.Lines
import PatternAudit.Proofs.Text.Collapse

set_option autoImplicit false

namespace PatternAudit.Lines

open Text (isBlank narrow collapseChars narrow_append narrow_cons)

/-! ## Lookups -/

theorem contains_iff {needle cs : List Char} : contains needle cs = true ↔ needle <:+: cs := by
  induction cs with
  | nil => simp [contains]
  | cons c cs ih =>
    rw [contains, Bool.or_eq_true, List.isPrefixOf_iff_prefix, ih, List.infix_cons_iff]

/-- What a line has to hold to be an entry. -/
theorem isEntry_iff {pattern line : List Char} :
    isEntry (quotedEntries pattern) (plainEntry pattern) line = true ↔
      (∃ entry ∈ quotedEntries pattern, entry <:+: line) ∨ line = plainEntry pattern ∨
        ' ' :: plainEntry pattern <:+ line := by
  simp only [isEntry, Bool.or_eq_true, List.any_eq_true, contains_iff, beq_iff_eq,
    List.isSuffixOf_iff_suffix, or_assoc]

/-- The lines of an index are the collapsed lines of its text. -/
theorem getElem?_ofText (source : String) (i : Nat) :
    (Index.ofText source)[i]? = (Text.lines source)[i]?.map fun line => collapseChars line.toList := by
  simp only [Index.ofText, Text.lines, List.getElem?_map, Option.map_map, Function.comp_def,
    String.toList_ofList]

/-- The line found is the first one that is an entry. -/
theorem find_eq_succ_iff {index : Index} {pattern : String} {i : Nat} :
    index.find pattern = i + 1 ↔
      (∃ line, index[i]? = some line ∧
        isEntry (quotedEntries pattern.toList) (plainEntry pattern.toList) line = true) ∧
      ∀ j < i, ∀ line, index[j]? = some line →
        ¬ isEntry (quotedEntries pattern.toList) (plainEntry pattern.toList) line = true := by
  have hfind : index.find pattern = i + 1 ↔
      index.findIdx? (isEntry (quotedEntries pattern.toList) (plainEntry pattern.toList))
        = some i := by
    rw [Index.find]
    split
    · rename_i j hj
      rw [hj, Option.some_inj, Nat.succ_inj]
    · rename_i hnone
      simp [hnone]
  rw [hfind, List.findIdx?_eq_some_iff_getElem]
  constructor
  · rintro ⟨hi, hfound, hfirst⟩
    refine ⟨⟨_, List.getElem?_eq_getElem hi, hfound⟩, fun j hj line hline => ?_⟩
    obtain ⟨_, rfl⟩ := List.getElem?_eq_some_iff.1 hline
    exact hfirst j hj
  · rintro ⟨⟨line, hline, hfound⟩, hfirst⟩
    obtain ⟨hi, rfl⟩ := List.getElem?_eq_some_iff.1 hline
    exact ⟨hi, hfound, fun j hj => hfirst j hj _ (List.getElem?_eq_getElem _)⟩

/-- A line that is an entry bounds the line found. -/
theorem find_le {index : Index} {pattern : String} {i : Nat} {line : List Char}
    (hline : index[i]? = some line)
    (hentry : isEntry (quotedEntries pattern.toList) (plainEntry pattern.toList) line = true) :
    1 ≤ index.find pattern ∧ index.find pattern ≤ i + 1 := by
  cases hfind : index.find pattern with
  | zero =>
    -- nothing is found only where no line is an entry
    rw [Index.find] at hfind
    split at hfind
    · cases hfind
    · rename_i hnone
      rw [List.findIdx?_eq_none_iff.1 hnone line (List.mem_of_getElem? hline)] at hentry
      cases hentry
  | succ j =>
    obtain ⟨-, hfirst⟩ := find_eq_succ_iff.1 hfind
    have hle : j ≤ i := Nat.le_of_not_lt fun hlt => hfirst i hlt line hline hentry
    exact ⟨Nat.succ_pos j, Nat.succ_le_succ hle⟩

/-! ## Written entries -/

/-- A text with every single quote written twice. -/
def doubled (cs : List Char) : List Char := cs.flatMap fun c => if c = '\'' then ['\'', '\''] else [c]

/-- What is written of a character starts with it. -/
theorem doubled_cons (c : Char) (cs : List Char) :
    doubled (c :: cs) = c :: ((if c = '\'' then ['\''] else []) ++ doubled cs) := by
  by_cases hc : c = '\'' <;> simp [doubled, hc]

/-- Doubling quotes brings no other characters in. -/
theorem mem_doubled {c : Char} {cs : List Char} : c ∈ doubled cs ↔ c ∈ cs := by
  have hown : ∀ d, c ∈ (if d = '\'' then ['\'', '\''] else [d]) ↔ c = d := by
    intro d
    by_cases hd : d = '\'' <;> simp [hd]
  simp only [doubled, List.mem_flatMap, hown, exists_eq_right']

/-- How the entry of a pattern may be written. -/
inductive Form where
  /-- the pattern between single quotes -/
  | singleQuoted
  /-- the pattern as a JSON string -/
  | json
  /-- the same with a quoted key, as in a JSON document -/
  | jsonMember
  deriving DecidableEq

namespace Form

/-- The key of an entry, up to its value. -/
def key : Form → String
  | singleQuoted | json => "pattern: "
  | jsonMember => "\"pattern\": "

/-- The value of an entry. -/
def value : Form → String → String
  | singleQuoted, pattern => String.ofList ('\'' :: doubled pattern.toList ++ ['\''])
  | json, pattern | jsonMember, pattern => Json.Write.string pattern

/-- The entry of a pattern. -/
def write (form : Form) (pattern : String) : String := form.key ++ form.value pattern

/-- The quote at each end of a value. -/
def quote : Form → Char
  | singleQuoted => '\''
  | json | jsonMember => '"'

/-- What stands between the quotes. -/
def body : Form → String → List Char
  | singleQuoted, pattern => doubled pattern.toList
  | json, pattern | jsonMember, pattern => pattern.toList.flatMap Json.Write.escapeChar

theorem toList_value (form : Form) (pattern : String) :
    (form.value pattern).toList = form.quote :: form.body pattern ++ [form.quote] := by
  cases form <;> exact String.toList_ofList

/-- An entry begins with its key and ends with its quote. -/
theorem toList_write (form : Form) (pattern : String) :
    (form.write pattern).toList
      = form.key.toList ++ (form.quote :: form.body pattern ++ [form.quote]) := by
  rw [write, String.toList_append, toList_value]

theorem isBlank_quote (form : Form) : isBlank form.quote = false := by
  cases form <;> decide

end Form

/-- A quoted text is narrowed between its quotes. -/
theorem narrow_quoted {q : Char} (hq : isBlank q = false) (cs : List Char) :
    narrow false (q :: cs ++ [q]) = q :: narrow false cs ++ [q] := by
  have hend : narrow false [q] = [q] := by rw [narrow_cons hq]; rfl
  rw [List.cons_append, narrow_cons hq, narrow_append (by simpa using hq), hend]
  rfl

/-- A line that holds an entry comes out narrowed between the quotes. -/
theorem collapse_write {form : Form} {pattern line tail : String} (htail : tail ∈ ["", ","])
    (hline : Text.trim line = form.write pattern ++ tail) :
    collapseChars line.toList = form.key.toList ++
      (form.quote :: narrow false (form.body pattern) ++ [form.quote]) ++ tail.toList := by
  have htrim : Text.trimChars line.toList = form.key.toList ++
      (form.quote :: form.body pattern ++ [form.quote]) ++ tail.toList := by
    rw [← String.toList_ofList (l := Text.trimChars line.toList), ← Text.trim, hline,
      String.toList_append, form.toList_write]
  have hkey : narrow false form.key.toList = form.key.toList := by cases form <;> decide
  have hcomma : (∀ c ∈ tail.toList.head?, isBlank c = false) ∧
      narrow false tail.toList = tail.toList := by
    rcases List.mem_pair.1 htail with rfl | rfl
    · exact ⟨by simp, by decide⟩
    · exact ⟨by simpa using (by decide : isBlank ',' = false), by decide⟩
  rw [collapseChars, htrim, narrow_append hcomma.1, narrow_append (by simpa using form.isBlank_quote),
    hkey, hcomma.2, narrow_quoted form.isBlank_quote]

/-! ## Entries that are found -/

theorem head?_doubled (cs : List Char) : (doubled cs).head? = cs.head? := by
  cases cs with
  | nil => rfl
  | cons c cs => rw [doubled_cons, List.head?_cons, List.head?_cons]

theorem getLast?_doubled (cs : List Char) : (doubled cs).getLast? = cs.getLast? := by
  rcases List.eq_nil_or_concat cs with rfl | ⟨cs, c, rfl⟩
  · rfl
  · rw [List.concat_eq_append, doubled, List.flatMap_append, List.flatMap_singleton]
    split
    · rename_i hc
      rw [hc, List.getLast?_concat, List.getLast?_append]
      rfl
    · rw [List.getLast?_concat, List.getLast?_concat]

/-- Doubling quotes neither adds a blank to an end nor takes one away. -/
theorem trimChars_doubled_iff {cs : List Char} :
    Text.trimChars (doubled cs) = doubled cs ↔ Text.trimChars cs = cs := by
  rw [Text.trimChars_eq_self_iff, Text.trimChars_eq_self_iff, Text.Trimmed, head?_doubled,
    getLast?_doubled, Text.Trimmed]

/-- A pattern between single quotes loses nothing to trimming if it has no blanks at its ends. -/
theorem singleQuoted_eq {pattern : List Char} (h : Text.trimChars pattern = pattern) :
    singleQuoted pattern = '\'' :: narrow false (doubled pattern) ++ ['\''] := by
  rw [singleQuoted, ← doubled, Text.collapseChars_eq_narrow_iff.2 (trimChars_doubled_iff.2 h)]

/-- A JSON string loses nothing to trimming. -/
theorem doubleQuoted_eq (pattern : String) :
    doubleQuoted pattern.toList
      = '"' :: narrow false (pattern.toList.flatMap Json.Write.escapeChar) ++ ['"'] := by
  have hquotes : Text.Trimmed ('"' :: pattern.toList.flatMap Json.Write.escapeChar ++ ['"']) := by
    constructor
    · simpa using (by decide : isBlank '"' = false)
    · rw [List.getLast?_concat]
      simpa using (by decide : isBlank '"' = false)
  rw [doubleQuoted, Json.Write.string, String.toList_ofList, String.toList_ofList,
    Text.collapseChars_eq_narrow_iff.2 (Text.trimChars_eq_self_iff.2 hquotes),
    narrow_quoted (by decide)]

/-- The entry that a form comes out as is one of those looked for, unless it is narrowed before
it is quoted and has blanks to lose. -/
theorem mem_quotedEntries {form : Form} {pattern : String}
    (h : form = .singleQuoted → Text.trimChars pattern.toList = pattern.toList) :
    form.key.toList ++ (form.quote :: narrow false (form.body pattern) ++ [form.quote])
      ∈ quotedEntries pattern.toList := by
  cases form with
  | singleQuoted =>
    rw [Form.quote, Form.body, ← singleQuoted_eq (h rfl)]
    exact List.mem_cons_self ..
  | json =>
    rw [Form.quote, Form.body, ← doubleQuoted_eq]
    exact List.mem_cons_of_mem _ (List.mem_cons_self ..)
  | jsonMember =>
    rw [Form.quote, Form.body, ← doubleQuoted_eq]
    exact List.mem_cons_of_mem _ (List.mem_cons_of_mem _ (List.mem_cons_self ..))

/-- A line that holds an entry of a pattern is one, unless blanks are lost. -/
theorem isEntry_write {form : Form} {pattern line tail : String} (htail : tail ∈ ["", ","])
    (hline : Text.trim line = form.write pattern ++ tail)
    (h : form = .singleQuoted → Text.trimChars pattern.toList = pattern.toList) :
    isEntry (quotedEntries pattern.toList) (plainEntry pattern.toList)
      (collapseChars line.toList) = true := by
  rw [isEntry_iff, collapse_write htail hline]
  exact Or.inl ⟨_, mem_quotedEntries h, (List.prefix_append _ _).isInfix⟩

/-! ## Entries that are missed -/

section Counts

/-- Where a text is written character by character and none is lost, a character comes as often
as before or more often. -/
theorem count_le_count_flatMap {x : Char} {f : Char → List Char}
    (hf : ∀ c, [c].count x ≤ (f c).count x) (cs : List Char) :
    cs.count x ≤ (cs.flatMap f).count x := by
  induction cs with
  | nil => exact Nat.le_refl _
  | cons c cs ih =>
    rw [List.flatMap_cons, List.count_append, ← List.singleton_append, List.count_append]
    exact Nat.add_le_add (hf c) ih

theorem count_doubled_of_ne {x : Char} (hx : x ≠ '\'') (cs : List Char) :
    (doubled cs).count x = cs.count x := by
  induction cs with
  | nil => rfl
  | cons c cs ih =>
    have hextra : (if c = '\'' then ['\''] else []).count x = 0 := by
      split
      · exact List.count_eq_zero_of_not_mem (by simpa using hx)
      · rfl
    rw [doubled_cons, List.count_cons, List.count_append, hextra, ih, Nat.zero_add, List.count_cons]

theorem count_quote_le_doubled (cs : List Char) : cs.count '\'' ≤ (doubled cs).count '\'' := by
  have hown : ∀ c : Char, [c].count '\'' ≤ (if c = '\'' then ['\'', '\''] else [c]).count '\'' := by
    intro c
    split
    · rename_i hc
      rw [hc]
      decide
    · exact Nat.le_refl _
  exact count_le_count_flatMap hown cs

/-- A pattern has no more double quotes than its JSON string, which has two more. -/
theorem count_doubleQuoted_ge (cs : List Char) : cs.count '"' + 2 ≤ (doubleQuoted cs).count '"' := by
  have hescape : ∀ c, [c].count '"' ≤ (Json.Write.escapeChar c).count '"' := by
    intro c
    by_cases hc : c = '"'
    · rw [hc]
      decide
    · rw [List.count_singleton, if_neg (by simpa using hc)]
      exact Nat.zero_le _
  have hbody := count_le_count_flatMap hescape cs
  rw [doubleQuoted, Text.count_collapseChars (by decide), Json.Write.string, String.toList_ofList,
    String.toList_ofList, List.count_append, List.count_cons_self, List.count_singleton_self]
  omega

/-- The line of an entry between single quotes, collapsed. -/
def quotedLine (key pattern tail : List Char) : List Char :=
  key ++ ('\'' :: narrow false (doubled pattern) ++ ['\'']) ++ tail

variable {key pattern tail : List Char}

/-- Narrowing keeps what is no blank, and doubling what is no quote. -/
theorem count_quotedLine {x : Char} (hblank : isBlank x = false) (hquote : x ≠ '\'')
    (htail : x ∉ tail) :
    (quotedLine key pattern tail).count x = key.count x + pattern.count x := by
  simp only [quotedLine, List.count_append, List.count_cons_of_ne hquote.symm, List.count_nil,
    Text.count_narrow hblank, count_doubled_of_ne hquote, List.count_eq_zero_of_not_mem htail,
    Nat.add_zero]

/-- Two of the quotes of a line are not those of the pattern. -/
theorem count_quote_quotedLine (hkey : '\'' ∉ key) (htail : '\'' ∉ tail) :
    (quotedLine key pattern tail).count '\'' = (doubled pattern).count '\'' + 2 := by
  simp only [quotedLine, List.count_append, List.count_cons_self, List.count_nil,
    Text.count_narrow (by decide : isBlank '\'' = false), List.count_eq_zero_of_not_mem hkey,
    List.count_eq_zero_of_not_mem htail]
  omega

theorem count_quote_singleQuoted (pattern : List Char) :
    (singleQuoted pattern).count '\'' = (doubled pattern).count '\'' + 2 := by
  rw [singleQuoted, ← doubled]
  simp only [List.count_append, List.count_cons_self, List.count_nil,
    Text.count_collapseChars (by decide : isBlank '\'' = false)]

end Counts

/-- Up to the first of a character, and behind it, equal texts are equal. -/
theorem append_cons_inj_of_first {x : Char} {a b as bs : List Char} (ha : x ∉ a) (hb : x ∉ b)
    (h : a ++ x :: as = b ++ x :: bs) : a = b ∧ as = bs := by
  obtain ⟨m, rfl, hm⟩ | ⟨m, rfl, hm⟩ := List.append_eq_append_iff.1 h
  · cases m with
    | nil => simpa using hm
    | cons y m =>
      obtain ⟨rfl, -⟩ := List.cons_eq_cons.1 hm
      simp at hb
  · cases m with
    | nil => simpa using hm.symm
    | cons y m =>
      obtain ⟨rfl, -⟩ := List.cons_eq_cons.1 hm
      simp at ha

section Missed

variable {key pattern tail : List Char}

/-- The entry between single quotes is in the line only if nothing was trimmed away. Both have
the same number of quotes, so there is none before the entry and none behind it, and what stands
between the outer quotes is the same. -/
theorem trimChars_of_singleQuoted_held (hkey : '\'' ∉ key) (htail : '\'' ∉ tail)
    (h : key ++ singleQuoted pattern <:+: quotedLine key pattern tail) :
    Text.trimChars pattern = pattern := by
  obtain ⟨before, behind, hline⟩ := h
  have hcount := congrArg (List.count '\'') hline
  rw [count_quote_quotedLine hkey htail, List.count_append, List.count_append, List.count_append,
    count_quote_singleQuoted] at hcount
  have hbefore : '\'' ∉ before := List.count_eq_zero.1 (by omega)
  have hbehind : '\'' ∉ behind := List.count_eq_zero.1 (by omega)
  have hopening : (before ++ key) ++ '\'' :: (collapseChars (doubled pattern) ++ '\'' :: behind)
      = key ++ '\'' :: (narrow false (doubled pattern) ++ '\'' :: tail) := by
    simpa [singleQuoted, quotedLine, doubled] using hline
  obtain ⟨-, hvalue⟩ := append_cons_inj_of_first
    (by simp [hbefore, hkey]) hkey hopening
  -- read backwards, the closing quotes are the first ones
  have hclosing : behind.reverse ++ '\'' :: (collapseChars (doubled pattern)).reverse
      = tail.reverse ++ '\'' :: (narrow false (doubled pattern)).reverse := by
    simpa using congrArg List.reverse hvalue
  obtain ⟨-, hbody⟩ := append_cons_inj_of_first (by simpa using hbehind) (by simpa using htail)
    hclosing
  rw [← trimChars_doubled_iff, ← Text.collapseChars_eq_narrow_iff]
  exact List.reverse_injective hbody

/-- A JSON string is in no line of a pattern between single quotes: it has too many double
quotes. -/
theorem not_doubleQuoted_held (hkey : '"' ∉ key) (htail : '"' ∉ tail) (front : List Char) :
    ¬ front ++ doubleQuoted pattern <:+: quotedLine key pattern tail := by
  intro h
  have hle := h.sublist.count_le '"'
  have hge := count_doubleQuoted_ge pattern
  rw [count_quotedLine (by decide) (by decide) htail, List.count_append,
    List.count_eq_zero_of_not_mem hkey] at hle
  omega

/-- The plain entry is not the line: it lacks the quotes. -/
theorem quotedLine_ne_plain (hkey : '\'' ∉ key) (htail : '\'' ∉ tail) :
    quotedLine key pattern tail ≠ key ++ collapseChars pattern := by
  intro h
  have hcount := congrArg (List.count '\'') h
  have hdoubled := count_quote_le_doubled pattern
  rw [count_quote_quotedLine hkey htail, List.count_append, List.count_eq_zero_of_not_mem hkey,
    Text.count_collapseChars (by decide)] at hcount
  omega

/-- The plain entry does not end the line: what stands before it would have the first character
of the key once more. -/
theorem not_plain_suffix {x : Char} (hx : isBlank x = false) (hquote : x ≠ '\'') (htail : x ∉ tail) :
    ¬ ' ' :: (x :: key ++ collapseChars pattern) <:+ quotedLine (x :: key) pattern tail := by
  rintro ⟨before, hline⟩
  have hspace : ' ' ≠ x := by
    rintro rfl
    exact absurd hx (by decide)
  have hcount := congrArg (List.count x) hline
  rw [count_quotedLine hx hquote htail, List.count_append, List.count_cons_of_ne hspace,
    List.count_append, Text.count_collapseChars hx] at hcount
  cases before with
  | nil => exact hspace (List.head_eq_of_cons_eq hline)
  | cons c before =>
    have hc : c = x := List.head_eq_of_cons_eq hline
    rw [hc, List.count_cons_self] at hcount
    omega

/-- A line that holds a pattern between single quotes is no entry of it if the pattern has blanks
at its ends. -/
theorem not_isEntry_of_not_trimmed {pattern line tail : String} (htail : tail ∈ ["", ","])
    (hline : Text.trim line = Form.singleQuoted.write pattern ++ tail)
    (h : Text.trimChars pattern.toList ≠ pattern.toList) :
    isEntry (quotedEntries pattern.toList) (plainEntry pattern.toList)
      (collapseChars line.toList) = false := by
  have hkey : '\'' ∉ "pattern: ".toList ∧ '"' ∉ "pattern: ".toList := by decide
  have htails : '\'' ∉ tail.toList ∧ '"' ∉ tail.toList ∧ 'p' ∉ tail.toList := by
    rcases List.mem_pair.1 htail with rfl | rfl <;> decide
  have hquoted : collapseChars line.toList
      = quotedLine "pattern: ".toList pattern.toList tail.toList := by
    rw [collapse_write htail hline, quotedLine, Form.key, Form.quote, Form.body]
  rw [Bool.eq_false_iff, Ne, isEntry_iff, hquoted]
  rintro (⟨entry, hentry, hheld⟩ | hplain | hsuffix)
  · rcases List.mem_cons.1 hentry with rfl | hentry
    · exact h (trimChars_of_singleQuoted_held hkey.1 htails.1 hheld)
    · rcases List.mem_pair.1 hentry with rfl | rfl
      · exact not_doubleQuoted_held hkey.2 htails.2.1 _ hheld
      · exact not_doubleQuoted_held hkey.2 htails.2.1 _ hheld
  · exact quotedLine_ne_plain hkey.1 htails.1 hplain
  · exact not_plain_suffix (by decide) (by decide) htails.2.2 hsuffix

end Missed

/-- **A quoted entry is found, unless it is narrowed before it is quoted.** A line that holds a
pattern as a JSON string, under either key, or between single quotes, with or without a comma
behind it, bounds the line that the pattern is found on; between single quotes the pattern must
have no blanks at its ends. If it has, the line is never the one found. -/
theorem find_quoted_entry {source line pattern tail : String} {i : Nat} {form : Form}
    (hline : (Text.lines source)[i]? = some line) (htail : tail ∈ ["", ","])
    (hentry : Text.trim line = form.write pattern ++ tail) :
    ((form = .singleQuoted → Text.trim pattern = pattern) →
        1 ≤ (Index.ofText source).find pattern ∧ (Index.ofText source).find pattern ≤ i + 1) ∧
      (form = .singleQuoted → Text.trim pattern ≠ pattern →
        (Index.ofText source).find pattern ≠ i + 1) := by
  have htrim : Text.trim pattern = pattern ↔ Text.trimChars pattern.toList = pattern.toList := by
    rw [Text.trim, ← String.toList_inj, String.toList_ofList]
  have hindex : (Index.ofText source)[i]? = some (collapseChars line.toList) := by
    rw [getElem?_ofText, hline]
    rfl
  constructor
  · intro h
    exact find_le hindex (isEntry_write htail hentry fun hform => htrim.1 (h hform))
  · rintro rfl h hfind
    obtain ⟨⟨_, hsame, hfound⟩, -⟩ := find_eq_succ_iff.1 hfind
    rw [hindex, Option.some_inj] at hsame
    rw [← hsame, not_isEntry_of_not_trimmed htail hentry fun heq => h (htrim.2 heq)] at hfound
    cases hfound

/-- A pattern with a quote and two blanks in a row is found between single quotes. -/
theorem wideQuote_found :
    ((Text.lines "type: string\n  pattern: 'it''s  so',\n")[1]? = some "  pattern: 'it''s  so'," ∧
      "," ∈ ["", ","] ∧
      Text.trim "  pattern: 'it''s  so'," = Form.singleQuoted.write "it's  so" ++ "," ∧
      Text.trim "it's  so" = "it's  so") ∧
      1 ≤ (Index.ofText "type: string\n  pattern: 'it''s  so',\n").find "it's  so" ∧
      (Index.ofText "type: string\n  pattern: 'it''s  so',\n").find "it's  so" ≤ 2 := by
  have hline : (Text.lines "type: string\n  pattern: 'it''s  so',\n")[1]?
      = some "  pattern: 'it''s  so'," := by decide +kernel
  have htail : "," ∈ ["", ","] := by decide
  have hentry : Text.trim "  pattern: 'it''s  so',"
      = Form.singleQuoted.write "it's  so" ++ "," := by decide +kernel
  have htrim : Text.trim "it's  so" = "it's  so" := by decide +kernel
  exact ⟨⟨hline, htail, hentry, htrim⟩, (find_quoted_entry hline htail hentry).1 fun _ => htrim⟩

/-- **A pattern with a blank at its front is not found between single quotes**, though its entry
is the only line. -/
theorem outerBlank_not_found :
    (Text.lines "pattern: ' a'")[0]? = some "pattern: ' a'" ∧
      Text.trim "pattern: ' a'" = Form.singleQuoted.write " a" ∧
      (Index.ofText "pattern: ' a'").find " a" = 0 := by
  decide +kernel

end PatternAudit.Lines
