/-
White space, and the three ways the audit cuts text along it.

A pattern is judged after its outer blanks are dropped, and a source line is
compared after every inner run of blanks is narrowed to one space. Both use
the Unicode property `White_Space` (25 code points), which is wider than the
four blanks of the JSON and YAML grammars; those grammars keep their own tests.

Everything works on lists of characters, so that each cut is one recursion on
the data; the `String` versions only wrap them.
-/

set_option autoImplicit false

namespace PatternAudit.Text

/-! ## The class -/

/-- The code points with the Unicode property `White_Space`. -/
def isBlank (c : Char) : Bool :=
  let n := c.toNat
  (9 ≤ n && n ≤ 13) || n == 0x20 || n == 0x85 || n == 0xA0 || n == 0x1680
    || (0x2000 ≤ n && n ≤ 0x200A) || n == 0x2028 || n == 0x2029 || n == 0x202F
    || n == 0x205F || n == 0x3000

/-! ## Trimming -/

/-- Drops the blanks at the front. -/
def trimStart (cs : List Char) : List Char := cs.dropWhile isBlank

/-- Drops the blanks at the back. -/
def trimEnd (cs : List Char) : List Char := (cs.reverse.dropWhile isBlank).reverse

/-- Drops the blanks at both ends. -/
def trimChars (cs : List Char) : List Char := trimEnd (trimStart cs)

/-- Drops the blanks at both ends of a string. -/
def trim (s : String) : String := String.ofList (trimChars s.toList)

/-! ## Collapsing -/

/-- Writes every run of blanks as one space. The flag says that the run before
the list has already been written. -/
def narrow : Bool → List Char → List Char
  | _, [] => []
  | seen, c :: cs =>
    if isBlank c then
      if seen then narrow true cs else ' ' :: narrow true cs
    else c :: narrow false cs

/-- Trims, then writes every inner run of blanks as one space. -/
def collapseChars (cs : List Char) : List Char := narrow false (trimChars cs)

/-! ## Lines -/

/-- Cuts a text after every line feed; the line feed, and one carriage return
right before it, belong to no line. A text that ends in a line feed has no
empty last line. The accumulator holds the current line backwards. -/
def linesFrom : List Char → List Char → List (List Char)
  | [], [] => []
  | cur, [] => [cur.reverse]
  | '\r' :: cur, '\n' :: cs => cur.reverse :: linesFrom [] cs
  | cur, '\n' :: cs => cur.reverse :: linesFrom [] cs
  | cur, c :: cs => linesFrom (c :: cur) cs

/-- The lines of a text, without their ends. -/
def lines (s : String) : List String := (linesFrom [] s.toList).map String.ofList

end PatternAudit.Text
