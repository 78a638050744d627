/-
The text of a value, in block form.

A description has only text for keys, so a key that is a collection or carries
a tag is named by the text that it would be written as: items after `- `,
members after `key: `, two columns per level, empty collections in brackets. A
string is written plain where a reader would take it for the same string, and
quoted otherwise; one with line ends is written literally.
-/
import PatternAudit.Yaml.Value
import PatternAudit.Text.Utf8

set_option autoImplicit false

namespace PatternAudit.Yaml

/-! ## Strings -/

/-- The characters that are written as they are. -/
def isPlainlyShown (c : Char) : Bool :=
  let n := c.toNat
  n = 0x0A || (0x20 ≤ n && n ≤ 0x7E) || (0xA0 ≤ n && n ≤ 0xD7FF)
    || (0xE000 ≤ n && n ≤ 0xFFFD && n != 0xFEFF)

/-- The words that some readers take for booleans. -/
def booleanWords : List String :=
  ["y", "Y", "yes", "Yes", "YES", "n", "N", "no", "No", "NO", "true", "True", "TRUE",
    "false", "False", "FALSE", "on", "On", "ON", "off", "Off", "OFF"]

/-- How a string is written when nothing stands against it. -/
def preferredStyle (s : String) : Style :=
  if s ∈ booleanWords then .single
  else if s.toList.contains '\n' then .literal
  else match Scalar.ofPlain s with
    | .str _ => if Scalar.hasLeadingZero s.toList then .single else .plain
    | _ => .single

/-- Whether a blank, a line end or the end follows. -/
def gapNext : List Char → Bool
  | [] => true
  | c :: _ => isBlank c || isBreak c

/-- Whether a character inside a string keeps a reader from taking it for part of a plain
one. The flag tells whether a gap precedes. -/
def interrupts : Bool → List Char → Bool
  | _, [] => false
  | gap, c :: rest =>
    (c = ':' && gapNext rest) || (c = '#' && gap) || interrupts (isBlank c || isBreak c) rest

/-- Whether the start of a string would be read as a sign. -/
def startsAsSign : List Char → Bool
  | '-' :: '-' :: '-' :: _ => true
  | '.' :: '.' :: '.' :: _ => true
  | c :: rest =>
    c ∈ ['#', ',', '[', ']', '{', '}', '&', '*', '!', '|', '>', '\'', '"', '%', '@', '\x60']
      || ((c = '?' || c = ':' || c = '-') && gapNext rest)
  | [] => false

/-- Whether two neighbours have the given properties. -/
def hasPair (p q : Char → Bool) : List Char → Bool
  | a :: b :: rest => (p a && q b) || hasPair p q (b :: rest)
  | _ => false

/-- Which styles a string admits. -/
structure Admits where
  plain : Bool
  single : Bool
  block : Bool
  multiline : Bool

/-- Finds the styles that a string admits. -/
def Admits.ofChars (cs : List Char) : Admits :=
  let isSpace (c : Char) : Bool := c = ' '
  let special := cs.any (fun c => !isPlainlyShown c) || hasPair isSpace isBreak cs
  let spaceAfterBreak := hasPair isBreak isSpace cs
  let atEdge := cs.head?.any (fun c => isSpace c || isBreak c)
    || cs.getLast?.any (fun c => isSpace c || isBreak c)
  let multiline := cs.any isBreak
  { plain := !special && !spaceAfterBreak && !atEdge && !multiline && !startsAsSign cs
      && !interrupts false cs
    single := !special && !spaceAfterBreak
    block := !cs.isEmpty && !special && !cs.getLast?.any isSpace
    multiline }

/-- The style a string is written in, in a place that may allow one line only. -/
def styleAt (oneLine : Bool) (style : Style) (cs : List Char) : Style :=
  let a := Admits.ofChars cs
  let fallback : Style := if a.single then .single else .double
  if oneLine && a.multiline then .double
  else match style with
    | .plain => if a.plain && !(cs.isEmpty && oneLine) then .plain else fallback
    | .single => fallback
    | .literal => if a.block && !oneLine then .literal else .double
    | s => s

/-- The digits of a number in upper-case hexadecimal, with leading zeros. -/
def upperHex (width n : Nat) : List Char :=
  let ds := (Nat.toDigits 16 n).map fun c => if 'a' ≤ c && c ≤ 'f' then Char.ofNat (c.toNat - 32) else c
  List.replicate (width - ds.length) '0' ++ ds

/-- A character between double quotes. -/
def doubleQuotedChar (c : Char) : List Char :=
  let short : List (Nat × Char) := [(0, '0'), (7, 'a'), (8, 'b'), (9, 't'), (10, 'n'), (11, 'v'), (12, 'f'),
    (13, 'r'), (27, 'e'), (34, '"'), (92, '\\'), (0x85, 'N'), (0xA0, '_'), (0x2028, 'L'), (0x2029, 'P')]
  if isPlainlyShown c && !isBreak c && c != '"' && c != '\\' then [c]
  else match short.find? (·.1 == c.toNat) with
    | some (_, e) => ['\\', e]
    | none =>
      if c.toNat ≤ 0xFF then '\\' :: 'x' :: upperHex 2 c.toNat
      else if c.toNat ≤ 0xFFFF then '\\' :: 'u' :: upperHex 4 c.toNat
      else '\\' :: 'U' :: upperHex 8 c.toNat

/-- The mark after the `|` of a literal: a width if the text begins blank, and what is
to be done with the last line ends. -/
def literalHints (cs : List Char) : List Char :=
  let width := if cs.head?.any (fun c => c = ' ' || isBreak c) then ['2'] else []
  let ends := match cs.reverse with
    | a :: b :: _ => if !isBreak a then ['-'] else if isBreak b then ['+'] else []
    | [a] => if isBreak a then ['+'] else ['-']
    | [] => ['-']
  width ++ ends

/-- A text, with an indentation before each line that is not empty. -/
def indentLines (indent : Nat) : Bool → List Char → List Char
  | _, [] => []
  | fresh, c :: rest =>
    if isBreak c then c :: indentLines indent true rest
    else (if fresh then List.replicate indent ' ' else []) ++ c :: indentLines indent false rest

/-- A character of a tag, escaped unless tags may hold it. -/
def tagChar (c : Char) : List Char :=
  if isWord c || c ∈ [';', '/', '?', ':', '@', '&', '=', '+', '$', ',', '.', '~', '*', '\'', '(', ')', '[', ']', '!']
  then [c]
  else (Text.bytes (String.ofList [c])).flatMap fun b => '%' :: upperHex 2 b.toNat

/-! ## The pen -/

/-- What has been written: backwards, and what the next thing has to know of it. -/
structure Pen where
  written : List Char
  column : Nat
  /-- whether the last thing was a blank -/
  blank : Bool
  /-- whether the line holds indentation and signs only -/
  margin : Bool

namespace Pen

/-- Nothing written. -/
def fresh : Pen := ⟨[], 0, true, true⟩

/-- Writes characters of a line. -/
def put (p : Pen) (cs : List Char) : Pen :=
  { p with written := cs.reverse ++ p.written, column := p.column + cs.length }

/-- Ends the line. -/
def newline (p : Pen) : Pen := ⟨'\n' :: p.written, 0, true, true⟩

/-- Writes a sign, after a space if it needs one. -/
def sign (p : Pen) (cs : List Char) (spaced leavesBlank leavesMargin : Bool) : Pen :=
  let p := if spaced && !p.blank then p.put [' '] else p
  { p.put cs with blank := leavesBlank, margin := p.margin && leavesMargin }

/-- Goes to a column, on a new line if something stands in the way. -/
def indentTo (p : Pen) (indent : Nat) : Pen :=
  let p := if !p.margin || indent < p.column || (p.column = indent && !p.blank) then p.newline else p
  { p.put (List.replicate (indent - p.column) ' ') with blank := true, margin := true }

/-- Writes a text in a style. -/
def text (p : Pen) (indent : Nat) (style : Style) (cs : List Char) : Pen :=
  match style with
  | .literal =>
    let head := (p.sign ['|'] true false false).put (literalHints cs)
    let body := head.newline.put (indentLines indent true cs)
    if cs.getLast?.any isBreak then { body with column := 0, margin := true }
    else { body with margin := false }
  | .single =>
    p.sign ('\'' :: cs.flatMap (fun c => if c = '\'' then ['\'', '\''] else [c]) ++ ['\'']) true false false
  | .double => p.sign ('"' :: cs.flatMap doubleQuotedChar ++ ['"']) true false false
  | _ => if cs.isEmpty then p else p.sign cs true false false

end Pen

/-! ## Values -/

namespace Value

/-- The text of a scalar and how it would best be written; collections have none. -/
def scalarText? : Value → Option (List Char × Style)
  | null => some ("null".toList, .plain)
  | bool b => some ((if b then "true" else "false").toList, .plain)
  | num (.int n) => some ((toString n).toList, .plain)
  | num (.float x) => some ((duplicate.numberText x).toList, .plain)
  | str s => some (s.toList, preferredStyle s)
  | _ => none

/-- Whether a value can stand before a `:` on one line. -/
def isSimpleKey : Nat → Value → Bool
  | _, seq items => items.isEmpty
  | _, map members => members.isEmpty
  | used, tagged t v => isSimpleKey (used + (t.toList.flatMap tagChar).length + 1) v
  | used, v => match scalarText? v with
    | some (cs, _) => !cs.any isBreak && used + Text.byteSize cs ≤ 128
    | none => false

/-- Writes a tag. -/
def writeTag (p : Pen) : Option String → Pen
  | none => p
  | some t => p.sign ('!' :: t.toList.flatMap tagChar) true false false

mutual

/-- Writes a value. `indent` is the column of the collection around it, if there is one;
`inMapping` and `oneLine` tell what kind of place it stands in. -/
def write (indent : Option Nat) (inMapping oneLine : Bool) (tag : Option String) (p : Pen) :
    Value → Pen
  | tagged t v => write indent inMapping oneLine (some t) p v
  | seq [] => (writeTag p tag).sign ['[', ']'] true false false
  | seq (v :: vs) =>
    let p := writeTag p tag
    let column := match indent with
      | none => 0
      | some i => if inMapping && !p.margin then i else i + 2
    writeItems column p (v :: vs)
  | map [] => (writeTag p tag).sign ['\x7b', '\x7d'] true false false
  | map (m :: ms) =>
    let column := match indent with
      | none => 0
      | some i => i + 2
    writeMembers column (writeTag p tag) (m :: ms)
  | v =>
    let p := writeTag p tag
    match scalarText? v with
    | some (cs, style) => p.text ((indent.map (· + 2)).getD 2) (styleAt oneLine style cs) cs
    | none => p

/-- Writes the items of a sequence. -/
def writeItems (column : Nat) (p : Pen) : List Value → Pen
  | [] => p
  | v :: rest =>
    let p := (p.indentTo column).sign ['-'] true false true
    writeItems column (write (some column) false false none p v) rest

/-- Writes the members of a mapping. -/
def writeMembers (column : Nat) (p : Pen) : List (Value × Value) → Pen
  | [] => p
  | (k, v) :: rest =>
    let p := p.indentTo column
    let p :=
      if isSimpleKey 0 k then
        let p := (write (some column) true true none p k).sign [':'] false false false
        write (some column) true false none p v
      else
        let p := write (some column) true false none (p.sign ['?'] true false true) k
        let p := (p.indentTo column).sign [':'] true false true
        write (some column) true false none p v
    writeMembers column p rest

end

/-- The text of a value. -/
def print (v : Value) : String :=
  String.ofList (write none false false none Pen.fresh v).written.reverse

end Value

end PatternAudit.Yaml
