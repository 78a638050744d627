/-
Escapes of a backtracking engine, inside classes and outside.

An escape is a literal, a part for the automaton engine, or a construct that only
exists outside classes.
-/
import PatternAudit.Dialect.Pcre.State

set_option autoImplicit false

namespace PatternAudit.Pcre

/-! ## Code points -/

/-- The literal of a code point. -/
def codePoint (s : State) (digits : List Char) (len : Nat) : Reading (Node × State) :=
  let n := Text.hexNumber digits
  if n.isValidChar then .ok (s.literal (Char.ofNat n), s.skip len)
  else refuse .invalidCodePoint s.index

/-- The digits of a code point: exactly `width`, or up to eight in braces. -/
def hexEscape (s : State) (width : Nat) : Reading (Node × State) :=
  let ds := s.rest.take width
  if ds.length = width && ds.all Text.isHex then codePoint s ds width
  else match s.rest with
  | '\x7b' :: body =>
    let ds := (body.take 8).takeWhile Text.isHex
    if ds.isEmpty || (body.drop ds.length).head? != some '\x7d' then refuse .invalidHex s.index
    else codePoint s ds (ds.length + 2)
  | _ => refuse .invalidHex s.index

/-! ## Characters -/

/-- The control characters that have a letter. -/
def controlLetter? : Char → Option Char
  | 'a' => some '\x07'
  | 'b' => some '\x08'
  | 'f' => some '\x0C'
  | 'n' => some '\n'
  | 'r' => some '\r'
  | 't' => some '\t'
  | 'v' => some '\x0B'
  | 'e' => some '\x1B'
  | _ => none

/-- The letters that may be escaped without meaning anything in a class. -/
def isIdle (c : Char) : Bool := c ∈ ['k', 'A', 'z', 'b', 'B', 'K', 'G']

/-- The place that a letter asks for outside a class. -/
def place? : Char → Option Place
  | 'A' => some .textStart
  | 'z' => some .textEnd
  | 'b' => some .wordEdge
  | 'B' => some .wordEdge
  | '<' => some .wordEdge
  | '>' => some .wordEdge
  | _ => none

/-! ## Escapes -/

/-- A property escape, from its letter; `s` stands at the backslash. -/
def propertyEscape (s : State) : Reading (Node × State) :=
  match s.rest with
  | b :: p :: '\x7b' :: body =>
    let name := body.takeWhile (· != '\x7d')
    if name.length = body.length then refuse .unclosedProperty s.index
    else
      .ok (s.part (b :: p :: '\x7b' :: (name ++ ['\x7d'])), s.skip (name.length + 4))
  | text => .ok (s.part (text.take 3), s.skip 3)

/-- A character that stands for itself or for a control character, or is refused. -/
def plainEscape (s : State) (c : Char) : Reading (Node × State) :=
  match controlLetter? c with
  | some d => .ok (s.literal d, s.skip 2)
  | none =>
    if Text.isLetterAscii c && !isIdle c then
      refuse (.invalidEscape (String.ofList ['\\', c])) s.index
    else .ok (s.literal c, s.skip 2)

/-- An escape that means the same in a class and outside, from its backslash. -/
def sharedEscape (s : State) (c : Char) : Reading (Node × State) :=
  if Text.isDigit c then
    (numberedReference (s.skip 1)).map fun (group, s) => (.reference group, s)
  else if c ∈ ['d', 'D', 's', 'S', 'w', 'W'] then .ok (s.part ['\\', c], s.skip 2)
  else if c = 'h' then .ok (.part "[0-9A-Fa-f]".toList false, s.skip 2)
  else if c = 'H' then .ok (.part "[^0-9A-Fa-f]".toList false, s.skip 2)
  else if c = 'x' then hexEscape (s.skip 2) 2
  else if c = 'u' then hexEscape (s.skip 2) 4
  else if c = 'U' then hexEscape (s.skip 2) 8
  else if (c = 'p' || c = 'P') && 2 < s.rest.length then propertyEscape s
  else plainEscape s c

/-- An escape outside a class, from its backslash. -/
def escape (s : State) : Reading (Node × State) :=
  match s.rest.drop 1 with
  | [] => refuse .trailingBackslash s.index
  | c :: after =>
    if c = 'k' then
      let inner := s.skip 2
      let reference :=
        if inner.starts '\'' then namedReference inner ['\''] ['\''] true
        else namedReference inner ['<'] ['>'] true
      reference.map fun (group, s) => (.reference group, s)
    else if (c = 'b' || c = 'B') && after.head? == some '\x7b' then
      refuse (.invalidEscape (String.ofList ['\\', c])) s.index
    else match place? c with
    | some p => .ok (.place p, s.skip 2)
    | none =>
      if c = 'K' || c = 'G' then .ok (.matchEdge, s.skip 2) else sharedEscape s c

/-- An escape inside a class, from its backslash: what it adds to the class. -/
def classEscape (s : State) : Reading (Node × State) :=
  match s.rest.drop 1 with
  | [] => refuse .trailingBackslash s.index
  | c :: _ => sharedEscape s c

end PatternAudit.Pcre
