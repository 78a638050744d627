/-
Character classes of a backtracking engine.

A class is copied for the automaton engine up to the bracket that closes it; nested
brackets only have to balance. Escapes are read here, because more of them are known
than there, and copied in the form that is known there.
-/
import PatternAudit.Dialect.Pcre.Escape

set_option autoImplicit false

namespace PatternAudit.Pcre

/-- The characters that the automaton engine gives a meaning to. -/
def isMeta (c : Char) : Bool := c ∈ "\\.+*?()|[]\x7b\x7d^$#&-~".toList

/-- A character as a member of a class. -/
def memberText (c : Char) : List Char := if isMeta c then ['\\', c] else [c]

/-- Copies the rest of a class. `depth` is the number of brackets that are open inside
its own; `text` is the copy, backwards. The fuel bounds the number of tokens. -/
def classFrom : Nat → Nat → List Char → State → Reading (List Char × State)
  | 0, _, _, s => refuse .invalidClass s.index
  | fuel + 1, depth, text, s =>
    match s.rest with
    | [] => refuse .invalidClass s.index
    | '\\' :: _ =>
      match classEscape s with
      | .error e => .error e
      | .ok (.literal c _, after) => classFrom fuel depth ((memberText c).reverse ++ text) after
      | .ok (.part t _, after) => classFrom fuel depth (t.reverse ++ text) after
      | .ok _ => refuse .invalidClass s.index
    | '[' :: _ => classFrom fuel (depth + 1) ('[' :: text) (s.skip 1)
    | ']' :: _ =>
      if depth = 0 then .ok ((']' :: text).reverse, s.skip 1)
      else classFrom fuel (depth - 1) (']' :: text) (s.skip 1)
    | c :: _ => classFrom fuel depth (c :: text) (s.skip 1)

/-- A class, from its opening bracket. A closing bracket that comes first stands for
itself. -/
def bracketClass (s : State) : Reading (Node × State) :=
  let s := s.skip 1
  let (text, s) := if s.starts '^' then (['^', '['], s.skip 1) else (['['], s)
  let (text, s) := if s.starts ']' then (']' :: text, s.skip 1) else (text, s)
  (classFrom (s.rest.length + 1) 0 text s).map fun (text, after) => (after.part text, after)

end PatternAudit.Pcre
