/-
Code points as an automaton over bytes sees them.

A range of code points is cut into pieces whose UTF-8 forms are products of byte
ranges: first at the surrogates, which have no form, then where the form gets
longer, then where a trailing byte would not run through all its values.
-/
import PatternAudit.Text.Ranges

set_option autoImplicit false

namespace PatternAudit.Re2

/-- The bytes of a code point. -/
def utf8Bytes (n : Nat) : List Nat :=
  if n < 0x80 then [n]
  else if n < 0x800 then [0xC0 + n / 0x40, 0x80 + n % 0x40]
  else if n < 0x10000 then [0xE0 + n / 0x1000, 0x80 + n / 0x40 % 0x40, 0x80 + n % 0x40]
  else [0xF0 + n / 0x40000, 0x80 + n / 0x1000 % 0x40, 0x80 + n / 0x40 % 0x40, 0x80 + n % 0x40]

/-- Where a range has to be cut, if it has to: the last code point of its first
piece. -/
def cut? (s e : Nat) : Option Nat :=
  let atLength := [0x7F, 0x7FF, 0xFFFF].find? fun m => s ≤ m && m < e
  atLength.or <|
    if e ≤ 0x7F then none
    else [0x40, 0x1000, 0x40000].findSome? fun m =>
      if s / m = e / m then none
      else if s % m ≠ 0 then some (s / m * m + (m - 1))
      else if e % m ≠ m - 1 then some (e / m * m - 1)
      else none

/-- The pieces of a range. The fuel bounds the number of cuts along one piece. -/
def pieces : Nat → Nat → Nat → List (List (Nat × Nat))
  | 0, _, _ => []
  | fuel + 1, s, e =>
    if e < s then []
    else if s ≤ 0xDFFF && 0xD800 ≤ e then pieces fuel s 0xD7FF ++ pieces fuel 0xE000 e
    else match cut? s e with
    | some m => pieces fuel s m ++ pieces fuel (m + 1) e
    | none => [(utf8Bytes s).zip (utf8Bytes e)]

/-- The pieces of a set, in ascending order. -/
def setPieces (rs : Text.Ranges) : List (List (Nat × Nat)) :=
  rs.flatMap fun r => pieces 32 r.1 r.2

/-- The length of the longest common beginning. -/
def sharedLength : List (Nat × Nat) → List (Nat × Nat) → Nat
  | a :: as, b :: bs => if a = b then 1 + sharedLength as bs else 0
  | _, _ => 0

/-- The number of byte ranges that remain when each piece shares its beginning with
the piece before. -/
def distinctRanges (last : List (Nat × Nat)) : List (List (Nat × Nat)) → Nat
  | [] => 0
  | p :: ps => (p.length - sharedLength last p) + distinctRanges p ps

end PatternAudit.Re2
