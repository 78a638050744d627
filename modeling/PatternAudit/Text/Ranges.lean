/-
Sets of code points, as closed ranges in ascending order, their operations, and
the compact text that the property tables are kept in.

A table is a list of numbers in base 36: the distance from the end of the
range before, then the length less one, for each range in turn. `ofDeltas`
undoes that.
-/

set_option autoImplicit false

namespace PatternAudit.Text

/-- A set of code points: closed ranges in ascending order. -/
abbrev Ranges := List (Nat × Nat)

namespace Ranges

/-- Whether a code point lies in one of the ranges. -/
def contains (rs : Ranges) (n : Nat) : Bool := rs.any fun r => r.1 ≤ n && n ≤ r.2

/-! ## Sets -/

/-- Joins the ranges of an ascending list that overlap or touch. The first range is
the one that still may grow. -/
def joinedFrom : Nat × Nat → Ranges → Ranges
  | cur, [] => [cur]
  | cur, r :: rest =>
    if r.1 ≤ cur.2 + 1 then joinedFrom (cur.1, max cur.2 r.2) rest else cur :: joinedFrom r rest

/-- Joins the ranges of an ascending list that overlap or touch. -/
def joined : Ranges → Ranges
  | [] => []
  | r :: rest => joinedFrom r rest

/-- The set of ranges that come in any order. -/
def ofList (rs : List (Nat × Nat)) : Ranges := joined (rs.mergeSort fun a b => a.1 ≤ b.1)

/-- The code points of either set. -/
def union (as bs : Ranges) : Ranges := joined (as.merge bs fun a b => a.1 ≤ b.1)

/-- The last code point. -/
def last : Nat := 0x10FFFF

/-- The code points from `n` on that are in none of the ranges. -/
def complementFrom (n : Nat) : Ranges → Ranges
  | [] => if n ≤ last then [(n, last)] else []
  | (a, b) :: rest =>
    if n < a then (n, a - 1) :: complementFrom (b + 1) rest else complementFrom (b + 1) rest

/-- The code points outside a set. -/
def complement (rs : Ranges) : Ranges := complementFrom 0 rs

/-- The code points of both sets. -/
def intersection (as bs : Ranges) : Ranges := complement (union (complement as) (complement bs))

/-- The code points of the first set that are not in the second. -/
def difference (as bs : Ranges) : Ranges := intersection as (complement bs)

/-! ## Tables -/

/-- The value of a digit of base 36. -/
def digitValue (c : Char) : Nat :=
  if '0' ≤ c && c ≤ '9' then c.toNat - '0'.toNat
  else if 'a' ≤ c && c ≤ 'z' then c.toNat - 'a'.toNat + 10
  else 0

/-- The numbers of a table. The accumulator is the number being read. -/
def numbers : Option Nat → List Char → List Nat
  | none, [] => []
  | some n, [] => [n]
  | none, ' ' :: cs => numbers none cs
  | some n, ' ' :: cs => n :: numbers none cs
  | acc, c :: cs => numbers (some (acc.getD 0 * 36 + digitValue c)) cs

/-- The ranges that follow the code point `last`, from distances and lengths. -/
def fromNumbers (last : Nat) : List Nat → Ranges
  | gap :: len :: rest => (last + gap, last + gap + len) :: fromNumbers (last + gap + len) rest
  | _ => []

/-- Reads a table. -/
def ofDeltas (table : List String) : Ranges :=
  fromNumbers 0 (numbers none (table.flatMap fun line => line.toList ++ [' ']))

end Ranges

end PatternAudit.Text
