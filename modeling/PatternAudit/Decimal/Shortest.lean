/-
The fewest digits that read back as a given binary64 number.

A finite nonzero double is `m * 2^q`, and the reals that round to it form an
interval around it, closed exactly when `m` is even. For each digit count
`n = 1, 2, …, 17` the decimal grid with `n` significant digits has two points
next to the value; the first grid with a point inside the interval decides how
many digits are written, and the nearer of the two points decides which ones
(an exact tie goes to the even digit).

Everything is exact arithmetic on natural numbers: `m * 2^q` and the grid point
`d * 10^k` are compared after both are cleared of negative exponents.
-/
import PatternAudit.Word

set_option autoImplicit false

namespace PatternAudit.Decimal

/-! ## Binary values -/

/-- The magnitude of a finite double: `mantissa * 2^exponent`. The flag `narrowBelow`
marks the powers of two, below which the doubles lie twice as dense. -/
structure Binary where
  mantissa : Nat
  exponent : Int
  narrowBelow : Bool

/-- Takes the magnitude of a finite double from its bits. -/
def Binary.ofBits (bits : UInt64) : Binary :=
  let fraction : Nat := bits.toNat % Word.count 52
  let biased : Nat := bits.toNat / Word.count 52 % Word.count 11
  if biased = 0 then ⟨fraction, -1074, false⟩
  else ⟨fraction + Word.count 52, (biased : Int) - 1075, fraction == 0 && 1 < biased⟩

/-- A power of ten. -/
def ten (n : Nat) : Nat := Nat.pow 10 n

/-- Compares `a * 2^p` with `b * 10^k`. -/
def compareGrid (a : Nat) (p : Int) (b : Nat) (k : Int) : Ordering :=
  let left := a * Word.count p.toNat * ten (-k).toNat
  let right := b * ten k.toNat * Word.count (-p).toNat
  compare left right

/-- Whether `d * 10^k` rounds to the double. -/
def Binary.accepts (v : Binary) (d : Nat) (k : Int) : Bool :=
  let closed := v.mantissa % 2 == 0
  let below := if v.narrowBelow then compareGrid (4 * v.mantissa - 1) (v.exponent - 2) d k
    else compareGrid (2 * v.mantissa - 1) (v.exponent - 1) d k
  let above := compareGrid (2 * v.mantissa + 1) (v.exponent - 1) d k
  (below == .lt || (closed && below == .eq)) && (above == .gt || (closed && above == .eq))

/-- The largest grid point `d * 10^k` at or below the value, as `d`. -/
def Binary.floorOn (v : Binary) (k : Int) : Nat :=
  (v.mantissa * Word.count v.exponent.toNat * ten (-k).toNat) / (ten k.toNat * Word.count (-v.exponent).toNat)

/-- Whether the value is nearer to `d + 1` than to `d` on the grid `10^k`; a tie
goes to the even one. -/
def Binary.roundsUp (v : Binary) (d : Nat) (k : Int) : Bool :=
  match compareGrid (2 * v.mantissa) v.exponent (2 * d + 1) k with
  | .gt => true
  | .lt => false
  | .eq => d % 2 == 1

/-! ## Digits -/

/-- A decimal `digits * 10^exponent`. -/
structure Digits where
  digits : Nat
  exponent : Int

/-- The number of decimal digits of a positive number. -/
def digitCount (n : Nat) : Nat := (Nat.toDigits 10 n).length

/-- The exponent `e` with `10^(e-1) ≤ v < 10^e`. -/
def Binary.magnitude (v : Binary) : Int :=
  if 0 ≤ v.exponent then digitCount (v.mantissa * Word.count v.exponent.toNat)
  else
    let scale := (-v.exponent).toNat
    -- 400 places are more than the smallest double needs to show a digit
    (digitCount (v.mantissa * ten 400 / Word.count scale) : Int) - 400

/-- The grid point with `n` significant digits that reads back, if there is one. -/
def Binary.onGrid (v : Binary) (n : Nat) : Option Digits :=
  let k := v.magnitude - n
  let low := v.floorOn k
  let near := if v.roundsUp low k then low + 1 else low
  let far := if v.roundsUp low k then low else low + 1
  if v.accepts near k then some ⟨near, k⟩
  else if v.accepts far k then some ⟨far, k⟩
  else none

/-- Drops trailing zeros of the digits into the exponent. -/
def Digits.strip (d : Digits) : Nat → Digits
  | 0 => d
  | n + 1 => if d.digits % 10 = 0 && d.digits != 0 then
      Digits.strip ⟨d.digits / 10, d.exponent + 1⟩ n else d

/-- The shortest decimal that reads back as the value. -/
def Binary.shortest (v : Binary) : Digits :=
  if v.mantissa = 0 then ⟨0, 0⟩
  else
    let found := (List.range 17).findSome? fun i => v.onGrid (i + 1)
    (found.getD ⟨v.floorOn (v.magnitude - 17), v.magnitude - 17⟩).strip 20

/-! ## Text

A document's numbers are written positionally from `10^-5` up to, but not
including, `10^16`, always with a point, and with a bare exponent outside that
range. -/

/-- The decimal text of a natural number. -/
def natText (n : Nat) : String := String.ofList (Nat.toDigits 10 n)

/-- The text of the magnitude of a finite double. -/
def magnitudeText (v : Binary) : String :=
  let d := v.shortest
  let ds := Nat.toDigits 10 d.digits
  let len := ds.length
  let point := (len : Int) + d.exponent
  if d.digits = 0 then "0.0"
  else if 0 ≤ d.exponent && point ≤ 16 then
    String.ofList (ds ++ List.replicate d.exponent.toNat '0' ++ ['.', '0'])
  else if 0 < point && point ≤ 16 then
    String.ofList (ds.take point.toNat ++ '.' :: ds.drop point.toNat)
  else if -5 < point && point ≤ 0 then
    String.ofList ('0' :: '.' :: List.replicate (-point).toNat '0' ++ ds)
  else
    let mark := if point - 1 < 0 then "e-" else "e"
    let head := match ds with
      | [] => ""
      | [c] => String.ofList [c]
      | c :: cs => String.ofList (c :: '.' :: cs)
    head ++ mark ++ natText (point - 1).natAbs

/-- The text of a double: `NaN`, `inf`, `-inf`, or the shortest decimal. -/
def text (x : Float) : String :=
  let bits := x.toBits
  let sign := if bits.toNat / Word.count 63 = 1 then "-" else ""
  if x.isNaN then "NaN"
  else if x.isInf then sign ++ "inf"
  else sign ++ magnitudeText (Binary.ofBits bits)

/-- The text of a double without an exponent, as messages write it. -/
def positionalText (x : Float) : String :=
  let bits := x.toBits
  let sign := if bits.toNat / Word.count 63 = 1 then "-" else ""
  if x.isNaN then "NaN"
  else if x.isInf then sign ++ "inf"
  else
    let d := (Binary.ofBits bits).shortest
    let ds := Nat.toDigits 10 d.digits
    let point := (ds.length : Int) + d.exponent
    sign ++ String.ofList (
      if d.digits = 0 then ['0', '.', '0']
      else if 0 ≤ d.exponent then ds ++ List.replicate d.exponent.toNat '0' ++ ['.', '0']
      else if 0 < point then ds.take point.toNat ++ '.' :: ds.drop point.toNat
      else '0' :: '.' :: List.replicate (-point).toNat '0' ++ ds)

end PatternAudit.Decimal
