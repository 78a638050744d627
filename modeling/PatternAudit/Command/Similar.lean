/-
How similar two words are.

Two characters of two words match when they are equal and not too far apart, each with at
most one other. The similarity is the mean of three shares: of the first word that
matches, of the second word, and of the matches that come in the same order. It is a
fraction, and fractions are compared without rounding.
-/

set_option autoImplicit false

namespace PatternAudit.Command

/-- A fraction; the denominator of a similarity is never 0. -/
structure Share where
  num : Nat
  den : Nat
  deriving DecidableEq, Inhabited

namespace Share

/-- Whether a fraction is at most another one. -/
def le (a b : Share) : Bool := a.num * b.den ≤ b.num * a.den

/-- Whether a fraction is more than seven tenths. -/
def isHigh (a : Share) : Bool := 7 * a.den < 10 * a.num

end Share

namespace Similar

/-- Marks the first unmarked character equal to `c` among those at the positions from
`low` up to `high`. Answers the marks, or `none` if there is none. -/
def mark (c : Char) (low high : Nat) : Nat → List (Char × Bool) → Option (List (Char × Bool))
  | _, [] => none
  | i, (d, taken) :: rest =>
    if low ≤ i && i ≤ high && c == d && !taken then some ((d, true) :: rest)
    else (mark c low high (i + 1) rest).map ((d, taken) :: ·)

/-- The characters of the first word that match, in order, and the marks on the second
word. -/
def matching (reach : Nat) : Nat → List Char → List (Char × Bool) → List Char × List (Char × Bool)
  | _, [], marks => ([], marks)
  | i, c :: cs, marks =>
    match mark c (i - reach) (i + reach) 0 marks with
    | some marks' =>
      let (matched, last) := matching reach (i + 1) cs marks'
      (c :: matched, last)
    | none => matching reach (i + 1) cs marks

/-- The similarity of two words. -/
def share (a b : List Char) : Share :=
  if a.isEmpty && b.isEmpty then ⟨1, 1⟩
  else
    let reach := max a.length b.length / 2 - 1
    let (left, marks) := matching reach 0 a (b.map (·, false))
    let right := (marks.filter Prod.snd).map Prod.fst
    let m := left.length
    let crossed := ((left.zip right).countP fun p => p.1 != p.2) / 2
    if m = 0 then ⟨0, 1⟩
    else
      ⟨m * m * b.length + m * m * a.length + (m - crossed) * (a.length * b.length),
        3 * (m * (a.length * b.length))⟩

/-- The words similar to a word, the most similar last. -/
def among (word : String) (words : List String) : List String :=
  ((words.map fun w => (share word.toList w.toList, w)).filter fun e => e.1.isHigh)
    |>.mergeSort (fun a b => a.1.le b.1)
    |>.map Prod.snd

end Similar

end PatternAudit.Command
