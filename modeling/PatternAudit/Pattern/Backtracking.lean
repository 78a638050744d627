/-
Groups that are repeated and repeat something inside, such as `(a+)+`.

A backtracking engine can take exponential time on them. The test reads the
structure of the pattern only: it finds a group followed by `*` or `+` that
holds an unbounded repetition at any depth. Look-around and atomic groups are
never the repeated group, but what they hold counts for the group around them.
-/

set_option autoImplicit false

namespace PatternAudit.Pattern

/-- An open group. -/
structure Frame where
  /-- look-around or atomic -/
  assertion : Bool
  /-- whether a repetition was met inside -/
  repeats : Bool
  deriving DecidableEq

/-- Skips the rest of a class, given what follows the `]` that may stand for itself. -/
def skipClassBody : List Char → List Char
  | [] => []
  | c :: cs =>
    if c = '\\' then
      match cs with
      | [] => []
      | _ :: rest => skipClassBody rest
    else if c = ']' then cs
    else skipClassBody cs

/-- Drops a character from the front, if it is there. -/
def dropOne (x : Char) : List Char → List Char
  | [] => []
  | c :: cs => if c = x then cs else c :: cs

/-- Skips the rest of a class, from after its `[`. -/
def skipClass (cs : List Char) : List Char := skipClassBody (dropOne ']' (dropOne '^' cs))

theorem skipClassBody_length (cs : List Char) : (skipClassBody cs).length ≤ cs.length := by
  fun_induction skipClassBody cs <;> simp_all <;> omega

theorem dropOne_length (x : Char) (cs : List Char) : (dropOne x cs).length ≤ cs.length := by
  unfold dropOne
  split
  · simp
  · split <;> simp

theorem skipClass_length (cs : List Char) : (skipClass cs).length ≤ cs.length :=
  Nat.le_trans (skipClassBody_length _) (Nat.le_trans (dropOne_length _ _) (dropOne_length _ _))

/-- Whether what follows the `(` of a group makes it look-around or atomic. -/
def isAssertion : List Char → Bool
  | '?' :: '=' :: _ => true
  | '?' :: '!' :: _ => true
  | '?' :: '>' :: _ => true
  | '?' :: '<' :: '=' :: _ => true
  | '?' :: '<' :: '!' :: _ => true
  | _ => false

/-- Whether all characters are digits. -/
def allDigits (cs : List Char) : Bool := cs.all fun c => '0' ≤ c && c ≤ '9'

/-- Whether an upper bound, as it is written, allows more than one round. An absent one
does, and so does one that 32 bits cannot hold. -/
def allowsMany (digits : List Char) : Bool :=
  digits.isEmpty || 1 < digits.foldl (fun n c => n * 10 + (c.toNat - '0'.toNat)) 0

/-- Whether a counted repetition, from after its `{`, has a lower bound, a comma, and no
upper bound or one above one. -/
def countsMany (cs : List Char) : Bool :=
  let inside := cs.takeWhile (· ≠ '}')
  match inside.dropWhile (· ≠ ',') with
  | [] => false
  | _ :: most =>
    let least := inside.takeWhile (· ≠ ',')
    !least.isEmpty && allDigits least && allDigits most && allowsMany most

/-- Whether a pattern goes on with a repetition that is not bounded by one. -/
def startsRepetition : List Char → Bool
  | '*' :: _ => true
  | '+' :: _ => true
  | '{' :: cs => countsMany cs
  | _ => false

/-- Whether a pattern goes on with `*` or `+`. -/
def startsStarOrPlus : List Char → Bool
  | '*' :: _ => true
  | '+' :: _ => true
  | _ => false

/-- Notes a repetition in the innermost group. -/
def noteRepetition : List Frame → List Frame
  | g :: rest => { g with repeats := true } :: rest
  | [] => []

/-- Looks for a repeated group that repeats, with the open groups at hand. -/
def riskFrom (stack : List Frame) (cs : List Char) : Bool :=
  match cs with
  | [] => false
  | c :: rest =>
    if c = '\\' then riskFrom stack (rest.drop 1)
    else if c = '[' then riskFrom stack (skipClass rest)
    else if c = '(' then riskFrom (⟨isAssertion rest, false⟩ :: stack) rest
    else if c = ')' then
      match stack with
      | [] => riskFrom [] rest
      | g :: outer =>
        if startsStarOrPlus rest && g.repeats && !g.assertion then true
        else riskFrom (if g.repeats || startsRepetition rest then noteRepetition outer else outer) rest
    else riskFrom (if startsRepetition (c :: rest) then noteRepetition stack else stack) rest
termination_by cs.length
decreasing_by
  all_goals simp only [List.length_cons, List.length_drop]
  all_goals try omega
  have := skipClass_length rest
  omega

/-- Whether a pattern has a repeated group that repeats something inside. -/
def hasBacktrackingRisk (pattern : String) : Bool := riskFrom [] pattern.toList

end PatternAudit.Pattern
