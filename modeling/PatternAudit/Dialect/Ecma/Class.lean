/-
Character classes of JavaScript.

A member is one code point or an escape for a set such as `\d`. A dash between two
code points makes a range, whose ends must be in order; a dash next to a set, or
next to the closing bracket, stands for itself.
-/
import PatternAudit.Dialect.Ecma.Lexeme
import PatternAudit.Dialect.Ecma.Refusal

set_option autoImplicit false

namespace PatternAudit.Ecma

/-- A member of a class. -/
inductive Member where
  | point (n : Nat)
  | set

/-- The member after a backslash. -/
def escapedMember (c : Char) (cs : List Char) : Member × List Char :=
  if c ∈ ['d', 'D', 's', 'S', 'w', 'W'] then (.set, cs)
  else if c = 'b' then (.point 0x08, cs)
  else if c = 'c' then
    match cs with
    | d :: rest =>
      if Text.isLetterAscii d || Text.isDigit d || d = '_' then (.point (d.toNat % 32), rest)
      else (.point '\\'.toNat, c :: cs)
    | [] => (.point '\\'.toNat, c :: cs)
  else
    let (n, rest) := escaped c cs
    (.point n, rest)

/-- The next member of a class, if the class goes on. -/
def member? : List Char → Except Refusal (Option (Member × List Char))
  | [] => .ok none
  | ']' :: _ => .ok none
  | ['\\'] => .error .unterminatedEscape
  | '\\' :: c :: cs => .ok (some (escapedMember c cs))
  | c :: cs => .ok (some (.point c.toNat, cs))

/-- What follows a class, from inside it. The fuel bounds the number of members. -/
def classRest : Nat → List Char → Except Refusal (List Char)
  | 0, _ => .error .unbalancedBracket
  | _ + 1, [] => .error .unbalancedBracket
  | _ + 1, ']' :: cs => .ok cs
  | fuel + 1, cs =>
    match member? cs with
    | .error e => .error e
    | .ok none => .error .unbalancedBracket
    | .ok (some (low, rest)) =>
      match rest with
      | '-' :: rest =>
        match member? rest with
        | .error e => .error e
        | .ok none => classRest fuel rest
        | .ok (some (high, rest)) =>
          match low, high with
          | .point a, .point b =>
            if b < a then .error .reversedRange else classRest fuel rest
          | _, _ => classRest fuel rest
      | _ => classRest fuel rest

/-- What follows a class, from right after its opening bracket. -/
def skipClass : List Char → Except Refusal (List Char)
  | '^' :: cs => classRest (cs.length + 1) cs
  | cs => classRest (cs.length + 1) cs

end PatternAudit.Ecma
