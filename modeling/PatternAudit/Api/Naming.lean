/-
How path templates are spelled.

Capital letters are out of place in a path, except between braces, where
parameters are named. The respelling puts a hyphen before a capital that
follows a small letter or a digit, and makes the capital small.
-/
import PatternAudit.Text.Lower

set_option autoImplicit false

namespace PatternAudit.Api

/-- Whether a template, read on from inside or outside of braces, goes on inside of them
after a character. -/
def inBraces (inside : Bool) (c : Char) : Bool :=
  if c = '{' then true else if c = '}' then false else inside

/-- Whether a template has a capital outside of braces. -/
def hasCapital : Bool → List Char → Bool
  | _, [] => false
  | inside, c :: cs =>
    (!inBraces inside c && Text.isUpper c) || hasCapital (inBraces inside c) cs

/-- Respells a template. The second flag tells whether a small letter or a digit
precedes. -/
def respell : Bool → Bool → List Char → List Char
  | _, _, [] => []
  | inside, afterSmall, c :: cs =>
    let inside := inBraces inside c
    if !inside && Text.isUpper c then
      let rest := Text.lowerAscii c :: respell inside false cs
      if afterSmall then '-' :: rest else rest
    else c :: respell inside (Text.isLower c || Text.isDigit c) cs

/-- Whether a path template has a capital outside of braces. -/
def hasCapitalSegment (template : String) : Bool := hasCapital false template.toList

/-- The template in small letters, with hyphens between words. -/
def kebabCase (template : String) : String := String.ofList (respell false false template.toList)

end PatternAudit.Api
