/-
Whether a pattern is a regular expression of JavaScript, read without flags and
with the extensions for browsers.

The names of all groups are collected first, because a backreference may come
before its group and `\k` is an ordinary escape in a pattern without names. Then
the pattern is read once from left to right. Nothing but the open groups has to be
remembered, and of each only whether it may be quantified once it is closed: a
look-behind may not, every other group may.
-/
import PatternAudit.Dialect.Ecma.Class
import PatternAudit.Dialect.Verdict

set_option autoImplicit false

namespace PatternAudit.Ecma

/-! ## Names -/

/-- What follows a class when only its end is looked for. -/
def afterClass : List Char → List Char
  | [] => []
  | '\\' :: _ :: cs => afterClass cs
  | ']' :: cs => cs
  | _ :: cs => afterClass cs

/-- The names of the groups, which must differ. The fuel bounds the number of
characters. -/
def groupNames : Nat → List String → List Char → Except Refusal (List String)
  | 0, names, _ => .ok names
  | _ + 1, names, [] => .ok names
  | fuel + 1, names, '\\' :: cs => groupNames fuel names (cs.drop 1)
  | fuel + 1, names, '[' :: cs => groupNames fuel names (afterClass cs)
  | fuel + 1, names, '(' :: '?' :: cs =>
    match groupName? cs with
    | some (name, rest) =>
      if name ∈ names then .error .duplicateGroupName else groupNames fuel (name :: names) rest
    | none => groupNames fuel names cs
  | fuel + 1, names, _ :: cs => groupNames fuel names cs

/-! ## Quantifiers -/

/-- A quantifier may be followed by `?`. -/
def skipLazy : List Char → List Char
  | '?' :: cs => cs
  | cs => cs

/-- Takes the quantifier after a term, if there is one. -/
def skipQuantifier (allowed : Bool) (cs : List Char) : Except Refusal (List Char) :=
  let simple (rest : List Char) : Except Refusal (List Char) :=
    if allowed then .ok (skipLazy rest) else .error .quantifierNotAllowed
  match cs with
  | '*' :: rest => simple rest
  | '+' :: rest => simple rest
  | '?' :: rest => simple rest
  | '\x7b' :: rest =>
    match count? rest with
    | none => .ok cs
    | some (count, rest) =>
      if !allowed then .error .quantifierNotAllowed
      else if count.max.any (· < count.min) then .error .invalidQuantifier
      else .ok (skipLazy rest)
  | _ => .ok cs

/-! ## Groups -/

/-- The modifiers of a group up to their colon: each of `i`, `m` and `s` at most once,
at most one dash, and at least one letter. -/
def skipModifiers : List Char → Bool → List Char → Except Refusal (List Char)
  | seen, dashed, c :: cs =>
    if c = ':' then if seen.isEmpty then .error .invalidModifier else .ok cs
    else if c = '-' && !dashed then skipModifiers seen true cs
    else if c ∈ ['i', 'm', 's'] && !(c ∈ seen) then skipModifiers (c :: seen) dashed cs
    else .error .invalidModifier
  | _, _, [] => .error .invalidModifier

/-- What follows the opening of a group, from right after its parenthesis, and whether
the group may be quantified. -/
def openGroup : List Char → Except Refusal (Bool × List Char)
  | '?' :: '=' :: cs => .ok (true, cs)
  | '?' :: '!' :: cs => .ok (true, cs)
  | '?' :: '<' :: '=' :: cs => .ok (false, cs)
  | '?' :: '<' :: '!' :: cs => .ok (false, cs)
  | '?' :: ':' :: cs => .ok (true, cs)
  | ['?'] => .error .invalidGroupName
  | '?' :: '<' :: cs =>
    match groupName? ('<' :: cs) with
    | some (_, rest) => .ok (true, rest)
    | none => .error .invalidGroupName
  | '?' :: cs => (skipModifiers [] false cs).map fun rest => (true, rest)
  | cs => .ok (true, cs)

/-! ## Patterns -/

/-- What follows an escape outside a class, from right after its backslash. -/
def skipEscape (names : List String) : List Char → Except Refusal (List Char)
  | [] => .error .incompleteEscape
  | 'k' :: cs =>
    if names.isEmpty then .ok cs
    else match groupName? cs with
      | none => .error .unfinishedReference
      | some (name, rest) => if name ∈ names then .ok rest else .error (.unknownGroupName name)
  | c :: cs =>
    if c = 'c' || Text.isDigit c then .ok cs else .ok (escaped c cs).2

/-- Reads the rest of a pattern. `opened` says of each open group, the innermost first,
whether it may be quantified. The fuel bounds the number of terms. -/
def refusalFrom (names : List String) : Nat → List Bool → List Char → Option Refusal
  | 0, _, _ => none
  | _ + 1, opened, [] => if opened.isEmpty then none else some .unbalancedParenthesis
  | fuel + 1, opened, c :: cs =>
    let go (opened : List Bool) (rest : Except Refusal (List Char)) : Option Refusal :=
      match rest with
      | .error e => some e
      | .ok rest => refusalFrom names fuel opened rest
    match c with
    | '|' => refusalFrom names fuel opened cs
    | ')' =>
      match opened with
      | [] => some .unbalancedParenthesis
      | q :: opened => go opened (skipQuantifier q cs)
    | '(' =>
      match openGroup cs with
      | .error e => some e
      | .ok (q, rest) => refusalFrom names fuel (q :: opened) rest
    | '^' => go opened (skipQuantifier false cs)
    | '$' => go opened (skipQuantifier false cs)
    | '*' => some .invalidAtom
    | '+' => some .invalidAtom
    | '?' => some .invalidAtom
    | '\x7b' =>
      if (count? cs).isSome then some .invalidBraces else go opened (skipQuantifier true cs)
    | '[' => go opened ((skipClass cs).bind (skipQuantifier true))
    | '\\' => go opened ((skipEscape names cs).bind (skipQuantifier true))
    | _ => go opened (skipQuantifier true cs)

/-- Why a pattern is refused, if it is. -/
def refusal? (pattern : String) : Option Refusal :=
  let cs := pattern.toList
  match groupNames (cs.length + 1) [] cs with
  | .error e => some e
  | .ok names => refusalFrom names (cs.length + 1) [] cs

/-- Checks a pattern. Refusals carry no index. -/
def check : Engine := fun pattern =>
  match refusal? pattern with
  | none => .accepted
  | some e => .rejected e.message none

end PatternAudit.Ecma
