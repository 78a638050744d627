/-
What a pattern asks for before it can match.

A pattern without backtracking is handed to the automaton engine as a whole. In any
other, each longest run of parts without backtracking is handed over, unless it is
plain text. A look-behind has to know how far to look, so it must be of fixed length;
alternatives in it are looked for one by one.
-/
import PatternAudit.Dialect.Pcre.Node
import PatternAudit.Dialect.Pcre.Refusal
import PatternAudit.Dialect.Re2.Check

set_option autoImplicit false

namespace PatternAudit.Pcre

/-! ## The text of a part -/

/-- A character as the automaton engine reads it. -/
def quotedChar (c : Char) : List Char :=
  if c ∈ "\\.+*?()|[]\x7b\x7d^$#".toList then ['\\', c] else [c]

/-- A text under the flag `i`, if asked for. -/
def inGroup (lead : String) (wanted : Bool) (text : List Char) : List Char :=
  if wanted then lead.toList ++ text ++ [')'] else text

/-- The bounds of a repetition. -/
def boundsText (min : Nat) : Option Nat → List Char
  | some max =>
    if min = 0 && max = 1 then ['?']
    else if min = max then ('\x7b' :: (toString min).toList) ++ ['\x7d']
    else ('\x7b' :: (toString min).toList) ++ ',' :: (toString max).toList ++ ['\x7d']
  | none =>
    if min = 0 then ['*']
    else if min = 1 then ['+']
    else ('\x7b' :: (toString min).toList) ++ [',', '\x7d']

mutual

/-- The text of a pattern without backtracking. `binding` says what it stands in: 0 for
a group, 1 for alternatives or parts that follow one another, 2 for a concatenation, 3 for
a repetition. -/
def Node.text (binding : Nat) : Node → List Char
  | .any acrossLines => if acrossLines then "(?s:.)".toList else ['.']
  | .place .textStart => ['^']
  | .place .textEnd => ['$']
  | .place .lineStart => "(?m:^)".toList
  | .place .lineEnd => "(?m:$)".toList
  | .literal c ignoreCase => inGroup "(?i:" ignoreCase (quotedChar c)
  | .part text ignoreCase => inGroup "(?i:" ignoreCase text
  | .concat parts => inGroup "(?:" (1 < binding) (concatText parts)
  | .alternation branches => inGroup "(?:" (0 < binding) (branchesText branches)
  | .group _ n => '(' :: n.text 0 ++ [')']
  | .repetition min max greedy n =>
    inGroup "(?:" (2 < binding)
      (n.text 3 ++ boundsText min max ++ (if greedy then [] else ['?']))
  | _ => []

/-- The text of parts side by side. -/
def concatText : List Node → List Char
  | [] => []
  | n :: rest => n.text 2 ++ concatText rest

/-- The text of alternatives. -/
def branchesText : List Node → List Char
  | [] => []
  | [n] => n.text 1
  | n :: rest => n.text 1 ++ '|' :: branchesText rest

end

/-! ## Demands -/

/-- What has to hold of a pattern. -/
inductive Demand where
  /-- the automaton engine takes the text -/
  | handOver (text : List Char)
  /-- a look-behind has a fixed length -/
  | fixedLength (holds : Bool)

/-- Parts without backtracking that follow one another. -/
def handOver (parts : List Node) : List Demand :=
  if parts.all Node.isText then []
  else [.handOver ('^' :: parts.flatMap (Node.text 1))]

/-- Cuts parts into the front and the back that can be handed over, and what is
between. The front is of fixed length; the back is too where `strict` asks for it. -/
def cutParts (referred : List Nat) (strict : Bool) (parts : List Node) :
    List Node × List Node × List Node :=
  let easy (n : Node) : Bool := !n.needsBacktracking referred
  let front := parts.takeWhile fun n => n.hasFixedLength && easy n
  let rest := parts.drop front.length
  let back := (rest.reverse.takeWhile fun n => easy n && (!strict || n.hasFixedLength)).reverse
  (front, rest.take (rest.length - back.length), back)

/-- The branches of a look-behind that are looked for one by one. -/
def lookedFor (behind : Bool) (n : Node) : List Node :=
  match n with
  | .alternation branches => if behind && !n.hasFixedLength then branches else [n]
  | n => [n]

/-- What a pattern demands. `strict` says that backtracking may come back into it. The
fuel bounds how deep the pattern nests. -/
def demands (referred : List Nat) : Nat → Bool → Node → List Demand
  | 0, _, _ => []
  | fuel + 1, strict, n =>
    if !strict && !n.needsBacktracking referred then handOver [n]
    else match n with
    | .literal _ ignoreCase => if ignoreCase then handOver [n] else []
    | .part _ _ => handOver [n]
    | .concat parts =>
      let (front, middle, back) := cutParts referred strict parts
      handOver front ++ middle.flatMap (demands referred fuel true) ++ handOver back
    | .alternation branches => branches.flatMap (demands referred fuel strict)
    | .group _ n => demands referred fuel strict n
    | .repetition min max _ sub =>
      let once := min = 0 && max = some 1
      demands referred fuel (strict || (!once && n.needsBacktracking referred)) sub
    | .look behind sub =>
      (lookedFor behind sub).flatMap fun m =>
        (if behind then [.fixedLength m.hasFixedLength] else []) ++ demands referred fuel false m
    | .atomic sub => demands referred fuel false sub
    | .conditional c y n =>
      demands referred fuel strict c ++ demands referred fuel strict y
        ++ demands referred fuel strict n
    | _ => []

/-! ## Obstacles -/

/-- Why a demand is not met, if it is not. -/
def Demand.obstacle? : Demand → Option Obstacle
  | .fixedLength holds => if holds then none else some .lookBehindLength
  | .handOver text =>
    match Re2.Shape.ofPattern (String.ofList text) with
    | .error _ => some .unreadablePart
    | .ok s => if s.fits then none else some .partTooLarge

/-- The first obstacle of a pattern. -/
def Node.obstacle? (referred : List Nat) (depth : Nat) (n : Node) : Option Obstacle :=
  let ds :=
    if n.needsBacktracking referred then demands referred depth false n
    else [.handOver (n.text 0)]
  ds.findSome? Demand.obstacle?

end PatternAudit.Pcre
