/-
Reading a pattern into its tree.

Open groups are kept on a list, the innermost first. Each knows what will become of
what it holds once it is closed; a conditional is open twice, first for its condition
and then for its branches.
-/
import PatternAudit.Dialect.Pcre.Class

set_option autoImplicit false

namespace PatternAudit.Pcre

/-! ## What was read -/

/-- What was read of a group: its finished branches and the parts of the one that is
being read, both backwards. -/
structure Branches where
  finished : List Node
  parts : List Node

namespace Branches

/-- Nothing was read. -/
def start : Branches := ⟨[], []⟩

/-- Adds a part, unless it is empty. -/
def push (b : Branches) (n : Node) : Branches :=
  if n.isEmpty then b else { b with parts := n :: b.parts }

/-- The branch that is being read. -/
def branch (b : Branches) : Node := Node.ofParts b.parts.reverse

/-- Begins another branch. -/
def split (b : Branches) : Branches := ⟨b.branch :: b.finished, []⟩

/-- All that was read. -/
def toNode (b : Branches) : Node :=
  if b.finished.isEmpty then b.branch else .alternation (b.branch :: b.finished).reverse

end Branches

/-- What a group is for. -/
inductive Purpose where
  | group (number : Nat)
  | look (behind : Bool)
  | atomic
  /-- flags, which end with the group -/
  | flags (outer : Flags)
  | condition
  /-- the branches of a conditional, which begin at `start` -/
  | branches (condition : Node) (start : Nat)

/-- A group that is open, and what was read before it. -/
structure OpenGroup where
  purpose : Purpose
  before : Branches

/-! ## Quantifiers -/

/-- The bounds of a counted quantifier and the state behind its closing brace, from its
opening brace. What does not read as a count is no quantifier. -/
def counted? (s : State) : Option ((Nat × Option Nat) × State) := do
  let bounded (n : Nat) : Option Nat := if n + 1 = numberLimit then none else some n
  let s ← (s.skip 1).skipGap.toOption
  let (low, s) ←
    if s.starts ',' then some (0, s)
    else (decimal? s.rest).map fun (n, len) => (n, s.skip len)
  let s ← s.skipGap.toOption
  let (high, s) ←
    (if s.starts ',' then do
      let s ← (s.skip 1).skipGap.toOption
      match decimal? s.rest with
      | some (n, len) => some (bounded n, s.skip len)
      | none => some (none, s)
    else some (bounded low, s) : Option (Option Nat × State))
  let s ← s.skipGap.toOption
  if s.starts '\x7d' then some ((low, high), s.skip 1) else none

/-- The bounds of the quantifier that is next, if one is, and the state behind it. -/
def quantifier? (s : State) : Option ((Nat × Option Nat) × State) :=
  match s.rest with
  | '?' :: _ => some ((0, some 1), s.skip 1)
  | '*' :: _ => some ((0, none), s.skip 1)
  | '+' :: _ => some ((1, none), s.skip 1)
  | '\x7b' :: _ => counted? s
  | _ => none

/-- A node with the quantifier behind it, if there is one: it may be followed by `?`,
and then by `+`, which makes the repetition atomic. -/
def quantified (n : Node) (s : State) : Reading (Node × State) := do
  let s ← s.skipGap
  match quantifier? s with
  | none => .ok (n, s)
  | some ((min, max), s) =>
    if !n.isRepeatable then refuse .notRepeatable (s.index - 1)
    else
      let s ← s.skipGap
      let (greedy, s) := if s.starts '?' then (false, s.skip 1) else (true, s)
      let n := Node.repetition min max greedy n
      if s.starts '+' then .ok (.atomic n, s.skip 1) else .ok (n, s)

/-! ## Openings -/

/-- What a parenthesis gives: a group to be read, or a node that is complete. -/
inductive Opening where
  | opened (p : Purpose)
  | node (n : Node)

/-- Reads the flags of a group. `start` is where they begin and `text` holds them so
far, backwards; `off` says that flags are being switched off, `outer` holds the flags
around the group. The fuel bounds the number of flags. -/
def flagGroup (outer : Flags) (start : Nat) : Nat → List Char → Bool → State →
    Reading (Opening × State)
  | 0, _, _, s => refuse .unclosedParenthesis s.index
  | fuel + 1, text, off, s => do
    let gap ← s.skipGap
    let text := (s.rest.take (s.rest.length - gap.rest.length)).reverse ++ text
    let s := gap
    match s.rest with
    | [] => refuse .unclosedParenthesis s.index
    | c :: _ =>
      let text := c :: text
      let unknown : Reading (Opening × State) :=
        refuse (.unknownFlag (String.ofList text.reverse)) start
      let go (f : Flags) : Reading (Opening × State) :=
        flagGroup outer start fuel text off { s.skip 1 with flags := f }
      let blank := off && s.index = start + 1
      match c with
      | 'i' => go { s.flags with ignoreCase := !off }
      | 'm' => go { s.flags with multiLine := !off }
      | 's' => go { s.flags with dotAll := !off }
      | 'x' => go { s.flags with verbose := !off }
      | 'U' => go s.flags
      | 'u' => if off then refuse .unicodeOff s.index else go s.flags
      | '-' => if off then unknown else flagGroup outer start fuel text true (s.skip 1)
      | ')' => if s.index = start || blank then unknown else .ok (.node .empty, s.skip 1)
      | ':' => if blank then unknown else .ok (.opened (.flags outer), s.skip 1)
      | _ => unknown

/-- Moves over the closing parenthesis that must be next. -/
def closing (s : State) : Reading State :=
  match s.rest with
  | [] => refuse .unclosedParenthesis s.index
  | ')' :: _ => .ok (s.skip 1)
  | _ => refuse (.general "expected close paren") s.index

/-- A conditional, from behind the parenthesis of its condition. -/
def conditional (s : State) : Reading (Opening × State) :=
  let referenceTo (r : Reading (Nat × State)) : Reading (Opening × State) := do
    let (group, s) ← r
    let s ← closing s
    .ok (.opened (.branches (.groupSet group) s.index), s)
  match s.rest with
  | [] => refuse .unclosedParenthesis s.index
  | c :: _ =>
    if c = '\'' then referenceTo (namedReference s ['\''] ['\''] true)
    else if c = '<' then referenceTo (namedReference s ['<'] ['>'] true)
    else if Text.isDigit c then referenceTo (numberedReference s)
    else .ok (.opened .condition, s)

/-- A group with a name. `s` stands before the name's delimiter, `start` is where the
refusal of a bad name points. -/
def namedGroup (s : State) (start : Nat) : Reading (Opening × State) :=
  match name? ['<'] ['>'] false s.rest with
  | none => refuse .invalidGroupName start
  | some (name, len) =>
    let s := s.openNamed name
    .ok (.opened (.group s.groups), s.skip len)

/-- What a parenthesis opens, from that parenthesis. -/
def opening (s : State) : Reading (Opening × State) := do
  let s ← (s.skip 1).skipGap
  match s.rest with
  | '?' :: '=' :: _ => .ok (.opened (.look false), s.skip 2)
  | '?' :: '!' :: _ => .ok (.opened (.look false), s.skip 2)
  | '?' :: '<' :: '=' :: _ => .ok (.opened (.look true), s.skip 3)
  | '?' :: '<' :: '!' :: _ => .ok (.opened (.look true), s.skip 3)
  | '?' :: '<' :: _ => namedGroup (s.skip 1) s.index
  | '?' :: 'P' :: '<' :: _ => namedGroup (s.skip 2) s.index
  | '?' :: 'P' :: '=' :: _ =>
    (namedReference (s.skip 3) [] [')'] false).map fun (group, s) => (.node (.reference group), s)
  | '?' :: '>' :: _ => .ok (.opened .atomic, s.skip 2)
  | '?' :: '(' :: _ => conditional (s.skip 2)
  | '?' :: _ => flagGroup s.flags (s.index + 1) (s.rest.length + 1) [] false (s.skip 1)
  | _ =>
    let s := s.openGroup
    .ok (.opened (.group s.groups), s)

/-! ## Closings -/

/-- The branches of a conditional: the first is for the condition that holds, the
others for the one that does not. -/
def conditionalNode (condition body : Node) : Node :=
  let (yes, no) :=
    match body with
    | .alternation (yes :: [no]) => (yes, no)
    | .alternation (yes :: rest) => (yes, .alternation rest)
    | n => (n, .empty)
  if yes.isEmpty && no.isEmpty then condition else .conditional condition yes no

/-- A group that is referred to, as a condition: whether the group was set. -/
def asCondition : Node → Node
  | .reference group => .groupSet group
  | n => n

/-- The complaint about a conditional without branches. -/
def emptyConditional : String :=
  "expected conditional to be a backreference or at least an expression for when the condition is true"

/-- References by number do not go together with names. Patterns with alternatives are
not held to it. -/
def numberingAllowed (b : Branches) (s : State) : Reading Unit :=
  if b.finished.isEmpty && s.numbered && !s.names.isEmpty then
    .error (.prepare .numberedReference)
  else .ok ()

/-- What becomes of a group that is closed; `s` stands at the parenthesis. -/
def closed (p : Purpose) (body : Node) (s : State) : Reading (Node × State) :=
  let after := s.skip 1
  match p with
  | .group number => .ok (.group number body, after)
  | .look behind => .ok (.look behind body, after)
  | .atomic => .ok (.atomic body, after)
  | .flags outer => .ok (body, { after with flags := outer })
  | .condition => .ok (body, after)
  | .branches condition start =>
    if s.index = start then
      match condition with
      | .groupSet group => .ok (.groupSet group, after)
      | _ => refuse (.general emptyConditional) s.index
    else .ok (conditionalNode condition body, after)

/-! ## Patterns -/

/-- A token that is no parenthesis and no quantifier, which is there. -/
def atom (s : State) : Reading (Node × State) :=
  match s.rest with
  | '.' :: _ => .ok (.any s.flags.dotAll, s.skip 1)
  | '^' :: _ => .ok (.place (if s.flags.multiLine then .lineStart else .textStart), s.skip 1)
  | '$' :: _ => .ok (.place (if s.flags.multiLine then .lineEnd else .textEnd), s.skip 1)
  | '\\' :: _ =>
    (escape s).map fun (n, after) =>
      match n with
      | .reference group => (n, { after with referred := group :: after.referred })
      | _ => (n, after)
  | '[' :: _ => bracketClass s
  | c :: _ => .ok (s.literal c, s.skip 1)
  | [] => .ok (.empty, s)

/-- How deep groups may nest. -/
def nestLimit : Nat := 64

/-- Reads the rest of a pattern. The fuel bounds the number of tokens. -/
def nodeFrom : Nat → List OpenGroup → Branches → State → Reading (Node × State)
  | 0, _, b, s => .ok (b.toNode, s)
  | fuel + 1, opened, b, s =>
    match s.skipGap with
    | .error e => .error e
    | .ok s =>
      let push (r : Reading (Node × State)) : Reading (Node × State) :=
        match (r.bind fun (n, s) => quantified n s) with
        | .error e => .error e
        | .ok (n, s) => nodeFrom fuel opened (b.push n) s
      match s.rest with
      | [] =>
        match numberingAllowed b s with
        | .error e => .error e
        | .ok () => if opened.isEmpty then .ok (b.toNode, s) else refuse .unclosedParenthesis s.index
      | '|' :: _ => nodeFrom fuel opened b.split (s.skip 1)
      | ')' :: _ =>
        match numberingAllowed b s with
        | .error e => .error e
        | .ok () =>
          match opened with
          | [] => refuse (.general "end of string not reached") s.index
          | g :: opened =>
            match closed g.purpose b.toNode s with
            | .error e => .error e
            | .ok (n, after) =>
              match g.purpose with
              | .condition =>
                nodeFrom fuel (⟨.branches (asCondition n) after.index, g.before⟩ :: opened)
                  Branches.start after
              | _ =>
                match quantified n after with
                | .error e => .error e
                | .ok (n, after) => nodeFrom fuel opened (g.before.push n) after
      | '(' :: _ =>
        if nestLimit ≤ opened.length + 1 then refuse .nestedTooDeep s.index
        else match opening s with
        | .error e => .error e
        | .ok (.node n, after) => push (.ok (n, after))
        | .ok (.opened p, after) => nodeFrom fuel (⟨p, b⟩ :: opened) Branches.start after
      | c :: _ =>
        if c = '?' || c = '*' || c = '+' then refuse .notRepeatable s.index
        else push (atom s)

/-- The tree of a pattern, and the groups that need their matches kept. -/
def Node.ofPattern (pattern : String) : Reading (Node × List Nat) := do
  let (n, s) ← nodeFrom (2 * pattern.length + 2) [] Branches.start (State.ofPattern pattern)
  if s.early then .error (.prepare .invalidReference) else .ok (n, s.referred)

end PatternAudit.Pcre
