/-
Patterns of a backtracking engine.

What an automaton engine can match as it stands is kept as text: a class, a set, or
a property is one `part`. The rest of the tree says what backtracking is needed for.
-/

set_option autoImplicit false

namespace PatternAudit.Pcre

/-- The places that an assertion without operand asks for. -/
inductive Place where
  | textStart
  | textEnd
  | lineStart
  | lineEnd
  /-- an edge of a word, or no edge of a word -/
  | wordEdge
  deriving DecidableEq

/-- A pattern. A repetition without upper bound has none for `max`. -/
inductive Node where
  | empty
  | any (acrossLines : Bool)
  | place (p : Place)
  | literal (c : Char) (ignoreCase : Bool)
  /-- one character, as the automaton engine is told about it -/
  | part (text : List Char) (ignoreCase : Bool)
  | concat (parts : List Node)
  | alternation (branches : List Node)
  | group (number : Nat) (node : Node)
  | look (behind : Bool) (node : Node)
  | repetition (min : Nat) (max : Option Nat) (greedy : Bool) (node : Node)
  | reference (group : Nat)
  | atomic (node : Node)
  /-- where the match is made to begin, or the last one ended -/
  | matchEdge
  | groupSet (group : Nat)
  | conditional (condition yes no : Node)

namespace Node

/-- Whether nothing is matched, and nothing written. -/
def isEmpty : Node → Bool
  | empty => true
  | _ => false

/-- Whether a quantifier may follow. -/
def isRepeatable : Node → Bool
  | empty => false
  | look _ _ => false
  | place _ => false
  | _ => true

/-- Parts side by side. -/
def ofParts : List Node → Node
  | [] => empty
  | [n] => n
  | parts => concat parts

/-! ## Lengths -/

mutual

/-- The least number of characters that the pattern matches. -/
def minLength : Node → Nat
  | empty => 0
  | any _ => 1
  | place _ => 0
  | literal _ _ => 1
  | part _ _ => 1
  | concat parts => totalLength parts
  | alternation branches => leastLength branches
  | group _ n => n.minLength
  | look _ _ => 0
  | repetition min _ _ n => n.minLength * min
  | reference _ => 0
  | atomic n => n.minLength
  | matchEdge => 0
  | groupSet _ => 0
  | conditional c y n => c.minLength + Nat.min y.minLength n.minLength

/-- The sum of the least lengths. -/
def totalLength : List Node → Nat
  | [] => 0
  | n :: rest => n.minLength + totalLength rest

/-- The smallest of the least lengths. -/
def leastLength : List Node → Nat
  | [] => 0
  | [n] => n.minLength
  | n :: rest => Nat.min n.minLength (leastLength rest)

end

mutual

/-- Whether all texts that the pattern matches have the same length, as far as the
pattern shows. -/
def hasFixedLength : Node → Bool
  | empty => true
  | any _ => true
  | place _ => true
  | literal _ _ => true
  | part _ _ => true
  | concat parts => allFixed parts
  | alternation branches => allFixed branches && allOfLength (leastLength branches) branches
  | group _ n => n.hasFixedLength
  | look _ _ => true
  | repetition min max _ n => n.hasFixedLength && max = some min
  | reference _ => false
  | atomic n => n.hasFixedLength
  | matchEdge => true
  | groupSet _ => true
  | conditional c y n =>
    c.hasFixedLength && y.hasFixedLength && n.hasFixedLength
      && c.minLength + y.minLength = n.minLength

/-- Whether that holds of all patterns. -/
def allFixed : List Node → Bool
  | [] => true
  | n :: rest => n.hasFixedLength && allFixed rest

/-- Whether all patterns have the given least length. -/
def allOfLength (len : Nat) : List Node → Bool
  | [] => true
  | n :: rest => n.minLength = len && allOfLength len rest

end

/-! ## Backtracking -/

mutual

/-- Whether a pattern needs backtracking. A group does also when something refers to
it; `referred` holds the numbers of those groups. -/
def needsBacktracking (referred : List Nat) : Node → Bool
  | empty => false
  | any _ => false
  | place p => p = .wordEdge
  | literal _ _ => false
  | part _ _ => false
  | concat parts => oneNeedsBacktracking referred parts
  | alternation branches => oneNeedsBacktracking referred branches
  | group number n => number ∈ referred || n.needsBacktracking referred
  | look _ _ => true
  | repetition _ _ _ n => n.needsBacktracking referred
  | reference _ => true
  | atomic _ => true
  | matchEdge => true
  | groupSet _ => true
  | conditional _ _ _ => true

/-- Whether one of the patterns does. -/
def oneNeedsBacktracking (referred : List Nat) : List Node → Bool
  | [] => false
  | n :: rest => n.needsBacktracking referred || oneNeedsBacktracking referred rest

end

mutual

/-- Whether a pattern is plain text. -/
def isText : Node → Bool
  | literal _ ignoreCase => !ignoreCase
  | concat parts => allText parts
  | _ => false

/-- Whether all patterns are. -/
def allText : List Node → Bool
  | [] => true
  | n :: rest => n.isText && allText rest

end

end Node

end PatternAudit.Pcre
