/-
Reading a command line.

The arguments are read from left to right. An option that wants a value waits for the next
argument that does not look like an option, and what it got is looked at when the next
option or operand begins, so the first fault on the line is the one that is reported. After
`--` everything is an operand.
-/
import PatternAudit.Command.Refusal
import PatternAudit.Command.Similar
import PatternAudit.Text.Lower
import PatternAudit.Word

set_option autoImplicit false

namespace PatternAudit.Command

/-- What has been read of a command line. -/
structure Taken where
  /-- the options with their values, in the order in which they were first given -/
  options : List (Opt × List String)
  operands : List String
  /-- an option that waits for its value, or has it and was not looked at yet -/
  pending : Option (Opt × List String)
  deriving DecidableEq, Inhabited

/-- Why reading ends before the line does. -/
inductive Stop where
  | help
  | version
  /-- nothing was given where a command is needed -/
  | bare
  | refused (r : Refusal)
  deriving DecidableEq, Inhabited

namespace Taken

/-- Nothing read. -/
def none : Taken := ⟨[], [], .none⟩

/-- The options that were given. -/
def used (t : Taken) : List Opt := t.options.map Prod.fst

/-- The values of an option. -/
def values (t : Taken) (long : String) : List String :=
  ((t.options.find? fun e => e.1.long = long).map Prod.snd).getD []

/-- Whether an option was given. -/
def has (t : Taken) (long : String) : Bool := t.options.any fun e => e.1.long = long

/-! ## Values -/

/-- Why a text is no number below `2^64`, or the number. -/
def readDigits : Nat → List Char → Except String Nat
  | n, [] => .ok n
  | n, c :: cs =>
    if !Text.isDigit c then .error "invalid digit found in string"
    else
      let n' := n * 10 + (c.toNat - '0'.toNat)
      if Word.fits 64 n' then readDigits n' cs else .error "number too large to fit in target type"

/-- Reads a number. -/
def readNumber (s : String) : Except String Nat :=
  match s.toList with
  | [] => .error "cannot parse integer from empty string"
  | ['+'] => .error "invalid digit found in string"
  | '+' :: cs => readDigits 0 cs
  | cs => readDigits 0 cs

/-- Refuses a text that is no value of an option. -/
def checkValue (o : Opt) (kind : ValueKind) (v : String) : Except Refusal Unit :=
  match kind with
  | .text | .items => .ok ()
  | .path => if v.isEmpty then .error (.noValue o) else .ok ()
  | .number =>
    match readNumber v with
    | .ok _ => .ok ()
    | .error reason => .error (.invalidValue v o reason)

/-- Adds an option, or values to one that was given before. -/
def add (t : Taken) (o : Opt) (vs : List String) : Taken :=
  if t.used.contains o then
    { t with options := t.options.map fun e => if e.1 = o then (o, e.2 ++ vs) else e }
  else { t with options := t.options ++ [(o, vs)] }

/-- Takes an option with what was given as its value. -/
def accept (t : Taken) (o : Opt) (vs : List String) : Except Refusal Taken :=
  match o.action with
  | .value _ kind =>
    if vs.isEmpty then .error (.noValue o)
    else if kind = .items then .ok (t.add o (vs.flatMap fun v => v.splitOn ","))
    else if t.used.contains o then .error (.repeated o)
    else do
      vs.forM (checkValue o kind)
      return t.add o vs
  | _ => if t.used.contains o then .error (.repeated o) else .ok (t.add o [])

/-- Looks at the option that is pending. -/
def settle (t : Taken) : Except Stop Taken :=
  match t.pending with
  | .none => .ok t
  | some (o, vs) => ({ t with pending := .none }.accept o vs).mapError .refused

/-- Notes the option that is pending, whether or not its value is one: another fault is
about to be reported. An option that was given before does not count as given then. -/
def note (t : Taken) : Taken :=
  let t' := { t with pending := .none }
  match t.pending with
  | .none => t
  | some (_, []) => t'
  | some (o, vs) =>
    match t'.accept o vs with
    | .ok accepted => accepted
    | .error _ =>
      if t'.used.contains o then { t' with options := t'.options.filter fun e => e.1 ≠ o }
      else t'.add o vs

/-- Whether an option waits for its value. -/
def isWaiting (t : Taken) : Bool :=
  match t.pending with
  | some (_, []) => true
  | _ => false

end Taken

/-! ## Options -/

section

variable (g : Grammar) (branches : List Branch)

/-- The command of a name. -/
def branch? (name : String) : Option Branch :=
  branches.find? fun b => b.name = name || b.aliases.contains name

/-- The names of the commands. -/
def branchNames : List String := branches.flatMap fun b => b.name :: b.aliases

/-- Takes an option without a value. -/
def takeFlag (t : Taken) (o : Opt) : Except Stop Taken := do
  let t ← t.settle
  match o.action with
  | .help => .error .help
  | .version => .error .version
  | _ => (t.accept o []).mapError .refused

/-- Takes an option that wants a value. -/
def takeValue (t : Taken) (o : Opt) (attached : Option String) : Except Stop Taken := do
  let t ← t.settle
  match attached with
  | some v => (t.accept o [v]).mapError .refused
  | none => return { t with pending := some (o, []) }

/-- The option of another command that is similar to an unknown one, if the command is
named later on the line. -/
def elsewhere? (long : String) (later : List String) : Option Tip :=
  let hits := branches.filterMap fun b => do
    let similar ← (Similar.among long (b.grammar.options.map Opt.long)).getLast?
    let at? ← later.findIdx? (· = b.name)
    return (at?, b.name, similar)
  ((hits.mergeSort fun a b => a.1 ≤ b.1).head?).map fun h => .elsewhere h.2.1 h.2.2

/-- The refusal of an unknown option. -/
def unknownOption (t : Taken) (long : String) (later : List String) : Refusal :=
  let t := t.note
  let argument := "--" ++ long
  match (Similar.among long (g.options.map Opt.long)).getLast? with
  | some name =>
    let similar := g.options.filter fun o => o.long = name
    .unexpected argument (similar.head?.map .similarOption)
      (t.used ++ similar.filter fun o => !t.used.contains o)
  | none =>
    match elsewhere? branches long later with
    | some tip => .unexpected argument (some tip) t.used
    | none => .unexpected argument (g.operand.map fun _ => .asValue argument) t.used

/-- Takes an argument that starts with two dashes. -/
def takeLong (t : Taken) (body : List Char) (later : List String) : Except Stop Taken :=
  let (name, rest) := body.span (· ≠ '=')
  let long := String.ofList name
  let attached := if rest.isEmpty then none else some (String.ofList (rest.drop 1))
  match g.options.find? fun o => o.long = long with
  | none => .error (.refused (unknownOption g branches t long later))
  | some o =>
    match o.action, attached with
    | .value _ _, v => takeValue t o v
    | _, some v => .error (.refused (.unexpectedValue v o t.used))
    | _, none => takeFlag t o

/-- Takes the short options of an argument that starts with one dash. -/
def takeShort (t : Taken) : List Char → Except Stop Taken
  | [] => .ok t
  | c :: rest =>
    match g.options.find? fun o => o.short = some c with
    | none =>
      let argument := "-" ++ c.toString
      .error (.refused (.unexpected argument (g.operand.map fun _ => .asValue argument) []))
    | some o =>
      match o.action with
      | .value _ _ =>
        takeValue t o (match rest with
          | [] => none
          | '=' :: v => some (String.ofList v)
          | v => some (String.ofList v))
      | _ => do takeShort (← takeFlag t o) rest

/-! ## Operands -/

/-- The refusal of an argument where none is taken. -/
def unexpectedArgument (argument : String) (escaped : Bool) : Refusal :=
  if escaped && (branch? branches argument).isSome then
    .unexpected argument (some (.withoutDashes argument)) []
  else if branches.isEmpty then .unexpected argument none []
  else .unknownCommand argument (Similar.among argument (branchNames branches))

/-- Takes an operand. -/
def takeOperand (t : Taken) (argument : String) (escaped : Bool) : Except Stop Taken := do
  let refusal := unexpectedArgument branches argument escaped
  match g.operand with
  | some o =>
    if o.many || t.operands.isEmpty then
      let t ← t.settle
      return { t with operands := t.operands ++ [argument] }
    else .error (.refused refusal)
  | none => .error (.refused refusal)

/-! ## Lines -/

/-- What a whole line says, if it says enough. -/
def finish (t : Taken) : Except Stop Taken := do
  let t ← t.settle
  if !branches.isEmpty then
    if t.options.isEmpty then .error .bare else .error (.refused (.noCommand (branchNames branches)))
  else match g.operand with
    | some o => if o.required && t.operands.isEmpty then .error (.refused (.noOperand t.used)) else .ok t
    | none => .ok t

/-- Reads the rest of a line. Where a command is named, reading ends with the command and
what follows it. -/
def readFrom (escaped : Bool) (t : Taken) :
    List String → Except Stop (Taken × Option (Branch × List String))
  | [] => return (← finish g branches t, none)
  | a :: rest =>
    if escaped then do readFrom true (← takeOperand g branches t a true) rest
    else match if t.isWaiting then none else branch? branches a with
      | some b => .ok (t, some (b, rest))
      | none =>
        match a.toList with
        | ['-', '-'] => readFrom true t rest
        | '-' :: '-' :: body => do readFrom false (← takeLong g branches t body rest) rest
        | '-' :: c :: body => do readFrom false (← takeShort g t (c :: body)) rest
        | _ =>
          match t.pending with
          | some (o, []) => readFrom false { t with pending := some (o, [a]) } rest
          | _ => do readFrom false (← takeOperand g branches t a false) rest

/-- Reads a line. -/
def read (arguments : List String) : Except Stop (Taken × Option (Branch × List String)) :=
  readFrom g branches false .none arguments

end

end PatternAudit.Command
