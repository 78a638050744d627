/-
The events of a YAML text: the tokens read by the grammar.

An event opens or closes a document or a collection, or is a scalar or an
alias; a value that the text leaves out is an empty plain scalar. `next`
answers one event: it looks at the token in front, at what the grammar expects
there, and at what it will expect after the node is done (`outer`, innermost
first). Expectations inside a bracket or a block carry the place where it began,
for the message when it goes wrong.
-/
import PatternAudit.Yaml.TokenStream

set_option autoImplicit false

namespace PatternAudit.Yaml

/-! ## Events and expectations -/

/-- What is told of a node besides its content. -/
structure Properties where
  anchor : Option String
  tag : Option String
  deriving DecidableEq, Inhabited

/-- No properties. -/
def Properties.none : Properties := ⟨.none, .none⟩

/-- An event. -/
inductive Event where
  | streamStart
  | streamEnd
  | documentStart
  | documentEnd
  | aliasTo (name : String)
  | scalar (properties : Properties) (text : String) (style : Style)
  | sequenceStart (properties : Properties)
  | sequenceEnd
  | mappingStart (properties : Properties)
  | mappingEnd
  deriving Inhabited

/-- A value that the text leaves out. -/
def Event.omitted : Event := .scalar Properties.none "" .plain

/-- What the grammar expects next. `first` marks the place right before the opening
token of a collection. -/
inductive Expect where
  | stream
  | document (implicit : Bool)
  | documentContent
  | documentEnd
  | blockNode
  | blockEntry (first : Bool) (since : Mark)
  | indentlessEntry
  | blockKey (first : Bool) (since : Mark)
  | blockValue (since : Mark)
  | flowItem (first : Bool) (since : Mark)
  | flowPairKey (since : Mark)
  | flowPairValue (since : Mark)
  | flowPairEnd (since : Mark)
  | flowKey (first : Bool) (since : Mark)
  | flowValue (since : Mark)
  | flowLoneKey (since : Mark)
  | nothing
  deriving Inhabited

/-- The state of the grammar. `handles` are the tag shorthands of the document. -/
structure EventStream where
  tokens : TokenStream
  expect : Expect
  outer : List Expect
  handles : List (String × String)
  deriving Inhabited

namespace EventStream

/-- The events of a text. -/
def ofText (text : String) : EventStream := ⟨TokenStream.ofText text, .stream, [], []⟩

/-- An event, its place, and what follows it. -/
abbrev Step := Except Fault (Event × Mark × EventStream)

/-! ## Moving on -/

/-- The token in front. -/
def peek (s : EventStream) : Except Fault (Placed × EventStream) := do
  let (t, tokens) ← s.tokens.peek
  .ok (t, { s with tokens })

/-- Takes the token in front. -/
def drop (s : EventStream) : EventStream := { s with tokens := s.tokens.drop }

/-- Goes on with a state. -/
def goto (s : EventStream) (e : Expect) : EventStream := { s with expect := e }

/-- Goes on with a node, after which a state comes. -/
def before (s : EventStream) (e : Expect) : EventStream := { s with outer := e :: s.outer }

/-- Goes on with what comes after the node at hand. -/
def leave (s : EventStream) : EventStream :=
  match s.outer with
  | e :: outer => { s with expect := e, outer }
  | [] => { s with expect := .nothing }

/-- A value that is left out, and the state after it. -/
def omitAt (s : EventStream) (m : Mark) (e : Expect) : Step := .ok (.omitted, m, s.goto e)

/-- A problem at a token, in something that began at `since`. -/
def wrong {α : Type} (t : Placed) (problem : Problem) (activity : Activity) (since : Mark) :
    Except Fault α :=
  .error (.at problem t.start (some (activity, since)))

/-! ## Nodes -/

/-- What a tag stands for: its handle looked up, its suffix put after. -/
def fullTag (s : EventStream) (since at_ : Mark) (handle suffix : String) : Except Fault String :=
  if handle.isEmpty then .ok suffix
  else match s.handles.find? (·.1 == handle) with
    | some (_, lead) => .ok (lead ++ suffix)
    | none => .error (.at .undefinedHandle at_ (some (.node, since)))

/-- Reads an anchor and a tag, in either order: the properties and the place where the
first of them stands, if there is one. -/
def properties (s : EventStream) : Except Fault (Properties × Option Mark × EventStream) := do
  let (t, s) ← s.peek
  match t.token with
  | .anchor name => do
    let (t', s) ← s.drop.peek
    match t'.token with
    | .tag handle suffix => do
      let s := s.drop
      let (_, s) ← s.peek
      let tag ← s.fullTag t.start t'.start handle suffix
      .ok (⟨some name, some tag⟩, some t.start, s)
    | _ => .ok (⟨some name, none⟩, some t.start, s)
  | .tag handle suffix => do
    let (t', s) ← s.drop.peek
    match t'.token with
    | .anchor name => do
      let (_, s) ← s.drop.peek
      let tag ← s.fullTag t.start t.start handle suffix
      .ok (⟨some name, some tag⟩, some t.start, s)
    | _ => do
      let tag ← s.fullTag t.start t.start handle suffix
      .ok (⟨none, some tag⟩, some t.start, s)
  | _ => .ok (Properties.none, none, s)

/-- Reads the first event of a node. In a block, collections may be shown by their
indentation, and after a key a sequence may stand without any. -/
def node (s : EventStream) (block indentless : Bool) : Step := do
  let (t, s) ← s.peek
  match t.token with
  | .aliasTo name => .ok (.aliasTo name, t.start, s.leave.drop)
  | _ => do
    let (p, begun, s) ← s.properties
    let (t, s) ← s.peek
    let m := begun.getD t.start
    match t.token with
    | .scalar text style =>
      -- the bare `!` asks for the kind that the text shows
      let p := if p.tag == some "!" then { p with tag := none } else p
      .ok (.scalar p text style, m, s.leave.drop)
    | .flowSequenceStart => .ok (.sequenceStart p, m, s.goto (.flowItem true t.start))
    | .flowMappingStart => .ok (.mappingStart p, m, s.goto (.flowKey true t.start))
    | token =>
      if indentless && token == .blockEntry then .ok (.sequenceStart p, m, s.goto .indentlessEntry)
      else if block && token == .blockSequenceStart then
        .ok (.sequenceStart p, m, s.goto (.blockEntry true t.start))
      else if block && token == .blockMappingStart then
        .ok (.mappingStart p, m, s.goto (.blockKey true t.start))
      else if begun.isSome then .ok (.scalar p "" .plain, m, s.leave)
      else wrong t .noContent (if block then .blockNode else .flowNode) m

/-! ## Documents -/

/-- Reads the directives before a document. -/
def directives : Nat → Bool → List (String × String) → EventStream →
    Except Fault (List (String × String) × EventStream)
  | 0, _, handles, s => .ok (handles, s)
  | fuel + 1, versioned, handles, s => do
    let (t, s) ← s.peek
    match t.token with
    | .versionDirective major minor =>
      if versioned then .error (.at .duplicateVersion t.start none)
      else if major ≠ 1 || (minor ≠ 1 && minor ≠ 2) then
        .error (.at .incompatibleVersion t.start none)
      else directives fuel true handles s.drop
    | .tagDirective handle lead =>
      if handles.any (·.1 == handle) then .error (.at .duplicateTagDirective t.start none)
      else directives fuel versioned (handles ++ [(handle, lead)]) s.drop
    | _ => .ok (handles, s)

/-- The tag shorthands that every document has, after its own. -/
def withDefaults (handles : List (String × String)) : List (String × String) :=
  handles ++ [("!", "!"), ("!!", "tag:yaml.org,2002:")]

/-- Drops the ends of documents that no document precedes. -/
def skipEnds : Nat → EventStream → Except Fault EventStream
  | 0, s => .ok s
  | fuel + 1, s => do
    let (t, s) ← s.peek
    if t.token == .documentEnd then skipEnds fuel s.drop else .ok s

/-- Whether a token can only begin a document that is announced. -/
def announces : Token → Bool
  | .versionDirective _ _ => true
  | .tagDirective _ _ => true
  | .documentStart => true
  | .streamEnd => true
  | _ => false

/-- Reads the start of a document, or the end of the stream. -/
def document (s : EventStream) (implicit : Bool) : Step := do
  let fuel := s.tokens.cursor.size + 1
  let s ← if implicit then .ok s else skipEnds fuel s
  let (t, s) ← s.peek
  if implicit && !announces t.token then
    let s := { s with handles := withDefaults [] }
    .ok (.documentStart, t.start, (s.before .documentEnd).goto .blockNode)
  else if t.token == .streamEnd then .ok (.streamEnd, t.start, (s.goto .nothing).drop)
  else do
    let (handles, s) ← directives fuel false [] s
    let (t', s) ← s.peek
    if t'.token == .documentStart then
      let s := { s with handles := withDefaults handles }
      .ok (.documentStart, t.start, ((s.before .documentEnd).goto .documentContent).drop)
    else .error (.at .noDocumentStart t'.start none)

/-- Whether a token shows that a document holds nothing. -/
def endsDocument (t : Token) : Bool := announces t || t == .documentEnd

/-! ## Collections -/

/-- Whether a token begins no node inside a block mapping. -/
def endsBlockPart (t : Token) : Bool := t == .key || t == .value || t == .blockEnd

/-- Reads an entry of a block sequence, or its end. -/
def blockEntry (s : EventStream) (since : Mark) : Step := do
  let (t, s) ← s.peek
  if t.token == .blockEntry then do
    let (t', s) ← s.drop.peek
    if t'.token == .blockEntry || t'.token == .blockEnd then s.omitAt t.stop (.blockEntry false since)
    else (s.before (.blockEntry false since)).node true false
  else if t.token == .blockEnd then .ok (.sequenceEnd, t.start, s.leave.drop)
  else wrong t .noDash .blockCollection since

/-- Reads an entry of a sequence that is not indented, or its end. -/
def indentlessEntry (s : EventStream) : Step := do
  let (t, s) ← s.peek
  if t.token == .blockEntry then do
    let (t', s) ← s.drop.peek
    if t'.token == .blockEntry || endsBlockPart t'.token then s.omitAt t.stop .indentlessEntry
    else (s.before .indentlessEntry).node true false
  else .ok (.sequenceEnd, t.start, s.leave)

/-- Reads a key of a block mapping, or its end. -/
def blockKey (s : EventStream) (since : Mark) : Step := do
  let (t, s) ← s.peek
  if t.token == .key then do
    let (t', s) ← s.drop.peek
    if endsBlockPart t'.token then s.omitAt t.stop (.blockValue since)
    else (s.before (.blockValue since)).node true true
  else if t.token == .blockEnd then .ok (.mappingEnd, t.start, s.leave.drop)
  else wrong t .noKey .blockMapping since

/-- Reads a value of a block mapping. -/
def blockValue (s : EventStream) (since : Mark) : Step := do
  let (t, s) ← s.peek
  if t.token == .value then do
    let (t', s) ← s.drop.peek
    if endsBlockPart t'.token then s.omitAt t.stop (.blockKey false since)
    else (s.before (.blockKey false since)).node true true
  else s.omitAt t.start (.blockKey false since)

/-- Reads an item of a bracketed sequence, or its end. An item with a key is a mapping
of one pair. -/
def flowItem (s : EventStream) (first : Bool) (since : Mark) : Step := do
  let (t, s) ← s.peek
  if t.token == .flowSequenceEnd then .ok (.sequenceEnd, t.start, s.leave.drop)
  else if !first && t.token != .flowEntry then wrong t .noCommaOrBracket .flowSequence since
  else do
    let (t, s) ← (if first then s else s.drop).peek
    if t.token == .key then
      .ok (.mappingStart Properties.none, t.start, (s.goto (.flowPairKey since)).drop)
    else if t.token == .flowSequenceEnd then .ok (.sequenceEnd, t.start, s.leave.drop)
    else (s.before (.flowItem false since)).node false false

/-- Whether a token ends an item of a bracketed sequence. -/
def endsItem (t : Token) : Bool := t == .flowEntry || t == .flowSequenceEnd

/-- Reads the key of a pair inside a bracketed sequence. -/
def flowPairKey (s : EventStream) (since : Mark) : Step := do
  let (t, s) ← s.peek
  if t.token == .value || endsItem t.token then s.drop.omitAt t.stop (.flowPairValue since)
  else (s.before (.flowPairValue since)).node false false

/-- Reads the value of a pair inside a bracketed sequence. -/
def flowPairValue (s : EventStream) (since : Mark) : Step := do
  let (t, s) ← s.peek
  if t.token == .value then do
    let (t', s) ← s.drop.peek
    if endsItem t'.token then s.omitAt t'.start (.flowPairEnd since)
    else (s.before (.flowPairEnd since)).node false false
  else s.omitAt t.start (.flowPairEnd since)

/-- Whether a token ends a pair of a braced mapping. -/
def endsPair (t : Token) : Bool := t == .flowEntry || t == .flowMappingEnd

/-- Reads a key of a braced mapping, or its end. -/
def flowKey (s : EventStream) (first : Bool) (since : Mark) : Step := do
  let (t, s) ← s.peek
  if t.token == .flowMappingEnd then .ok (.mappingEnd, t.start, s.leave.drop)
  else if !first && t.token != .flowEntry then wrong t .noCommaOrBrace .flowMapping since
  else do
    let (t, s) ← (if first then s else s.drop).peek
    if t.token == .key then do
      let (t', s) ← s.drop.peek
      if t'.token == .value || endsPair t'.token then s.omitAt t'.start (.flowValue since)
      else (s.before (.flowValue since)).node false false
    else if t.token == .flowMappingEnd then .ok (.mappingEnd, t.start, s.leave.drop)
    else (s.before (.flowLoneKey since)).node false false

/-- Reads a value of a braced mapping. -/
def flowValue (s : EventStream) (since : Mark) : Step := do
  let (t, s) ← s.peek
  if t.token == .value then do
    let (t', s) ← s.drop.peek
    if endsPair t'.token then s.omitAt t'.start (.flowKey false since)
    else (s.before (.flowKey false since)).node false false
  else s.omitAt t.start (.flowKey false since)

/-! ## The next event -/

/-- Reads the next event; after the end of the stream, the end again. -/
def next (s : EventStream) : Step := do
  match s.expect with
  | .stream => do
    let (t, s) ← s.peek
    if t.token == .streamStart then .ok (.streamStart, t.start, (s.goto (.document true)).drop)
    else .error (.at .noStreamStart t.start none)
  | .document implicit => s.document implicit
  | .documentContent => do
    let (t, s) ← s.peek
    if endsDocument t.token then .ok (.omitted, t.start, s.leave) else s.node true false
  | .documentEnd => do
    let (t, s) ← s.peek
    let s := s.goto (.document false)
    .ok (.documentEnd, t.start, if t.token == .documentEnd then s.drop else s)
  | .blockNode => s.node true false
  | .blockEntry first since => (if first then s.drop else s).blockEntry since
  | .indentlessEntry => s.indentlessEntry
  | .blockKey first since => (if first then s.drop else s).blockKey since
  | .blockValue since => s.blockValue since
  | .flowItem first since => (if first then s.drop else s).flowItem first since
  | .flowPairKey since => s.flowPairKey since
  | .flowPairValue since => s.flowPairValue since
  | .flowPairEnd since => do
    let (t, s) ← s.peek
    .ok (.mappingEnd, t.start, s.goto (.flowItem false since))
  | .flowKey first since => (if first then s.drop else s).flowKey first since
  | .flowValue since => s.flowValue since
  | .flowLoneKey since => do
    let (t, s) ← s.peek
    s.omitAt t.start (.flowKey false since)
  | .nothing => .ok (.streamEnd, s.tokens.cursor.mark, s)

end EventStream

end PatternAudit.Yaml
