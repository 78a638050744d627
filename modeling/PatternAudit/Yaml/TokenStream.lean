/-
Cutting a YAML text into tokens, one at a time.

A token that may turn out to be a key is held back until the text shows whether
a `:` follows it on the same line within 1024 characters; then the key token,
and the start of a block mapping if the column asks for one, are put in before
it. So `next` reads on while the token at the front is still undecided, and the
faults of the text come out in the order in which it is read.

`indent` is the column of the innermost block collection (-1 outside of all),
and `keys` holds one undecided key per level of flow collections, innermost
first, the last one for the block level.
-/
import PatternAudit.Yaml.ScalarText

set_option autoImplicit false

namespace PatternAudit.Yaml

/-- A token that may be a key. -/
structure PendingKey where
  possible : Bool
  required : Bool
  number : Nat
  mark : Mark
  deriving Inhabited

/-- No key in sight. -/
def PendingKey.none : PendingKey := ⟨false, false, 0, Mark.start⟩

/-- The state of the cutting. -/
structure TokenStream where
  cursor : Cursor
  started : Bool
  ended : Bool
  indent : Int
  indents : List Int
  flow : Nat
  key : PendingKey
  outerKeys : List PendingKey
  keyAllowed : Bool
  queue : List Placed
  /-- how many tokens have left the queue -/
  taken : Nat
  deriving Inhabited

namespace TokenStream

/-- The stream of a text. -/
def ofText (text : String) : TokenStream where
  cursor := Cursor.ofText text
  started := false
  ended := false
  indent := -1
  indents := []
  flow := 0
  key := PendingKey.none
  outerKeys := []
  keyAllowed := false
  queue := []
  taken := 0

/-- What a step of the cutting answers. -/
abbrev Step := Except Fault TokenStream

/-- A fault at the cursor, with nothing else to say about it. -/
def bare {α : Type} (s : TokenStream) (problem : Problem) : Except Fault α :=
  .error (.at problem s.cursor.mark none)

/-! ## The queue -/

/-- Adds a token at the end. -/
def push (s : TokenStream) (t : Placed) : TokenStream := { s with queue := s.queue ++ [t] }

/-- Adds a token that takes no room, at the end. -/
def pushAt (s : TokenStream) (t : Token) (m : Mark) : TokenStream := s.push ⟨t, m, m⟩

/-- Puts a token before the one with the given number. -/
def insertBefore (s : TokenStream) (number : Nat) (t : Token) (m : Mark) : TokenStream :=
  let i := number - s.taken
  { s with queue := s.queue.take i ++ ⟨t, m, m⟩ :: s.queue.drop i }

/-- Adds the token of the next `n` characters and moves over them. -/
def pushChars (s : TokenStream) (t : Token) (n : Nat) : TokenStream :=
  let next := s.cursor.skip n
  { s.push ⟨t, s.cursor.mark, next.mark⟩ with cursor := next }

/-! ## Keys -/

/-- Gives up keys that the text has moved past: one line, 1024 characters. -/
def expireKey (here : Mark) (k : PendingKey) : Except Fault PendingKey :=
  if k.possible && (k.mark.line < here.line || k.mark.index + 1024 < here.index) then
    if k.required then .error (.at .missingColon here (some (.simpleKey, k.mark)))
    else .ok { k with possible := false }
  else .ok k

/-- Gives up every key that the text has moved past, the outermost first. -/
def expireKeys (s : TokenStream) : Step := do
  let outer ← s.outerKeys.reverse.mapM (expireKey s.cursor.mark)
  let key ← expireKey s.cursor.mark s.key
  .ok { s with key, outerKeys := outer.reverse }

/-- Gives up the key of this level. -/
def dropKey (s : TokenStream) : Step :=
  if s.key.possible && s.key.required then
    .error (.at .missingColon s.cursor.mark (some (.simpleKey, s.key.mark)))
  else .ok { s with key := { s.key with possible := false } }

/-- Notes that the token that begins here may be a key. -/
def noteKey (s : TokenStream) : Step :=
  if s.keyAllowed then do
    let s ← s.dropKey
    .ok { s with key :=
      { possible := true
        required := s.flow = 0 && s.indent = s.cursor.mark.column
        number := s.taken + s.queue.length
        mark := s.cursor.mark } }
  else .ok s

/-- Allows a key at the next token, or not. -/
def allowKey (s : TokenStream) (b : Bool) : TokenStream := { s with keyAllowed := b }

/-! ## Indentation -/

/-- Opens a block collection at a column further right; its start stands before the
token of the given number, or at the end. -/
def indentTo (s : TokenStream) (column : Nat) (before : Option Nat) (t : Token) (m : Mark) :
    TokenStream :=
  if s.flow = 0 && s.indent < (column : Int) then
    let s := { s with indents := s.indent :: s.indents, indent := column }
    match before with
    | some number => s.insertBefore number t m
    | none => s.pushAt t m
  else s

/-- Closes block collections that stand further right than a column. -/
def closeBlocks (m : Mark) (column : Int) : Int → List Int → List Placed → Int × List Int × List Placed
  | indent, [], out => (indent, [], out)
  | indent, outer :: rest, out =>
    if column < indent then closeBlocks m column outer rest (out ++ [⟨.blockEnd, m, m⟩])
    else (indent, outer :: rest, out)

/-- Closes the block collections that stand further right than a column. -/
def dedentTo (s : TokenStream) (column : Int) : TokenStream :=
  if s.flow = 0 then
    let (indent, indents, ends) := closeBlocks s.cursor.mark column s.indent s.indents []
    { s with indent, indents, queue := s.queue ++ ends }
  else s

/-! ## Blank space -/

/-- Moves to the next token, over blanks, comments and line ends. The fuel is the length
of the text. -/
def skipGaps : Nat → TokenStream → TokenStream
  | 0, s => s
  | fuel + 1, s =>
    let c := s.cursor
    let c := if c.mark.index = 0 && c.starts '\uFEFF' then c.skip 1 else c
    let tabs := s.flow != 0 || !s.keyAllowed
    let c := c.dropWhile fun x => x = ' ' || (tabs && x = '\t')
    let c := if c.starts '#' then c.dropWhile fun x => !isBreak x else c
    if c.rest.head?.any isBreak then
      skipGaps fuel
        { s with cursor := c.skipBreak, keyAllowed := s.keyAllowed || s.flow = 0 }
    else { s with cursor := c }

/-! ## Directives -/

/-- Reads a version number. -/
def versionNumber (since : Mark) (c : Cursor) : Except Fault (Nat × Cursor) :=
  let (digits, next) := c.takeWhile fun x => '0' ≤ x && x ≤ '9'
  if 9 < digits.length then
    .error (.at .longVersionNumber (c.skip 9).mark (some (.versionDirective, since)))
  else if digits.isEmpty then .error (.at .noVersionNumber c.mark (some (.versionDirective, since)))
  else .ok (digits.foldl (fun n x => n * 10 + (x.toNat - '0'.toNat)) 0, next)

/-- Reads the octets of one escaped character of a tag: the lead octet says how many
follow. -/
def uriOctets (activity : Activity) (since : Mark) :
    Nat → Option (Nat × Nat) → Cursor → Except Fault (Char × Cursor)
  | 0, _, c => .error (.at .noEscapedOctet c.mark (some (activity, since)))
  | fuel + 1, partly, c =>
    match c.rest with
    | '%' :: a :: b :: _ =>
      match Text.hexValue? a, Text.hexValue? b with
      | some a, some b =>
        let octet := a * 16 + b
        let next := c.skip 3
        match partly with
        | none =>
          if octet < 0x80 then .ok (Char.ofNat octet, next)
          else if octet / 32 = 6 then uriOctets activity since fuel (some (1, octet % 32)) next
          else if octet / 16 = 14 then uriOctets activity since fuel (some (2, octet % 16)) next
          else if octet / 8 = 30 then uriOctets activity since fuel (some (3, octet % 8)) next
          else .error (.at .leadingOctet c.mark (some (activity, since)))
        | some (more, value) =>
          if octet / 64 = 2 then
            let value := value * 64 + octet % 64
            if more ≤ 1 then .ok (Char.ofNat value, next)
            else uriOctets activity since fuel (some (more - 1, value)) next
          else .error (.at .trailingOctet c.mark (some (activity, since)))
      | _, _ => .error (.at .noEscapedOctet c.mark (some (activity, since)))
    | _ => .error (.at .noEscapedOctet c.mark (some (activity, since)))

/-- The characters of a tag, escapes apart. -/
def isUriChar (full : Bool) (x : Char) : Bool :=
  isWord x || x ∈ [';', '/', '?', ':', '@', '&', '=', '+', '$', '.', '%', '!', '~', '*', '\'', '(', ')']
    || (full && (x = ',' || x = '[' || x = ']'))

/-- Reads the characters of a tag. The accumulator is backwards. -/
def uriChars (full : Bool) (activity : Activity) (since : Mark) :
    Nat → List Char → Cursor → Except Fault (List Char × Cursor)
  | 0, acc, c => .ok (acc.reverse, c)
  | fuel + 1, acc, c =>
    match c.rest with
    | [] => .ok (acc.reverse, c)
    | x :: _ =>
      if x = '%' then do
        let (y, c) ← uriOctets activity since 5 none c
        uriChars full activity since fuel (y :: acc) c
      else if isUriChar full x then uriChars full activity since fuel (x :: acc) (c.skip 1)
      else .ok (acc.reverse, c)

/-- Reads the text of a tag after `head`, whose first character is left out. -/
def tagUri (full directive : Bool) (head : List Char) (since : Mark) (c : Cursor) :
    Except Fault (String × Cursor) := do
  let activity := if directive then Activity.tagDirectiveParts else .tagParts
  let (cs, next) ← uriChars full activity since (c.size + 1) [] c
  if head.isEmpty && cs.isEmpty then .error (.at .noTagUri next.mark (some (activity, since)))
  else .ok (String.ofList (head.drop 1 ++ cs), next)

/-- Reads a tag handle: `!`, a name, and perhaps a second `!`. -/
def tagHandle (directive : Bool) (since : Mark) (c : Cursor) :
    Except Fault (List Char × Cursor) :=
  if !c.starts '!' then
    .error (.at .noTagBang c.mark
      (some (if directive then .tagDirective else .tag, since)))
  else
    let (name, next) := (c.skip 1).takeWhile isWord
    if next.starts '!' then .ok ('!' :: name ++ ['!'], next.skip 1)
    else if directive && !name.isEmpty then
      .error (.at .noTagBang next.mark (some (.tagDirectiveParts, since)))
    else .ok ('!' :: name, next)

/-- Reads the value of a `%YAML` directive. -/
def versionValue (since : Mark) (c : Cursor) : Except Fault (Token × Cursor) := do
  let (major, c) ← versionNumber since (c.dropWhile isBlank)
  if !c.starts '.' then .error (.at .versionSeparator c.mark (some (.versionDirective, since)))
  else do
    let (minor, c) ← versionNumber since (c.skip 1)
    .ok (.versionDirective major minor, c)

/-- Reads the value of a `%TAG` directive. -/
def tagValue (since : Mark) (c : Cursor) : Except Fault (Token × Cursor) := do
  let (handle, c) ← tagHandle true since (c.dropWhile isBlank)
  if !c.rest.head?.any isBlank then .error (.at .noBlank c.mark (some (.tagDirective, since)))
  else do
    let (uri, c) ← tagUri true true [] since (c.dropWhile isBlank)
    if !c.isGapAt 0 then .error (.at .noBlankOrBreak c.mark (some (.tagDirective, since)))
    else .ok (.tagDirective (String.ofList handle) uri, c)

/-- Reads a directive, to the end of its line. -/
def directive (c : Cursor) : Except Fault (Placed × Cursor) := do
  let since := c.mark
  let (name, c) := (c.skip 1).takeWhile isWord
  if name.isEmpty then .error (.at .noDirectiveName c.mark (some (.directive, since)))
  else if !c.isGapAt 0 then .error (.at .directiveNameCharacter c.mark (some (.directive, since)))
  else do
    let (token, c) ←
      if name = ['Y', 'A', 'M', 'L'] then versionValue since c
      else if name = ['T', 'A', 'G'] then tagValue since c
      else .error (.at .unknownDirective c.mark (some (.directive, since)))
    let stop := c.mark
    let c := c.dropWhile isBlank
    let c := if c.starts '#' then c.dropWhile fun x => !isBreak x else c
    if !c.rest.isEmpty && !c.rest.head?.any isBreak then
      .error (.at .directiveEnd c.mark (some (.directive, since)))
    else .ok (⟨token, since, stop⟩, c.skipBreak)

/-! ## Names and tags -/

/-- Reads an anchor or an alias. -/
def anchor (isAlias : Bool) (c : Cursor) : Except Fault (Placed × Cursor) :=
  let (name, next) := (c.skip 1).takeWhile isWord
  let ends := next.isGapAt 0
    || next.rest.head?.any fun x => x ∈ ['?', ':', ',', ']', '}', '%', '@', '\x60']
  if name.isEmpty || !ends then
    .error (.at .noAnchorName next.mark (some (if isAlias then .aliasName else .anchor, c.mark)))
  else
    let text := String.ofList name
    .ok (⟨if isAlias then .aliasTo text else .anchor text, c.mark, next.mark⟩, next)

/-- Reads a tag. -/
def tag (flow : Bool) (c : Cursor) : Except Fault (Placed × Cursor) := do
  let since := c.mark
  let (handle, suffix, next) ←
    (match c.rest with
    | '!' :: '<' :: _ => do
      let (uri, next) ← tagUri true false [] since (c.skip 2)
      if next.starts '>' then .ok ("", uri, next.skip 1)
      else .error (.at .tagEnd next.mark (some (.tag, since)))
    | _ => do
      let (handle, next) ← tagHandle false since c
      if 1 < handle.length && handle.getLast? == some '!' then do
        let (uri, next) ← tagUri false false [] since next
        .ok (String.ofList handle, uri, next)
      else do
        let (uri, next) ← tagUri false false handle since next
        if uri.isEmpty then .ok ("", "!", next) else .ok ("!", uri, next)
      : Except Fault (String × String × Cursor))
  if next.isGapAt 0 || (flow && next.starts ',') then
    .ok (⟨.tag handle suffix, since, next.mark⟩, next)
  else .error (.at .noBlankOrBreak next.mark (some (.tag, since)))

/-! ## The next token -/

/-- Ends the stream; the end counts as the start of a line. -/
def finish (s : TokenStream) : Step := do
  let m := s.cursor.mark
  let m := if m.column = 0 then m else ⟨m.index, m.line + 1, 0⟩
  let s := { s with cursor := { s.cursor with mark := m } }
  let s ← (s.dedentTo (-1)).dropKey
  .ok { (s.allowKey false).pushAt .streamEnd m with ended := true }

/-- Opens a flow collection. -/
def openFlow (s : TokenStream) (t : Token) : Step := do
  let s ← s.noteKey
  let s := { s with flow := s.flow + 1, outerKeys := s.key :: s.outerKeys, key := PendingKey.none }
  .ok ((s.allowKey true).pushChars t 1)

/-- Closes a flow collection. -/
def closeFlow (s : TokenStream) (t : Token) : Step := do
  let s ← s.dropKey
  let s := match s.outerKeys with
    | k :: rest => if s.flow = 0 then s else { s with flow := s.flow - 1, key := k, outerKeys := rest }
    | [] => s
  .ok ((s.allowKey false).pushChars t 1)

/-- Adds the entry sign of a block sequence. -/
def blockEntry (s : TokenStream) : Step :=
  if s.flow = 0 && !s.keyAllowed then s.bare .blockEntryHere
  else do
    let m := s.cursor.mark
    let s ← (s.indentTo m.column none .blockSequenceStart m).dropKey
    .ok ((s.allowKey true).pushChars .blockEntry 1)

/-- Adds the sign of a key. -/
def keySign (s : TokenStream) : Step :=
  if s.flow = 0 && !s.keyAllowed then s.bare .keyHere
  else do
    let m := s.cursor.mark
    let s ← (s.indentTo m.column none .blockMappingStart m).dropKey
    .ok ((s.allowKey (s.flow = 0)).pushChars .key 1)

/-- Adds the sign of a value; what stands before it on the line becomes its key. -/
def valueSign (s : TokenStream) : Step :=
  let m := s.cursor.mark
  if s.key.possible then
    let k := s.key
    let s := s.insertBefore k.number .key k.mark
    let s := s.indentTo k.mark.column (some k.number) .blockMappingStart k.mark
    let s := { s with key := { k with possible := false } }
    .ok ((s.allowKey false).pushChars .value 1)
  else if s.flow = 0 && !s.keyAllowed then s.bare .valueHere
  else
    let s := s.indentTo m.column none .blockMappingStart m
    .ok ((s.allowKey (s.flow = 0)).pushChars .value 1)

/-- Adds a token that may be a key. -/
def content (s : TokenStream) (read : Cursor → Except Fault (Placed × Cursor)) : Step := do
  let s ← s.noteKey
  let (t, c) ← read s.cursor
  .ok { (s.allowKey false).push t with cursor := c }

/-- Adds a plain scalar. -/
def plainScalar (s : TokenStream) : Step := do
  let s ← s.noteKey
  let (t, broken, c) ← ScalarText.plain (s.flow != 0) s.indent s.cursor
  .ok { (s.allowKey broken).push t with cursor := c }

/-- Adds a block scalar. -/
def blockScalar (s : TokenStream) (literal : Bool) : Step := do
  let s ← s.dropKey
  let (t, c) ← ScalarText.block literal s.indent s.cursor
  .ok { (s.allowKey true).push t with cursor := c }

/-- The characters that begin something else than a plain scalar. -/
def isIndicator (x : Char) : Bool :=
  x ∈ ['-', '?', ':', ',', '[', ']', '{', '}', '#', '&', '*', '!', '|', '>', '\'', '"', '%', '@', '\x60']

/-- Whether a plain scalar may begin here. -/
def startsPlain (s : TokenStream) : Bool :=
  match s.cursor.rest with
  | [] => false
  | x :: tail =>
    !(isBlank x || isBreak x || isIndicator x)
      || (x = '-' && !tail.head?.any isBlank)
      || (s.flow = 0 && (x = '?' || x = ':') && !s.cursor.isGapAt 1)

/-- Cuts off the next token. -/
def fetch (s : TokenStream) : Step :=
  if !s.started then
    .ok { s.pushAt .streamStart s.cursor.mark with started := true, keyAllowed := true, indent := -1 }
  else do
    let s := skipGaps (s.cursor.size + 1) s
    let s ← s.expireKeys
    let s := s.dedentTo s.cursor.mark.column
    let c := s.cursor
    let inFlow := s.flow != 0
    match c.rest with
    | [] => s.finish
    | x :: _ =>
      if c.mark.column = 0 && x = '%' then do
        let s ← (s.dedentTo (-1)).dropKey
        let (t, c) ← directive s.cursor
        .ok { (s.allowKey false).push t with cursor := c }
      else if c.atDocumentIndicator then do
        let s ← (s.dedentTo (-1)).dropKey
        .ok ((s.allowKey false).pushChars (if x = '-' then .documentStart else .documentEnd) 3)
      else if x = '[' then s.openFlow .flowSequenceStart
      else if x = '{' then s.openFlow .flowMappingStart
      else if x = ']' then s.closeFlow .flowSequenceEnd
      else if x = '}' then s.closeFlow .flowMappingEnd
      else if x = ',' then do
        let s ← s.dropKey
        .ok ((s.allowKey true).pushChars .flowEntry 1)
      else if x = '-' && c.isGapAt 1 then s.blockEntry
      else if x = '?' && (inFlow || c.isGapAt 1) then s.keySign
      else if x = ':' && (inFlow || c.isGapAt 1) then s.valueSign
      else if x = '*' then s.content (anchor true)
      else if x = '&' then s.content (anchor false)
      else if x = '!' then s.content (tag inFlow)
      else if x = '|' && !inFlow then s.blockScalar true
      else if x = '>' && !inFlow then s.blockScalar false
      else if x = '\'' then s.content (ScalarText.quoted true)
      else if x = '"' then s.content (ScalarText.quoted false)
      else if s.startsPlain then s.plainScalar
      else .error (.at .cannotStartToken c.mark (some (.nextToken, c.mark)))

/-- Whether the token at the front may still get a key before it. -/
def undecided (s : TokenStream) : Bool :=
  (s.key.possible && s.key.number = s.taken)
    || s.outerKeys.any fun k => k.possible && k.number = s.taken

/-- Reads on until the token at the front is decided. Every round takes a character or
ends the stream, so the length of the text bounds the rounds. -/
def settle : Nat → TokenStream → Step
  | 0, s => .ok s
  | fuel + 1, s =>
    if s.queue.isEmpty then
      if s.ended then .ok s else (s.fetch).bind (settle fuel)
    else do
      let s ← s.expireKeys
      if s.undecided then (s.fetch).bind (settle fuel) else .ok s

/-- The token at the front, and the stream with it at the front. -/
def peek (s : TokenStream) : Except Fault (Placed × TokenStream) := do
  let s ← settle (s.cursor.size + 3) s
  match s.queue with
  | t :: _ => .ok (t, s)
  | [] => .ok (⟨.streamEnd, s.cursor.mark, s.cursor.mark⟩, s)

/-- Takes the token at the front away. -/
def drop (s : TokenStream) : TokenStream := { s with queue := s.queue.drop 1, taken := s.taken + 1 }

end TokenStream

end PatternAudit.Yaml
