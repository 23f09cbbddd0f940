import XmlHarvest.Text.Utf8
import XmlHarvest.Yaml.Lexer.Scalars

/-! # The lexer

Tokens are read one after the other.  A colon may turn what stands before it
into a key; then the key's token, and the start of a block mapping if it needs
one, are put in before what was read since. -/
set_option autoImplicit false

namespace XmlHarvest.Yaml

/-- A key place that the reading has passed: keys stand on one line and are not
longer than 1024 characters. -/
def isStale (l : Lexer) (p : KeyPlace) : Bool :=
  p.line != l.line || l.index > p.index + 1024

/-- Forgets key places that were passed.  A required one must not be. -/
def dropStale : LexM Unit := do
  let l ← get
  let (stale, kept) := l.places.partition fun (_, p) => isStale l p
  if stale.any fun (_, p) => p.required then fail
  set { l with places := kept }

def dropPlace : LexM Unit := do
  let l ← get
  match l.places.lookup l.flowLevel with
  | some p => if p.required then fail
  | none => pure ()
  set { l with places := l.places.filter fun (level, _) => level != l.flowLevel }

def savePlace : LexM Unit := do
  let l ← get
  if l.keyAllowed then
    dropPlace
    let required := l.flowLevel == 0 && l.indent == (l.column : Int)
    modify fun now => { now with
      places := (l.flowLevel, ⟨l.count, required, l.index, l.line, l.column⟩) :: now.places }

def allowKey (b : Bool) : LexM Unit := modify fun l => { l with keyAllowed := b }

def unwind (column : Int) : Nat → LexM Unit
  | 0 => return
  | fuel + 1 => do
    let l ← get
    if l.flowLevel == 0 && column < l.indent then
      set { l with indent := l.indents.headD (-1), indents := l.indents.drop 1 }
      push .blockEnd
      unwind column fuel

def unwindTo (column : Int) : LexM Unit := do
  unwind column ((← get).indents.length + 1)

def addIndent (column : Nat) : LexM Bool := do
  let l ← get
  if l.indent < (column : Int) then
    set { l with indent := column, indents := l.indent :: l.indents }
    return true
  else return false

/-- Skips white space, comments and line breaks.  A line break in block context
allows a key. -/
def skipGap : Nat → LexM Unit
  | 0 => fail
  | fuel + 1 => do
    let l ← get
    if l.index == 0 && l.input.head? == some (.char '\ufeff') then forward 1
    skipRun (· == ' ')
    if (← peek) == '#' then skipRun fun c => !isBreak c
    if !(← lineBreak).isEmpty then
      if (← get).flowLevel == 0 then allowKey true
      skipGap fuel

def digits1 : LexM Text := do
  match ← takeRun isDigitChar with
  | [] => fail
  | ds => return ds

def isUriChar (c : CodePoint) : Bool :=
  isWordChar c || ("-;/?:@&=+$,_.!~*'()[]" : Text).contains c

def percentBytes : Nat → List UInt8 → LexM (List UInt8)
  | 0, _ => fail
  | fuel + 1, acc => do
    match (← get).input with
    | '%' :: a :: b :: _ =>
      match hexValue? a, hexValue? b with
      | some x, some y =>
        forward 3
        percentBytes fuel (UInt8.ofNat (x * 16 + y) :: acc)
      | _, _ => fail
    | '%' :: _ => fail
    | _ => return acc.reverse

def uriPieces : Nat → Text → LexM Text
  | 0, _ => fail
  | fuel + 1, acc => do
    let acc := acc ++ (← takeRun isUriChar)
    if (← peek) == '%' then
      let bytes ← percentBytes fuel []
      match Text.Utf8.decode bytes with
      | .ok cs => uriPieces fuel (acc ++ Text.ofChars cs)
      | .error _ => fail
    else return acc

def tagUri : LexM Text := do
  match ← uriPieces ((← get).input.length + 1) [] with
  | [] => fail
  | cs => return cs

def tagHandle : LexM Text := do
  match (← get).input with
  | '!' :: rest =>
    if rest.head? == some (.char ' ') then
      forward 1
      return ['!']
    else
      let word := rest.takeWhile isWordChar
      if (rest.drop word.length).head? == some (.char '!') then
        forward (word.length + 2)
        return "!" ++ word ++ ("!" : Text)
      else fail
  | _ => fail

def directive : LexM Directive := do
  let name ← takeRun isWordChar
  if name.isEmpty || !isSpaceOrEnd (← peek) then fail
  let d ←
    if name == "YAML" then do
      skipRun (· == ' ')
      let major ← digits1
      if (← peek) != '.' then fail
      forward 1
      let _ ← digits1
      if !isSpaceOrEnd (← peek) then fail
      pure (Directive.version major)
    else if name == "TAG" then do
      skipRun (· == ' ')
      let handle ← tagHandle
      if (← peek) != ' ' then fail
      skipRun (· == ' ')
      let uri ← tagUri
      if !isSpaceOrEnd (← peek) then fail
      pure (Directive.tag handle uri)
    else do
      skipRun fun c => !isBreak c
      pure Directive.other
  restOfLine
  return d

def anchorName : LexM Text := do
  let name ← takeRun isWordChar
  let c ← peek
  if name.isEmpty || !(isGapOrEnd c || ("?:,]\x7d%@\x60" : Text).contains c) then fail
  return name

def tagText : LexM TagText := do
  let next ← peekAt 1
  let t ←
    if next == '<' then do
      forward 2
      let suffix ← tagUri
      if (← peek) != '>' then fail
      forward 1
      pure (TagText.mk none suffix)
    else if isGapOrEnd next then do
      forward 1
      pure ⟨none, ['!']⟩
    else do
      let word := ((← get).input.drop 1).takeWhile fun c => !isSpaceOrEnd c
      let handle ← if word.contains '!' then tagHandle
        else do
          forward 1
          pure ['!']
      let suffix ← tagUri
      pure ⟨some handle, suffix⟩
  if isSpaceOrEnd (← peek) then return t else fail

def mark (t : Token) : LexM Unit := do
  forward 1
  push t

def documentMark (t : Token) : LexM Unit := do
  unwindTo (-1)
  dropPlace
  allowKey false
  forward 3
  push t

def flowStart (t : Token) : LexM Unit := do
  savePlace
  modify fun l => { l with flowLevel := l.flowLevel + 1, keyAllowed := true }
  mark t

def flowEnd (t : Token) : LexM Unit := do
  dropPlace
  modify fun l => { l with flowLevel := l.flowLevel - 1, keyAllowed := false }
  mark t

/-- In block context an entry or a key with a mark stands only where a key
may. -/
def blockMark (start : Token) : LexM Unit := do
  let l ← get
  if l.flowLevel == 0 then
    if !l.keyAllowed then fail
    if ← addIndent l.column then push start

def blockEntry : LexM Unit := do
  blockMark .blockSequenceStart
  allowKey true
  dropPlace
  mark .blockEntry

def keyMark : LexM Unit := do
  blockMark .blockMappingStart
  allowKey ((← get).flowLevel == 0)
  dropPlace
  mark .key

/-- Reads a colon.  What stands at the key place of the level becomes a
key. -/
def valueMark : LexM Unit := do
  let l ← get
  match l.places.lookup l.flowLevel with
  | some p =>
    set { l with places := l.places.filter fun (level, _) => level != l.flowLevel }
    insertAfter p.tokens .key
    if l.flowLevel == 0 then
      if ← addIndent p.column then insertAfter p.tokens .blockMappingStart
    allowKey false
  | none =>
    blockMark .blockMappingStart
    allowKey (l.flowLevel == 0)
    dropPlace
  mark .value

def keyed (scan : LexM Token) : LexM Unit := do
  savePlace
  allowKey false
  push (← scan)

def blockText (fold : Bool) : LexM Unit := do
  allowKey true
  dropPlace
  push (.scalar (← blockScalar fold) false)

/-- Whether a plain scalar may begin with `c` before `next`. -/
def startsPlain (inFlow : Bool) (c next : CodePoint) : Bool :=
  !(isGapOrEnd c || ("-?:,[]\x7b\x7d#&*!|>'\"%@\x60" : Text).contains c) ||
    (!isGapOrEnd next && (c == '-' || (!inFlow && (c == '?' || c == ':'))))

def token (c : CodePoint) : LexM Unit := do
  let l ← get
  let next ← peekAt 1
  let inFlow := l.flowLevel != 0
  if c == '%' && l.column == 0 then
    unwindTo (-1)
    dropPlace
    allowKey false
    forward 1
    push (.directive (← directive))
  else if l.column == 0 && (← atMark '-') then documentMark .documentStart
  else if l.column == 0 && (← atMark '.') then documentMark .documentEnd
  else if c == '[' then flowStart .flowSequenceStart
  else if c == '\x7b' then flowStart .flowMappingStart
  else if c == ']' then flowEnd .flowSequenceEnd
  else if c == '\x7d' then flowEnd .flowMappingEnd
  else if c == ',' then
    allowKey true
    dropPlace
    mark .flowEntry
  else if c == '-' && isGapOrEnd next then blockEntry
  else if c == '?' && (inFlow || isGapOrEnd next) then keyMark
  else if c == ':' && (inFlow || isGapOrEnd next) then valueMark
  else if c == '*' then keyed do
    forward 1
    return .alias (← anchorName)
  else if c == '&' then keyed do
    forward 1
    return .anchor (← anchorName)
  else if c == '!' then keyed do return .tag (← tagText)
  else if c == '|' && !inFlow then blockText false
  else if c == '>' && !inFlow then blockText true
  else if c == '\'' then keyed do return .scalar (← quotedScalar false) false
  else if c == '"' then keyed do return .scalar (← quotedScalar true) false
  else if startsPlain inFlow c next then keyed do return .scalar (← plainScalar) true
  else fail

/-- Reads all tokens.  Every round but the last reads a character, so the
length of the text bounds their number. -/
def scanAll : Nat → LexM Unit
  | 0 => fail
  | fuel + 1 => do
    skipGap ((← get).input.length + 1)
    dropStale
    unwindTo (← get).column
    match (← get).input with
    | [] =>
      unwindTo (-1)
      dropPlace
      push .streamEnd
    | c :: _ =>
      token c
      scanAll fuel

def tokens (cs : Text) : Except ReadFault (List Token) := do
  let ((), l) ← (scanAll (cs.length + 2)).run { input := cs }
  return l.tokens.reverse

end XmlHarvest.Yaml
