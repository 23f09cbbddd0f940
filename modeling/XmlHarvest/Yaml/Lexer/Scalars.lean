import XmlHarvest.Yaml.Lexer.Basic

/-! # Scalars of YAML

Plain scalars end where a mark or a comment begins; scalars in quotes and plain
ones fold their lines; literal scalars keep them. -/
set_option autoImplicit false

namespace XmlHarvest.Yaml

/-- What folded line breaks stand for: the first one is a space, unless other
breaks follow it. -/
def folded (first : Text) (others : List Text) : Text :=
  (if first != "\n" then first else if others.isEmpty then " " else []) ++ others.flatten

/-- Spaces and line breaks after the first break of a plain scalar; none at a
document mark. -/
def plainBreaks : Nat → List Text → LexM (Option (List Text))
  | 0, _ => fail
  | fuel + 1, acc => do
    let c ← peek
    if c == ' ' then
      forward 1
      plainBreaks fuel acc
    else if isBreak c then
      let b ← lineBreak
      if ← atDocumentMark then return none
      plainBreaks fuel (b :: acc)
    else return some acc.reverse

/-- The white space inside a plain scalar.  None when it ends the scalar. -/
def plainSpaces (fuel : Nat) : LexM (Option Text) := do
  let spaces ← takeRun (· == ' ')
  if isBreak (← peek) then
    let first ← lineBreak
    modify fun l => { l with keyAllowed := true }
    if ← atDocumentMark then return none
    match ← plainBreaks fuel [] with
    | none => return none
    | some others => return some (folded first others)
  else if spaces.isEmpty then return none
  else return some spaces

/-- The length of a piece of a plain scalar, up to white space or a mark. -/
def plainLength (inFlow : Bool) : Text → Nat
  | [] => 0
  | c :: rest =>
    let next := rest.headD '\x00'
    if isGapOrEnd c then 0
    else if c == ':' && (isGapOrEnd next || (inFlow && (",[]\x7b\x7d" : Text).contains next)) then 0
    else if inFlow && (",?[]\x7b\x7d" : Text).contains c then 0
    else plainLength inFlow rest + 1

/-- The pieces of a plain scalar whose lines are indented by `indent`, after
`acc`.  The white space before a piece counts only if the piece is there. -/
def plainPieces (indent : Int) : Nat → Text → Text → LexM Text
  | 0, _, _ => fail
  | fuel + 1, acc, spaces => do
    let l ← get
    if l.input.headD '\x00' == '#' then return acc
    let n := plainLength (l.flowLevel != 0) l.input
    if n == 0 then return acc
    let acc := acc ++ spaces ++ l.input.take n
    forward n
    modify fun l => { l with keyAllowed := false }
    match ← plainSpaces fuel with
    | none => return acc
    | some spaces =>
      let l ← get
      if l.input.headD '\x00' == '#' || (l.flowLevel == 0 && (l.column : Int) < indent) then
        return acc
      plainPieces indent fuel acc spaces

def plainScalar : LexM Text := do
  let l ← get
  plainPieces (l.indent + 1) (l.input.length + 1) [] []

def escape? : CodePoint → Option CodePoint
  | '0' => some '\x00'
  | 'a' => some '\x07'
  | 'b' => some '\x08'
  | 't' => some '\t'
  | '\t' => some '\t'
  | 'n' => some '\n'
  | 'v' => some '\x0b'
  | 'f' => some '\x0c'
  | 'r' => some '\r'
  | 'e' => some '\x1b'
  | ' ' => some ' '
  | '"' => some '"'
  | '\\' => some '\\'
  | '/' => some '/'
  | 'N' => some '\x85'
  | '_' => some '\xa0'
  | 'L' => some '\u2028'
  | 'P' => some '\u2029'
  | _ => none

def escapeWidth? : CodePoint → Option Nat
  | 'x' => some 2
  | 'u' => some 4
  | 'U' => some 8
  | _ => none

def hexNumber? (cs : Text) : Option Nat :=
  cs.foldl (fun n? c => do
    let n ← n?
    let d ← hexValue? c
    some (n * 16 + d)) (some 0)

/-- Numbers above the last code point are no characters. -/
def noCharacter (n : Nat) : Fault :=
  if 0x80000000 ≤ n then .raised .overflow "Python int too large to convert to C int"
  else .raised .value "chr() arg not in range(0x110000)"

/-- Line breaks inside quotes, with white space around them.  A document mark
may not stand there. -/
def quotedBreaks : Nat → List Text → LexM (List Text)
  | 0, _ => fail
  | fuel + 1, acc => do
    if ← atDocumentMark then fail
    skipRun fun c => c == ' ' || c == '\t'
    if isBreak (← peek) then
      let b ← lineBreak
      quotedBreaks fuel (b :: acc)
    else return acc.reverse

def escape (fuel : Nat) : LexM Text := do
  let c ← peek
  match escape? c, escapeWidth? c with
  | some r, _ =>
    forward 1
    return [r]
  | none, some width =>
    forward 1
    let digits := (← get).input.take width
    match hexNumber? digits with
    | some n =>
      if digits.length != width then fail
      if 0x110000 ≤ n then throw (.fault (noCharacter n))
      forward width
      return [CodePoint.ofNat n]
    | none => fail
  | none, none =>
    if isBreak c then
      let _ ← lineBreak
      return (← quotedBreaks fuel []).flatten
    else fail

/-- Reads characters inside quotes up to white space or a quote. -/
def quotedPiece (double : Bool) : Nat → Text → LexM Text
  | 0, _ => fail
  | fuel + 1, acc => do
    let run ← takeRun fun c => !(c == '\'' || c == '"' || c == '\\' || isGapOrEnd c)
    let acc := acc ++ run
    let c ← peek
    if !double && c == '\'' && (← peekAt 1) == '\'' then
      forward 2
      quotedPiece double fuel (acc ++ ([c] : Text))
    else if (double && c == '\'') || (!double && (c == '"' || c == '\\')) then
      forward 1
      quotedPiece double fuel (acc ++ [c])
    else if double && c == '\\' then
      forward 1
      let cs ← escape fuel
      quotedPiece double fuel (acc ++ cs)
    else return acc

def quotedSpaces (fuel : Nat) : LexM Text := do
  let spaces ← takeRun fun c => c == ' ' || c == '\t'
  let c ← peek
  if c == '\x00' then fail
  else if isBreak c then
    let first ← lineBreak
    return folded first (← quotedBreaks fuel [])
  else return spaces

def quotedRest (double : Bool) (quote : CodePoint) (whole : Nat) : Nat → Text → LexM Text
  | 0, _ => fail
  | fuel + 1, acc => do
    if (← peek) == quote then
      forward 1
      return acc
    let spaces ← quotedSpaces whole
    let piece ← quotedPiece double whole []
    quotedRest double quote whole fuel (acc ++ spaces ++ piece)

def quotedScalar (double : Bool) : LexM Text := do
  let quote ← peek
  forward 1
  let fuel := (← get).input.length + 2
  let first ← quotedPiece double fuel []
  quotedRest double quote fuel fuel first

inductive Chomping where
  | clip
  | strip
  | keep
  deriving DecidableEq

def chomping? : CodePoint → Option Chomping
  | '+' => some .keep
  | '-' => some .strip
  | _ => none

def increment? : LexM (Option Nat) := do
  let c ← peek
  if isDigitChar c then
    if c == '0' then fail
    forward 1
    return some (c.toNat - 48)
  else return none

def blockHeader : LexM (Chomping × Option Nat) := do
  let result ← match chomping? (← peek) with
    | some chomp => do
      forward 1
      let increment ← increment?
      pure (chomp, increment)
    | none => do
      match ← increment? with
      | none => pure (.clip, none)
      | some n =>
        match chomping? (← peek) with
        | some chomp =>
          forward 1
          pure (chomp, some n)
        | none => pure (.clip, some n)
  if isSpaceOrEnd (← peek) then return result else fail

/-- Skips the blank lines before the text of a block scalar, and finds the
largest indentation of them and of the text. -/
def blockIndentation : Nat → Nat → List Text → LexM (List Text × Nat)
  | 0, _, _ => fail
  | fuel + 1, deepest, acc => do
    let c ← peek
    if c == ' ' then
      forward 1
      blockIndentation fuel (max deepest (← get).column) acc
    else if isBreak c then
      let b ← lineBreak
      blockIndentation fuel deepest (b :: acc)
    else return (acc.reverse, deepest)

def skipIndent (indent : Int) : LexM Unit := do
  let l ← get
  let width := (indent - l.column).toNat
  forward ((l.input.take width).takeWhile (· == CodePoint.char ' ')).length

def blockBreaks (indent : Int) : Nat → List Text → LexM (List Text)
  | 0, _ => fail
  | fuel + 1, acc => do
    skipIndent indent
    if isBreak (← peek) then
      let b ← lineBreak
      blockBreaks indent fuel (b :: acc)
    else return acc.reverse

structure BlockText where
  text : Text
  lastBreak : Text
  breaks : List Text

def atBlockLine (indent : Int) : LexM Bool := do
  let l ← get
  return (l.column : Int) == indent && !l.input.isEmpty

def isInset (c : CodePoint) : Bool := c == ' ' || c == '\t'

def blockLines (fold : Bool) (indent : Int) (whole : Nat) : Nat → BlockText → LexM BlockText
  | 0, _ => fail
  | fuel + 1, acc => do
    let flush := !isInset (← peek)
    let line ← takeRun fun c => !isBreak c
    let lastBreak ← lineBreak
    let breaks ← blockBreaks indent whole []
    let text := acc.text ++ acc.breaks.flatten ++ line
    if ← atBlockLine indent then
      let joint : Text :=
        if fold && lastBreak == "\n" && flush && !isInset (← peek) then
          if breaks.isEmpty then " " else []
        else lastBreak
      blockLines fold indent whole fuel ⟨text ++ joint, lastBreak, breaks⟩
    else return ⟨text, lastBreak, breaks⟩

def blockScalar (fold : Bool) : LexM Text := do
  forward 1
  let (chomp, increment) ← blockHeader
  restOfLine
  let l ← get
  let fuel := l.input.length + 2
  let least : Int := max 1 (l.indent + 1)
  let (breaks, indent) ← match increment with
    | none => do
      let (breaks, deepest) ← blockIndentation fuel 0 []
      pure (breaks, max least deepest)
    | some n => do
      let indent := least + n - 1
      let breaks ← blockBreaks indent fuel []
      pure (breaks, indent)
  let block ← if ← atBlockLine indent then blockLines fold indent fuel fuel ⟨[], [], breaks⟩
    else pure ⟨[], [], breaks⟩
  return match chomp with
    | .strip => block.text
    | .clip => block.text ++ block.lastBreak
    | .keep => block.text ++ block.lastBreak ++ block.breaks.flatten

end XmlHarvest.Yaml
