import XmlHarvest.Text.Split
import XmlHarvest.Yaml.Token

/-! # The state of the lexer

The text to come, the position, the indentation of the open block collections,
and the places where a key without a mark may stand.  The character zero stands
for the end of the text, which has no such character. -/
set_option autoImplicit false

namespace XmlHarvest.Yaml

/-- A place where a key may begin: the number of tokens before it and its
position.  A required one has to turn out a key. -/
structure KeyPlace where
  tokens : Nat
  required : Bool
  index : Nat
  line : Nat
  column : Nat

structure Lexer where
  input : Text
  index : Nat := 0
  line : Nat := 0
  column : Nat := 0
  flowLevel : Nat := 0
  /-- The tokens so far, last first. -/
  tokens : List Token := []
  count : Nat := 0
  indent : Int := -1
  indents : List Int := []
  keyAllowed : Bool := true
  /-- At most one place for each level of flow collections. -/
  places : List (Nat × KeyPlace) := []

abbrev LexM : Type → Type := StateT Lexer (Except ReadFault)

def fail {α : Type} : LexM α := throw .malformed

def isBreak (c : CodePoint) : Bool :=
  c == '\r' || c == '\n' || c == '\x85' || c == '\u2028' || c == '\u2029'

def isBreakOrEnd (c : CodePoint) : Bool := c == '\x00' || isBreak c

def isSpaceOrEnd (c : CodePoint) : Bool := c == ' ' || isBreakOrEnd c

def isGapOrEnd (c : CodePoint) : Bool := c == '\t' || isSpaceOrEnd c

def peek : LexM CodePoint := do return (← get).input.headD '\x00'

def peekAt (n : Nat) : LexM CodePoint := do return ((← get).input.drop n).headD '\x00'

/-- The lexer after one character.  Line breaks start a line; a byte order mark
has no width. -/
def Lexer.advance (l : Lexer) : Lexer :=
  match l.input with
  | [] => l
  | c :: rest =>
    let ends := c == '\n' || c == '\x85' || c == '\u2028' || c == '\u2029' ||
      (c == '\r' && rest.head? != some (.char '\n'))
    if ends then { l with input := rest, index := l.index + 1, line := l.line + 1, column := 0 }
    else
      { l with
        input := rest, index := l.index + 1,
        column := if c == '\ufeff' then l.column else l.column + 1 }

def Lexer.advanceBy : Nat → Lexer → Lexer
  | 0, l => l
  | n + 1, l => advanceBy n l.advance

def forward (n : Nat) : LexM Unit := modify (Lexer.advanceBy n)

def takeRun (p : CodePoint → Bool) : LexM Text := do
  let run := (← get).input.takeWhile p
  forward run.length
  return run

def skipRun (p : CodePoint → Bool) : LexM Unit := do
  let _ ← takeRun p

/-- Skips one line break.  The result is the text that stands for it, empty if
there is none. -/
def lineBreak : LexM Text := do
  match (← get).input with
  | '\r' :: '\n' :: _ =>
    forward 2
    return ['\n']
  | c :: _ =>
    if c == '\u2028' || c == '\u2029' then
      forward 1
      return [c]
    else if isBreak c then
      forward 1
      return ['\n']
    else return []
  | [] => return []

/-- Whether a document mark of three characters `mark` comes next, with
nothing but white space after it. -/
def atMark (mark : CodePoint) : LexM Bool := do
  match (← get).input with
  | a :: b :: c :: rest =>
    return a == mark && b == mark && c == mark && isGapOrEnd (rest.headD '\x00')
  | _ => return false

def atDocumentMark : LexM Bool := do
  if ← atMark '-' then return true
  atMark '.'

def push (t : Token) : LexM Unit :=
  modify fun l => { l with tokens := t :: l.tokens, count := l.count + 1 }

def insertBelow (t : Token) : Nat → List Token → List Token
  | 0, ts => t :: ts
  | _ + 1, [] => [t]
  | n + 1, u :: ts => u :: insertBelow t n ts

def insertAfter (before : Nat) (t : Token) : LexM Unit :=
  modify fun l => { l with
    tokens := insertBelow t (l.count - before) l.tokens, count := l.count + 1 }

def isWordChar (c : CodePoint) : Bool :=
  let n := c.toNat
  (48 ≤ n && n ≤ 57) || (65 ≤ n && n ≤ 90) || (97 ≤ n && n ≤ 122) || c == '-' || c == '_'

def isDigitChar (c : CodePoint) : Bool := 48 ≤ c.toNat && c.toNat ≤ 57

def hexValue? (c : CodePoint) : Option Nat :=
  let n := c.toNat
  if 48 ≤ n && n ≤ 57 then some (n - 48)
  else if 97 ≤ n && n ≤ 102 then some (n - 87)
  else if 65 ≤ n && n ≤ 70 then some (n - 55)
  else none

/-- Skips spaces, a comment and the end of the line; nothing else may stand
there. -/
def restOfLine : LexM Unit := do
  skipRun (· == ' ')
  if (← peek) == '#' then skipRun fun c => !isBreak c
  if isBreakOrEnd (← peek) then
    let _ ← lineBreak
  else fail

end XmlHarvest.Yaml
