import XmlHarvest.Text.CodePoint

/-! # UTF-8

Strict decoding of bytes.  A byte sequence that is no character is refused with
its place and the reason, as is an incomplete one at the end.  A text that
arrives in chunks is decoded chunk by chunk; an incomplete sequence at the end
of a chunk is joined to the next one, and places are counted from the start of
what is decoded at once.  A text with surrogates cannot be encoded. -/
set_option autoImplicit false

namespace XmlHarvest.Text.Utf8

inductive Reason where
  | invalidStart
  | invalidContinuation
  | unexpectedEnd
  deriving DecidableEq, Repr

def Reason.text : Reason → Text
  | invalidStart => "invalid start byte"
  | invalidContinuation => "invalid continuation byte"
  | unexpectedEnd => "unexpected end of data"

structure Refusal where
  byte : UInt8
  position : Nat
  length : Nat
  reason : Reason
  deriving DecidableEq, Repr

def hexPair (b : UInt8) : Text :=
  let ds := Nat.toDigits 16 b.toNat
  "0x" ++ ofChars (if ds.length < 2 then '0' :: ds else ds)

def Refusal.message (r : Refusal) : Text :=
  "'utf-8' codec can't decode " ++
    (if r.length == 1 then
      "byte " ++ hexPair r.byte ++ " in position " ++ toString r.position
    else
      "bytes in position " ++ toString r.position ++ "-" ++ toString (r.position + r.length - 1)) ++
    ": " ++ r.reason.text

inductive Step where
  | char (c : Char) (length : Nat)
  | bad (length : Nat) (reason : Reason)
  /-- The bytes end inside a character. -/
  | incomplete

def isContinuation (b : UInt8) : Bool := 0x80 ≤ b && b ≤ 0xBF

/-- Continuation bytes: all of them are there, the first `n` are, or the bytes
end before. -/
inductive Tail where
  | whole (value : Nat)
  | broken (n : Nat)
  | short

def tail (value : Nat) (n : Nat) : Nat → List UInt8 → Tail
  | 0, _ => .whole value
  | _ + 1, [] => .short
  | more + 1, b :: rest =>
    if isContinuation b then tail (value * 64 + (b.toNat - 0x80)) (n + 1) more rest else .broken n

/-- A character of several bytes whose second byte lies between `low` and
`high`. -/
def longStep (first : Nat) (low high : UInt8) (more : Nat) (rest : List UInt8) : Step :=
  match rest with
  | [] => .incomplete
  | b :: after =>
    if b < low || high < b then .bad 1 .invalidContinuation
    else
      match tail (first * 64 + (b.toNat - 0x80)) 2 more after with
      | .whole value => .char (Char.ofNat value) (more + 2)
      | .broken n => .bad n .invalidContinuation
      | .short => .incomplete

def step : List UInt8 → Step
  | [] => .incomplete
  | b :: rest =>
    let n := b.toNat
    if n < 0x80 then .char (Char.ofNat n) 1
    else if n < 0xC2 then .bad 1 .invalidStart
    else if n < 0xE0 then longStep (n - 0xC0) 0x80 0xBF 0 rest
    else if n == 0xE0 then longStep (n - 0xE0) 0xA0 0xBF 1 rest
    else if n == 0xED then longStep (n - 0xE0) 0x80 0x9F 1 rest
    else if n < 0xF0 then longStep (n - 0xE0) 0x80 0xBF 1 rest
    else if n == 0xF0 then longStep (n - 0xF0) 0x90 0xBF 2 rest
    else if n < 0xF4 then longStep (n - 0xF0) 0x80 0xBF 2 rest
    else if n == 0xF4 then longStep (n - 0xF0) 0x80 0x8F 2 rest
    else .bad 1 .invalidStart

/-- Decodes bytes, the first of which stands at `position`.  What is left over
is an incomplete character at the end.  The fuel is the number of bytes. -/
def decodeFrom : Nat → Nat → List UInt8 → Except Refusal (List Char × List UInt8)
  | _, _, [] => .ok ([], [])
  | 0, _, bytes => .ok ([], bytes)
  | fuel + 1, position, b :: rest =>
    match step (b :: rest) with
    | .char c n => do
      let (cs, left) ← decodeFrom fuel (position + n) ((b :: rest).drop n)
      .ok (c :: cs, left)
    | .bad n reason => .error ⟨b, position, n, reason⟩
    | .incomplete => .ok ([], b :: rest)

def finish (size : Nat) (cs : List Char) : List UInt8 → Except Refusal (List Char)
  | [] => .ok cs
  | b :: rest => .error ⟨b, size - (rest.length + 1), rest.length + 1, .unexpectedEnd⟩

def decode (bytes : List UInt8) : Except Refusal (List Char) := do
  let (cs, left) ← decodeFrom bytes.length 0 bytes
  finish bytes.length cs left

/-- Decodes bytes in chunks, with `left` left over from the chunks before. -/
def decodeChunks (size : Nat) : Nat → List UInt8 → List UInt8 → Except Refusal (List Char)
  | 0, left, _ => finish left.length [] left
  | _, left, [] => finish left.length [] left
  | fuel + 1, left, b :: rest => do
    let chunk := left ++ (b :: rest).take size
    let (cs, left) ← decodeFrom chunk.length 0 chunk
    let more ← decodeChunks size fuel left ((b :: rest).drop size)
    .ok (cs ++ more)

def decodeStream (bytes : List UInt8) : Except Refusal (List Char) :=
  decodeChunks 8192 (bytes.length + 1) [] bytes

def encodeChars (cs : List Char) : List UInt8 := cs.flatMap String.utf8EncodeChar

/-- Surrogates that stand together: the first of them, its place and their
number. -/
structure Surrogates where
  first : Fin 2048
  position : Nat
  length : Nat
  deriving DecidableEq, Repr

def Surrogates.message (s : Surrogates) : Text :=
  "'utf-8' codec can't encode " ++
    (if s.length == 1 then
      "character '\\u" ++ ofChars (Nat.toDigits 16 (0xD800 + s.first)) ++
        "' in position " ++ toString s.position
     else
      "characters in position " ++ toString s.position ++ "-" ++
        toString (s.position + s.length - 1)) ++
    ": surrogates not allowed"

def encode (text : Text) : Except Surrogates (List UInt8) :=
  match text.dropWhile (!·.isSurrogate) with
  | .surrogate n :: rest =>
    .error ⟨n, (text.takeWhile (!·.isSurrogate)).length,
      (rest.takeWhile (·.isSurrogate)).length + 1⟩
  | _ => .ok (encodeChars (text.filterMap CodePoint.char?))

/-- The bytes of a code point in the name of a file, where `U+DC80` to `U+DCFF`
stand for single bytes. -/
def nameBytes : CodePoint → List UInt8
  | .char c => String.utf8EncodeChar c
  | .surrogate n => if 0x480 ≤ n.val && n.val < 0x500 then [.ofNat (n - 0x400)] else []

def hasName (c : CodePoint) : Bool := !(nameBytes c).isEmpty

/-- The surrogates for which no name of a file has bytes. -/
def nameProblem? (text : Text) : Option Surrogates :=
  match text.dropWhile hasName with
  | .surrogate n :: rest =>
    some ⟨n, (text.takeWhile hasName).length,
      (rest.takeWhile (·.isSurrogate)).length + 1⟩
  | _ => none

/-- A text file's lines end with line feeds, whatever they ended with. -/
def universalLines : List Char → List Char
  | '\r' :: '\n' :: rest => '\n' :: universalLines rest
  | '\r' :: rest => '\n' :: universalLines rest
  | c :: rest => c :: universalLines rest
  | [] => []

end XmlHarvest.Text.Utf8
