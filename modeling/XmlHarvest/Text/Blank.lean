import XmlHarvest.Text.CodePoint

/-! # White space

Which characters are white space, trimming at both ends, collapsing of inner
runs, and the words of a text. -/
set_option autoImplicit false

namespace XmlHarvest.Text

/-- White space is the Unicode property of that name together with the four
information separators `U+001C` to `U+001F`. -/
def isBlank (c : CodePoint) : Bool :=
  let n := c.toNat
  (9 ≤ n && n ≤ 13) || (28 ≤ n && n ≤ 32) || n == 0x85 || n == 0xA0 || n == 0x1680 ||
  (0x2000 ≤ n && n ≤ 0x200A) || n == 0x2028 || n == 0x2029 || n == 0x202F || n == 0x205F ||
  n == 0x3000

section Ends

variable {α : Type}

/-- The part of `cs` before its trailing run of characters satisfying `p`. -/
def dropEnd (p : α → Bool) (cs : List α) : List α :=
  (cs.reverse.dropWhile p).reverse

/-- `cs` without the characters satisfying `p` at its two ends. -/
def stripOf (p : α → Bool) (cs : List α) : List α :=
  dropEnd p (cs.dropWhile p)

end Ends

def trim (cs : Text) : Text :=
  stripOf isBlank cs

/-- Each maximal run of white space becomes one space. -/
def collapse : Text → Text
  | [] => []
  | c :: rest =>
    if isBlank c then
      match rest with
      | [] => [' ']
      | d :: _ => if isBlank d then collapse rest else ' ' :: collapse rest
    else c :: collapse rest

def words : Text → List Text
  | [] => []
  | c :: rest =>
    if isBlank c then words rest
    else
      match rest, words rest with
      | d :: _, w :: ws => if isBlank d then [c] :: w :: ws else (c :: w) :: ws
      | _, ws => [c] :: ws

/-- A trimmed text in which every inner run of white space is one space. -/
def squished (s : Text) : Text := collapse (trim s)

def isBlankText (s : Text) : Bool := s.all isBlank

example : squished " a \t b\u3000" = "a b" := by decide

end XmlHarvest.Text
