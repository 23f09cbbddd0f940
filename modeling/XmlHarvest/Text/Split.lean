/-! # Splitting and joining

Cutting a text at every occurrence of one character, and the inverse. -/
set_option autoImplicit false

namespace XmlHarvest.Text

variable {α : Type}

/-- The pieces of a text between the occurrences of `sep`; there is one more
piece than occurrences. -/
def splitOn [BEq α] (sep : α) : List α → List (List α)
  | [] => [[]]
  | c :: rest =>
    if c == sep then [] :: splitOn sep rest
    else
      match splitOn sep rest with
      | piece :: more => (c :: piece) :: more
      | [] => [[c]]

def joinWith (sep : List α) : List (List α) → List α
  | [] => []
  | [piece] => piece
  | piece :: more => piece ++ sep ++ joinWith sep more

def cutAt? [BEq α] (sep : α) : List α → Option (List α × List α)
  | [] => none
  | c :: rest =>
    if c == sep then some ([], rest)
    else (cutAt? sep rest).map fun (before, after) => (c :: before, after)

/-- `s` without `start` at its front, if it begins so. -/
def afterStart? [BEq α] (start : List α) (cs : List α) : Option (List α) :=
  match start, cs with
  | [], rest => some rest
  | _ :: _, [] => none
  | a :: as, c :: rest => if a == c then afterStart? as rest else none

def startsWith [BEq α] (start : List α) (cs : List α) : Bool :=
  (afterStart? start cs).isSome

end XmlHarvest.Text
