import XmlHarvest.Fault
import XmlHarvest.Number.Shortest
import XmlHarvest.Text.Quoted
import XmlHarvest.Value.Basic

/-! # The text of a value

`Value.text?` is the text that a value stands for, `Value.display?` the form
that shows which value it is.  They differ on texts and times: the first gives
a text itself, the second puts it in quotes.  Inside lists and maps every part is
displayed.  Both fail exactly on values that hold an integer of more than
`digitLimit` digits. -/
set_option autoImplicit false

namespace XmlHarvest

def integerText (i : Int) : Except Fault Text :=
  let ds := Text.digits 10 i.natAbs
  if digitLimit < ds.length then .error .longInteger
  else .ok (if i < 0 then '-' :: ds else ds)

namespace Scalar

def display? : Scalar → Except Fault Text
  | .null => .ok "None"
  | .bool true => .ok "True"
  | .bool false => .ok "False"
  | .int i => integerText i
  | .float x => .ok x.text
  | .str s => .ok (Text.quote s)
  | .time t => .ok t.display

def text? : Scalar → Except Fault Text
  | .str s => .ok s
  | .time t => .ok t.text
  | other => other.display?

end Scalar

namespace Value

mutual

def display? : Value → Except Fault Text
  | .scalar s => s.display?
  | .list items => do
    let parts ← displayItems items
    .ok ("[" ++ Text.joinWith ", " parts ++ "]")
  | .map entries => do
    let parts ← displayEntries entries
    .ok ("\x7b" ++ Text.joinWith ", " parts ++ "\x7d")

def displayItems : List Value → Except Fault (List Text)
  | [] => .ok []
  | v :: rest => do
    let first ← display? v
    let others ← displayItems rest
    .ok (first :: others)

def displayEntries : List (Scalar × Value) → Except Fault (List Text)
  | [] => .ok []
  | (k, v) :: rest => do
    let key ← k.display?
    let value ← display? v
    let others ← displayEntries rest
    .ok ((key ++ ": " ++ value) :: others)

end

def text? : Value → Except Fault Text
  | .scalar s => s.text?
  | other => other.display?

end Value
end XmlHarvest
