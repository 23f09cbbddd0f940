import XmlHarvest.Yaml.Node

/-! # Reading YAML

The value of a document.  Mappings may take over the entries of others under
the merge mark; the entries taken over come first, and those written in the
mapping itself replace them.  Bytes, sets, lists of pairs and nodes that lie in
themselves have values that are not told apart here. -/
set_option autoImplicit false

namespace XmlHarvest.Yaml

def Node.isMerge : Node → Bool
  | .scalar .merge _ => true
  | _ => false

/-- The mark of the value that stands for a mapping as a whole. -/
def Node.isDefault : Node → Bool
  | .scalar .value _ => true
  | _ => false

/-- Entries of several mappings; those of the first count most. -/
def joinMerged {α : Type} (parts : List (List α)) : List α := parts.reverse.flatten

mutual

def Node.flatten : Node → Except ReadFault Node
  | .scalar tag text => .ok (.scalar tag text)
  | .sequence tag items => do .ok (.sequence tag (← flattenItems items))
  | .mapping tag entries => do
    let (merged, own) ← flattenEntries entries
    .ok (.mapping tag (merged ++ own))

def flattenItems : List Node → Except ReadFault (List Node)
  | [] => .ok []
  | n :: rest => do
    let first ← n.flatten
    let others ← flattenItems rest
    .ok (first :: others)

def flattenEntries : List (Node × Node) → Except ReadFault (List (Node × Node) × List (Node × Node))
  | [] => .ok ([], [])
  | (k, v) :: rest => do
    let value ← v.flatten
    let key ← k.flatten
    let (merged, own) ← flattenEntries rest
    if k.isMerge then
      match value with
      | .mapping _ entries => .ok (entries ++ merged, own)
      | .sequence _ items => do
        let parts ← items.mapM fun item =>
          match item with
          | .mapping _ entries => .ok entries
          | _ => .error .malformed
        .ok (joinMerged parts ++ merged, own)
      | .scalar _ _ => .error .malformed
    else .ok (merged, (key, value) :: own)

end

/-- The key that a node stands for; only scalars are keys. -/
def keyScalar : Node → Except ReadFault Scalar
  | .scalar .value text => .ok (.str text)
  | .scalar tag text => do
    match ← scalarValue tag text with
    | .scalar s => .ok s
    | _ => .error .malformed
  | _ => .error .malformed

mutual

def Node.value : Node → Except ReadFault Value
  | .scalar tag text => scalarValue tag text
  | .sequence .seq items => do .ok (.list (← itemValues items))
  | .sequence .omap _ | .sequence .pairs _ => .error (.fault .foreign)
  | .sequence _ _ => .error .malformed
  | .mapping .map entries => do .ok (.ofEntries (← entryValues entries))
  | .mapping .set _ => .error (.fault .foreign)
  | .mapping _ entries =>
    .error (if entries.any fun (k, _) => k.isDefault then .fault .foreign else .malformed)

def itemValues : List Node → Except ReadFault (List Value)
  | [] => .ok []
  | n :: rest => do
    let first ← n.value
    let others ← itemValues rest
    .ok (first :: others)

def entryValues : List (Node × Node) → Except ReadFault (List (Scalar × Value))
  | [] => .ok []
  | (k, v) :: rest => do
    let key ← keyScalar k
    let value ← v.value
    let others ← entryValues rest
    .ok ((key, value) :: others)

end

def isPrintable (c : CodePoint) : Bool :=
  let n := c.toNat
  n == 9 || n == 10 || n == 13 || (32 ≤ n && n ≤ 126) || n == 0x85 ||
    (0xA0 ≤ n && n ≤ 0xFFFD && !c.isSurrogate) || 0x10000 ≤ n

/-- How the value of a text is found. -/
abbrev Reader : Type := Text → Except ReadFault Value

def read : Reader := fun cs => do
  if !cs.all isPrintable then .error .malformed
  else
    match ← Node.ofTokens? (← tokens cs) with
    | none => .ok .null
    | some n => (← n.flatten).value

end XmlHarvest.Yaml
