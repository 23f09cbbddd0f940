import XmlHarvest.Number.Binary64
import XmlHarvest.Ordered
import XmlHarvest.Value.Timestamp

/-! # Values

The data that schema documents hold and that extraction produces: scalars,
lists, and maps whose keys are scalars.  Maps keep their keys in order of first
insertion. -/
set_option autoImplicit false

namespace XmlHarvest

inductive Scalar where
  | null
  | bool (b : Bool)
  | int (i : Int)
  | float (x : Binary64)
  | str (s : Text)
  | time (t : Timestamp)
  deriving DecidableEq, Repr, Inhabited

inductive Value where
  | scalar (s : Scalar)
  | list (items : List Value)
  | map (entries : List (Scalar × Value))
  deriving Repr, Inhabited

namespace Scalar

/-- The integer that a scalar is numerically: truth values are zero and one. -/
def integer? : Scalar → Option Int
  | .bool b => some (if b then 1 else 0)
  | .int i => some i
  | .float x => x.toInt?
  | _ => none

/-- Keys are the same when they are equal texts, both null, numerically equal, or
the same time; so `1`, `1.0` and `true` are one key, and a NaN is never the same as
another key. -/
def same : Scalar → Scalar → Bool
  | .null, .null => true
  | .str s, .str t => s == t
  | .float x, .float y => x.same y
  | .time t, .time u => t.same u
  | a, b =>
    match a.integer?, b.integer? with
    | some i, some j => i == j
    | _, _ => false

/-- A scalar counts as true unless it is null, false, zero or empty. -/
def truthy : Scalar → Bool
  | .null => false
  | .bool b => b
  | .int i => i != 0
  | .float x => !x.isZero
  | .str s => s != ""
  | .time _ => true

def typeName : Scalar → Text
  | .null => "NoneType"
  | .bool _ => "bool"
  | .int _ => "int"
  | .float _ => "float"
  | .str _ => "str"
  | .time t => t.typeName

end Scalar

namespace Value

def null : Value := .scalar .null
def bool (b : Bool) : Value := .scalar (.bool b)
def int (i : Int) : Value := .scalar (.int i)
def float (x : Binary64) : Value := .scalar (.float x)
def str (s : Text) : Value := .scalar (.str s)

instance : Coe Scalar Value := ⟨.scalar⟩

def truthy : Value → Bool
  | .scalar s => s.truthy
  | .list items => !items.isEmpty
  | .map entries => !entries.isEmpty

def typeName : Value → Text
  | .scalar s => s.typeName
  | .list _ => "list"
  | .map _ => "dict"

/-- The name of a value's type as messages on operations give it: types of
times carry the name of their family. -/
def fullTypeName : Value → Text
  | .scalar (.time t) => t.fullTypeName
  | v => v.typeName

/-- The map with the given entries: a repeated key keeps its first place and
spelling and its last value. -/
def ofEntries (entries : List (Scalar × Value)) : Value :=
  .map (Ordered.ofListBy Scalar.same entries)

def record (fields : List (Text × Value)) : Value :=
  .map (fields.map fun (k, v) => (.str k, v))

def entry? (entries : List (Scalar × Value)) (key : Text) : Option Value :=
  Ordered.find? (fun k => k.same (.str key)) entries

end Value
end XmlHarvest
