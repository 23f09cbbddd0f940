import XmlHarvest.Error

/-! # Numbers of arguments

A modifier with a fixed list of parameters refuses any other number of
arguments before it looks at them. -/
set_option autoImplicit false

namespace XmlHarvest

/-- A modifier's name as messages give it, and the names of its parameters.  A
member of an object counts the object as one more argument. -/
structure Signature where
  callee : Text
  params : List Text
  ofObject : Bool := false

namespace Signature

def check (s : Signature) (args : List Value) : Except Fault Unit :=
  let extra := if s.ofObject then 1 else 0
  if args.length < s.params.length then
    .error (.missingArguments s.callee (s.params.drop args.length))
  else if s.params.length < args.length then
    .error (.extraArguments s.callee (s.params.length + extra) (args.length + extra))
  else .ok ()

end Signature

def Signature.unary (s : Signature) (f : Value → Except Fault Value) (args : List Value) :
    Except Fault Value :=
  match s.check args, args with
  | .error fault, _ => .error fault
  | .ok _, [v] => f v
  | .ok _, _ => .ok .null

def Signature.binary (s : Signature) (f : Value → Value → Except Fault Value)
    (args : List Value) : Except Fault Value :=
  match s.check args, args with
  | .error fault, _ => .error fault
  | .ok _, [v, w] => f v w
  | .ok _, _ => .ok .null

def Signature.ternary (s : Signature) (f : Value → Value → Value → Except Fault Value)
    (args : List Value) : Except Fault Value :=
  match s.check args, args with
  | .error fault, _ => .error fault
  | .ok _, [u, v, w] => f u v w
  | .ok _, _ => .ok .null

end XmlHarvest
