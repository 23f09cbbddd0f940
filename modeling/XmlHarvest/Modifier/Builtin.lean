import XmlHarvest.Modifier.Capability
import XmlHarvest.Modifier.Signature
import XmlHarvest.Text.Case
import XmlHarvest.Value.Coercion

/-! # Built-in modifiers

Conversions to numbers and texts, trimming, letter case, joining and a
fallback for blank values. -/
set_option autoImplicit false

namespace XmlHarvest

inductive Builtin where
  | toI
  | toF
  | toS
  | strip
  | upcase
  | downcase
  | capitalize
  | squish
  | numbersOnly
  | join
  | defaultIfBlank
  deriving DecidableEq, Repr

namespace Builtin

def all : List Builtin :=
  [toI, toF, toS, strip, upcase, downcase, capitalize, squish, numbersOnly, join, defaultIfBlank]

def name : Builtin → Text
  | toI => "to_i"
  | toF => "to_f"
  | toS => "to_s"
  | strip => "strip"
  | upcase => "upcase"
  | downcase => "downcase"
  | capitalize => "capitalize"
  | squish => "squish"
  | numbersOnly => "numbers_only"
  | join => "join"
  | defaultIfBlank => "default_if_blank"

def onText (f : Text → Text) (v : Value) : Except Fault Value := do
  .ok (.str (f (← v.plainText)))

def joinValues (args : List Value) : Except Fault Value :=
  match args.reverse with
  | separator :: last :: others => do
    let sep ← separator.text?
    let parts ← (last :: others).reverse.mapM Value.plainText
    .ok (.str (sep.intercalate parts))
  | _ => .error .joinWithoutSeparator

def orFallback (v fallback : Value) : Except Fault Value := do
  .ok (if ← v.isBlank then fallback else v)

def signature (b : Builtin) : Signature :=
  match b with
  | defaultIfBlank => ⟨b.name, ["value", "fallback"], false⟩
  | _ => ⟨b.name, ["value"], false⟩

def apply (b : Builtin) : List Value → Except Fault Value :=
  match b with
  | toI => b.signature.unary fun v => do .ok (.int (← v.toInteger))
  | toF => b.signature.unary fun v => do .ok (.float (← v.toNumber))
  | toS => b.signature.unary (onText id)
  | strip => b.signature.unary (onText Text.trim)
  | upcase => b.signature.unary (onText Text.upper)
  | downcase => b.signature.unary (onText Text.lower)
  | capitalize => b.signature.unary (onText Text.capitalize)
  | squish => b.signature.unary fun v => do .ok (.str (← v.squished))
  | numbersOnly => b.signature.unary fun v => do .ok (.str (← v.digitsOnly))
  | join => joinValues
  | defaultIfBlank => b.signature.binary orFallback

def entry (b : Builtin) : Text × Transform :=
  (b.name, fun args => Outcome.ofFault (b.apply args))

end Builtin
end XmlHarvest
