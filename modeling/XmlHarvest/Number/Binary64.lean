/-! # Double-precision numbers

Binary floating point in exact arithmetic: a finite number is
`± mantissa · 2 ^ exponent`, and every operation rounds its exact result to the
nearest such number, a tie going to the even mantissa.  Numbers made by the
functions of this module have `mantissa < 2 ^ 53`, an exponent of at least
`-1074`, and a mantissa of at least `2 ^ 52` unless the exponent is `-1074`, so
equal numbers other than the two zeros have equal representations. -/
set_option autoImplicit false

namespace XmlHarvest

inductive Binary64 where
  | nan
  | infinite (negative : Bool)
  | finite (negative : Bool) (mantissa : Nat) (exponent : Int)
  deriving DecidableEq, Repr, Inhabited

def twoTo (n : Nat) : Nat := Nat.pow 2 n
def tenTo (n : Nat) : Nat := Nat.pow 10 n

/-- The integer nearest to `num / den`, a tie going to the even one. -/
def roundHalfEven (num den : Nat) : Nat :=
  let q := num / den
  let r := num % den
  if 2 * r < den then q
  else if den < 2 * r then q + 1
  else if q % 2 == 0 then q else q + 1

namespace Binary64

def zero : Binary64 := .finite false 0 (-1074)

/-- The exponent of the leading binary digit of `num / den`, for positive
numbers. -/
def binaryOrder (num den : Nat) : Int :=
  let k : Int := (Nat.log2 num : Int) - (Nat.log2 den : Int)
  if num * twoTo (-k).toNat < den * twoTo k.toNat then k - 1 else k

/-- The number nearest to `± num / den`.  What would need an exponent above
`971` is infinite. -/
def ofRatio (negative : Bool) (num den : Nat) : Binary64 :=
  if num == 0 then .finite negative 0 (-1074)
  else
    let e := max (binaryOrder num den - 52) (-1074)
    let m := roundHalfEven (num * twoTo (-e).toNat) (den * twoTo e.toNat)
    let (m, e) := if m == twoTo 53 then (twoTo 52, e + 1) else (m, e)
    if 971 < e then .infinite negative else .finite negative m e

/-- The number nearest to `± digits · 10 ^ power`.  Powers far outside the
range of finite numbers are settled without computing them. -/
def ofDecimal (negative : Bool) (digits : Nat) (power : Int) : Binary64 :=
  if digits == 0 then .finite negative 0 (-1074)
  else
    let order := (Nat.log2 digits : Int) * 3 / 10 + power
    if 400 < order then .infinite negative
    else if order + (Nat.log2 digits : Int) / 10 < -400 then .finite negative 0 (-1074)
    else ofRatio negative (digits * tenTo power.toNat) (tenTo (-power).toNat)

/-- The number nearest to an integer, if there is a finite one. -/
def ofInt? (i : Int) : Option Binary64 :=
  match ofRatio (decide (i < 0)) i.natAbs 1 with
  | .finite s m e => some (.finite s m e)
  | _ => none

/-- The quotient of two integers, rounded once; none when it is not finite or
the divisor is zero. -/
def quotient? (a b : Int) : Option Binary64 :=
  if b == 0 then none
  else
    match ofRatio (decide (a < 0) != decide (b < 0)) a.natAbs b.natAbs with
    | .finite s m e => some (.finite s m e)
    | _ => none

def fraction (mantissa : Nat) (exponent : Int) : Nat × Nat :=
  (mantissa * twoTo exponent.toNat, twoTo (-exponent).toNat)

def times (x : Binary64) (k : Nat) : Binary64 :=
  match x with
  | .finite s m e => let (num, den) := fraction m e; ofRatio s (num * k) den
  | other => other

def signedFraction (negative : Bool) (mantissa : Nat) (exponent : Int) : Int × Nat :=
  let (num, den) := fraction mantissa exponent
  (if negative then -(num : Int) else num, den)

def plus : Binary64 → Binary64 → Binary64
  | .nan, _ | _, .nan => .nan
  | .infinite s, .infinite t => if s == t then .infinite s else .nan
  | .infinite s, _ | _, .infinite s => .infinite s
  | .finite s m e, .finite t n f =>
    let (a, b) := signedFraction s m e
    let (c, d) := signedFraction t n f
    let sum := a * d + c * b
    if sum == 0 then .finite (s && t) 0 (-1074)
    else ofRatio (decide (sum < 0)) sum.natAbs (b * d)

def negate : Binary64 → Binary64
  | .nan => .nan
  | .infinite s => .infinite (!s)
  | .finite s m e => .finite (!s) m e

def truncate (negative : Bool) (mantissa : Nat) (exponent : Int) : Int :=
  let (num, den) := fraction mantissa exponent
  let n : Int := (num / den : Nat)
  if negative then -n else n

def toInt? : Binary64 → Option Int
  | .finite s m e =>
    let (num, den) := fraction m e
    if num % den == 0 then some (truncate s m e) else none
  | _ => none

def isZero : Binary64 → Bool
  | .finite _ m _ => m == 0
  | _ => false

/-- Numerical equality: the two zeros are equal, and nothing equals a NaN. -/
def same : Binary64 → Binary64 → Bool
  | .finite s m e, .finite s' m' e' =>
    (m == 0 && m' == 0) || (s == s' && m == m' && e == e')
  | .infinite s, .infinite s' => s == s'
  | _, _ => false

example : ofDecimal false 1 (-1) = .finite false 7205759403792794 (-56) := by decide

end Binary64
end XmlHarvest
