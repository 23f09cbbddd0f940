import XmlHarvest.Number.Binary64
import XmlHarvest.Text.CodePoint

/-! # The text of a double-precision number

The fewest decimal digits that read back to the number.  For one digit, two
digits, and so on, the two neighbours of the number on that decimal grid are
tested against the interval of reals that round to the number; the first grid
with a hit wins, of two hits the nearer, and of two equally near ones the
even. -/
set_option autoImplicit false

namespace XmlHarvest.Binary64

/-- A decimal `digits · 10 ^ power`. -/
structure Decimal where
  digits : Nat
  power : Int
  deriving DecidableEq, Repr

/-- The least `k ≤ 0` with `num / den < 10 ^ k`, for a fraction below one; the
fuel bounds the number of leading zeros. -/
def leadingZeros : Nat → Nat → Nat → Nat
  | 0, _, _ => 0
  | fuel + 1, num, den => if 10 * num < den then leadingZeros fuel (10 * num) den + 1 else 0

/-- The `k` with `10 ^ (k - 1) ≤ num / den < 10 ^ k`, for a fraction of at
least `10 ^ -400`. -/
def decimalOrder (num den : Nat) : Int :=
  if den ≤ num then ((Nat.toDigits 10 (num / den)).length : Int)
  else -(leadingZeros 400 num den : Int)

def stripZeros : Nat → Decimal → Decimal
  | 0, d => d
  | fuel + 1, d =>
    if d.digits != 0 && d.digits % 10 == 0 then stripZeros fuel ⟨d.digits / 10, d.power + 1⟩ else d

/-- The interval of reals that round to a number, in quarters of
`2 ^ exponent`. -/
structure Interval where
  low : Nat
  value : Nat
  high : Nat
  closed : Bool

def interval (mantissa : Nat) (exponent : Int) : Interval :=
  let below := if mantissa == twoTo 52 && exponent != -1074 then 1 else 2
  ⟨4 * mantissa - below, 4 * mantissa, 4 * mantissa + 2, mantissa % 2 == 0⟩

/-- The decimal of `count` digits in the interval that is nearest to the
number `value / 4 · scale`, where `scale` is the fraction `num / den` and
`order` the number's decimal order. -/
def candidate? (v : Interval) (num den : Nat) (order : Int) (count : Nat) : Option Decimal :=
  let power := order - count
  -- with `x = n / 4 · num / den`, compare `x` with `d · 10 ^ power`
  let left := num * tenTo (-power).toNat
  let right := 4 * den * tenTo power.toNat
  let below := v.value * left / right
  let above := below + 1
  let inside (d : Nat) : Bool :=
    if v.closed then v.low * left ≤ d * right && d * right ≤ v.high * left
    else v.low * left < d * right && d * right < v.high * left
  match inside below, inside above with
  | false, false => none
  | true, false => some ⟨below, power⟩
  | false, true => some ⟨above, power⟩
  | true, true =>
    let down := v.value * left - below * right
    let up := above * right - v.value * left
    if down < up || (down == up && below % 2 == 0) then some ⟨below, power⟩
    else some ⟨above, power⟩

/-- The shortest decimal that reads back to `mantissa · 2 ^ exponent`. -/
def shortest (mantissa : Nat) (exponent : Int) : Decimal :=
  if mantissa == 0 then ⟨0, 0⟩
  else
    let v := interval mantissa exponent
    let num := twoTo exponent.toNat
    let den := twoTo (-exponent).toNat
    let order := decimalOrder (mantissa * num) den
    match (List.range 17).findSome? fun n => candidate? v num den order (n + 1) with
    | some d => stripZeros 20 d
    | none => ⟨mantissa, 0⟩

/-- A decimal exponent has a sign and at least two digits. -/
def exponentText (e : Int) : Text :=
  let ds := Text.digits 10 e.natAbs
  (if e < 0 then '-' else '+') :: (if ds.length < 2 then '0' :: ds else ds)

/-- The notation of a decimal: positional with at least one place when the
leading digit stands for `10 ^ -4` to `10 ^ 15`, scientific otherwise. -/
def decimalText (d : Decimal) : Text :=
  let ds := Text.digits 10 d.digits
  let point : Int := ds.length + d.power
  if d.digits == 0 then "0.0"
  else if -4 < point && point ≤ 16 then
    if point ≤ 0 then "0." ++ List.replicate (-point).toNat (CodePoint.char '0') ++ ds
    else if d.power < 0 then ds.take point.toNat ++ "." ++ ds.drop point.toNat
    else ds ++ List.replicate d.power.toNat (.char '0') ++ (".0" : Text)
  else
    let tail : Text := match ds.drop 1 with
      | [] => []
      | more => '.' :: more
    ds.take 1 ++ tail ++ "e" ++ exponentText (point - 1)

/-- The text of a number: the shortest digits that read back. -/
def text : Binary64 → Text
  | .nan => "nan"
  | .infinite false => "inf"
  | .infinite true => "-inf"
  | .finite s m e =>
    (if s then "-" else "") ++ decimalText (shortest m e)

/-- A number with one decimal place, a tie going to the even digit. -/
def textOnePlace : Binary64 → Text
  | .finite s m e =>
    let (num, den) := fraction m e
    let tenths := roundHalfEven (10 * num) den
    (if s then "-" else "") ++ Text.digits 10 (tenths / 10) ++ "." ++
      Text.digits 10 (tenths % 10)
  | other => text other

example : text (ofDecimal false 15 (-1)) = "1.5" := by decide +kernel

end XmlHarvest.Binary64
