/-!
# Binary64 numbers

Configuration files may hold numbers that are not integers. They are read the way a 64-bit IEEE
float is computed from its digits: the digits become an integer significand, which is converted
to a float and then multiplied or divided by a float power of ten, each step rounded to the
nearest float, ties to even. When such a number is reported back it is written with the fewest
significant digits that read back as the same float.

A finite float is `(-1)^negative × mantissa × 2^exponent` with `mantissa < 2^53`; normal floats
have `mantissa ≥ 2^52`, and the smallest exponent is `-1074`. Every step here is exact integer
arithmetic followed by one rounding, so the results are those of the hardware operations.
-/

namespace ClassKit

/-- A finite 64-bit float. -/
structure Binary64 where
  negative : Bool := false
  mantissa : Nat
  exponent : Int
  deriving DecidableEq, Repr

namespace Binary64

/-- The smallest exponent of a float: that of the subnormals. -/
def minExponent : Int := -1074

/-- The largest exponent of a finite float. -/
def maxExponent : Int := 971

/-- The nearest integer to `num / den`, ties to even. -/
def roundHalfEven (num den : Nat) : Nat :=
  let quotient := num / den
  let twice := 2 * (num % den)
  if twice > den then quotient + 1
  else if twice < den then quotient
  else if quotient % 2 == 0 then quotient
  else quotient + 1

/-- `num / den` divided by `2^shift`, as a fraction. -/
def scaled (num den : Nat) (shift : Int) : Nat × Nat :=
  if 0 ≤ shift then (num, den * Nat.pow 2 shift.toNat) else (num * Nat.pow 2 (-shift).toNat, den)

/-- The float nearest to the positive fraction `num / den`, or none when it is too large for a
finite float. A zero numerator gives zero. -/
def ofFraction (negative : Bool) (num den : Nat) : Option Binary64 :=
  if num = 0 ∨ den = 0 then some { negative, mantissa := 0, exponent := 0 }
  else
    -- 2^51 < num / den / 2^first < 2^53
    let first : Int := (Nat.log2 num : Int) - (Nat.log2 den : Int) - 52
    let exponent :=
      let (n, d) := scaled num den first
      if n / d < Nat.pow 2 52 then first - 1 else first
    let exponent := max exponent minExponent
    let (n, d) := scaled num den exponent
    let mantissa := roundHalfEven n d
    let (mantissa, exponent) :=
      if mantissa = Nat.pow 2 53 then (Nat.pow 2 52, exponent + 1) else (mantissa, exponent)
    if exponent > maxExponent then none else some { negative, mantissa, exponent }

/-- The float nearest to a natural number. -/
def ofNat (n : Nat) : Binary64 :=
  (ofFraction false n 1).getD { mantissa := 0, exponent := 0 }

/-- The value as a fraction of natural numbers (without the sign). -/
def fraction (x : Binary64) : Nat × Nat :=
  if 0 ≤ x.exponent then (x.mantissa * Nat.pow 2 x.exponent.toNat, 1)
  else (x.mantissa, Nat.pow 2 (-x.exponent).toNat)

/-- The rounded product, or none on overflow. -/
def mul (x y : Binary64) : Option Binary64 :=
  let (a, b) := x.fraction
  let (c, d) := y.fraction
  ofFraction (x.negative != y.negative) (a * c) (b * d)

/-- The rounded quotient by a non-zero float. -/
def div (x y : Binary64) : Binary64 :=
  let (a, b) := x.fraction
  let (c, d) := y.fraction
  (ofFraction (x.negative != y.negative) (a * d) (b * c)).getD x

/-- Whether the value is zero. -/
def isZero (x : Binary64) : Bool := x.mantissa == 0

/-- The same value with the opposite sign. -/
def neg (x : Binary64) : Binary64 := { x with negative := !x.negative }

/-- The float nearest to `10^k`. -/
def powerOfTen (k : Nat) : Binary64 := ofNat (Nat.pow 10 k)

/-- The number of decimal digits of a positive number, less one: `⌊log10 n⌋`. -/
def decimalExponent (n : Nat) : Nat :=
  (toString n).length - 1

/-- The shortest decimal `digits × 10^power` that reads back as this positive float: among the
shortest, the nearest to the float, ties to an even last digit. Reading back rounds to nearest,
so the decimal has to lie strictly between the midpoints to the neighbouring floats, or on one
of them when the mantissa is even.

Powers of ten are tried from the largest down; at each power only the two multiples around the
float can lie between the midpoints, and the first power with one that does gives the fewest
digits. -/
def shortest (x : Binary64) : Nat × Int :=
  let m := x.mantissa
  let lowerGap := if m = Nat.pow 2 52 ∧ x.exponent > minExponent then 1 else 2
  -- the float and the midpoints to its neighbours, all over the denominator `den`
  let shift : Int := x.exponent - 2
  let (factor, den) := if 0 ≤ shift then (Nat.pow 2 shift.toNat, 1) else (1, Nat.pow 2 (-shift).toNat)
  let value := 4 * m * factor
  let upper := (4 * m + 2) * factor
  let lower := (4 * m - lowerGap) * factor
  let inclusive := m % 2 == 0
  -- is `c × unitNum / unitDen` between the midpoints?
  let fits (unitNum unitDen c : Nat) : Bool :=
    let candidate := c * unitNum * den
    if inclusive then lower * unitDen ≤ candidate && candidate ≤ upper * unitDen
    else lower * unitDen < candidate && candidate < upper * unitDen
  let attempt (power : Int) : Option Nat :=
    let (unitNum, unitDen) :=
      if 0 ≤ power then (Nat.pow 10 power.toNat, 1) else (1, Nat.pow 10 (-power).toNat)
    let below := value * unitDen / (den * unitNum)
    match fits unitNum unitDen below, fits unitNum unitDen (below + 1) with
    | true, true =>
      let doubled := 2 * value * unitDen
      let middle := (2 * below + 1) * den * unitNum
      if doubled < middle then some below
      else if doubled > middle then some (below + 1)
      else if below % 2 == 0 then some below
      else some (below + 1)
    | true, false => some below
    | false, true => some (below + 1)
    | false, false => none
  let rec search : Nat → Int → Nat × Int
    | 0, power => (value / den, power)
    | fuel + 1, power =>
      match attempt power with
      | some digits => (digits, power)
      | none => search fuel (power - 1)
  search 800 (decimalExponent (value / den + 1) : Int)

/-- Removes trailing zero digits, raising the power of ten. -/
def trimZeros : Nat → Nat → Int → Nat × Int
  | 0, digits, power => (digits, power)
  | fuel + 1, digits, power =>
    if digits ≠ 0 ∧ digits % 10 == 0 then trimZeros fuel (digits / 10) (power + 1)
    else (digits, power)

/-- The float written with its shortest digits: positionally with a `.0` for integers when the
decimal point falls within sixteen digits, otherwise as `d.ddde+X`. -/
def text (x : Binary64) : String :=
  let sign := if x.negative then "-" else ""
  if x.isZero then sign ++ "0.0"
  else
    let (digits, power) := x.shortest
    let (digits, power) := trimZeros 400 digits power
    let shown := toString digits
    let length : Int := shown.length
    let point := length + power
    let body :=
      if 0 ≤ power ∧ point ≤ 16 then
        shown ++ String.ofList (List.replicate power.toNat '0') ++ ".0"
      else if 0 < point ∧ point ≤ 16 then
        String.ofList (shown.toList.take point.toNat) ++ "." ++
          String.ofList (shown.toList.drop point.toNat)
      else if -5 < point ∧ point ≤ 0 then
        "0." ++ String.ofList (List.replicate (-point).toNat '0') ++ shown
      else
        let exponent := point - 1
        let exponentText := if 0 ≤ exponent then s!"+{exponent}" else toString exponent
        let mantissaText := match shown.toList with
          | first :: rest@(_ :: _) => String.ofList (first :: '.' :: rest)
          | _ => shown
        mantissaText ++ "e" ++ exponentText
    sign ++ body

end Binary64

end ClassKit
