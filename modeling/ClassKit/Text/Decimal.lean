/-!
# Shortest decimal text of binary floating-point numbers

A finite binary float stands for every real number that rounds to it: an interval around its exact
value, closed when the mantissa is even. The *shortest text* of the float is the decimal with the
fewest significant digits inside that interval; when two decimals with that many digits lie inside,
the nearer one is taken, and an exact tie goes to the larger magnitude.

Everything is computed on natural numbers, with a float given by its bit pattern, so the result
is exact and independent of any floating-point hardware.

Two layouts of the digits are provided:

* positional (`positionalText`), which never uses an exponent: `10000000000`, `0.000001`;
* general (`generalText`), which keeps a fractional part for whole numbers (`1.0`) and switches to
  an exponent outside a range of magnitudes (`1e16`, `1.5e-5`).
-/

namespace ClassKit.Decimal

/-- The layout of an IEEE 754 binary interchange format. -/
structure BinaryFormat where
  fractionBits : Nat
  exponentBits : Nat

/-- Single precision: 23 fraction bits and 8 exponent bits. -/
def binary32 : BinaryFormat := ⟨23, 8⟩

/-- Double precision: 52 fraction bits and 11 exponent bits. -/
def binary64 : BinaryFormat := ⟨52, 11⟩

/-- What a bit pattern stands for. A finite value is `(-1)^negative * mantissa * 2^exponent`. -/
inductive Unpacked where
  | nan
  | infinite (negative : Bool)
  | finite (negative : Bool) (mantissa : Nat) (exponent : Int) (lowerGapHalved : Bool)
  deriving Repr

namespace BinaryFormat

/-- The bias of the exponent field. -/
def bias (format : BinaryFormat) : Nat := Nat.pow 2 (format.exponentBits - 1) - 1

/-- Splits a bit pattern into sign, mantissa and exponent.

`lowerGapHalved` holds when the float below is closer than the float above, which happens at the
smallest mantissa of every binade except the lowest. -/
def unpack (format : BinaryFormat) (bits : Nat) : Unpacked :=
  let fraction := bits % Nat.pow 2 format.fractionBits
  let biased := (bits / Nat.pow 2 format.fractionBits) % Nat.pow 2 format.exponentBits
  let negative := (bits / Nat.pow 2 (format.fractionBits + format.exponentBits)) % 2 == 1
  if biased == Nat.pow 2 format.exponentBits - 1 then
    if fraction == 0 then .infinite negative else .nan
  else if biased == 0 then
    .finite negative fraction (1 - (format.bias : Int) - format.fractionBits) false
  else
    .finite negative (fraction + Nat.pow 2 format.fractionBits)
      ((biased : Int) - format.bias - format.fractionBits) (fraction == 0 && biased > 1)

end BinaryFormat

/-- Compares `digits * 10^scale` with `numerator * 2^binaryScale`, exactly. -/
def compareScaled (digits : Nat) (scale : Int) (numerator : Nat) (binaryScale : Int) : Ordering :=
  compare (digits * Nat.pow 10 scale.toNat * Nat.pow 2 (-binaryScale).toNat)
    (numerator * Nat.pow 2 binaryScale.toNat * Nat.pow 10 (-scale).toNat)

/-- `⌊numerator * 2^binaryScale / 10^scale⌋`. -/
def floorScaled (numerator : Nat) (binaryScale : Int) (scale : Int) : Nat :=
  (numerator * Nat.pow 2 binaryScale.toNat * Nat.pow 10 (-scale).toNat) /
    (Nat.pow 2 (-binaryScale).toNat * Nat.pow 10 scale.toNat)

/-- Raises a guess `k` until `10^(k+1) > value`, for `value = numerator * 2^binaryScale`. -/
def raiseExponent (numerator : Nat) (binaryScale : Int) : Nat → Int → Int
  | 0, k => k
  | fuel + 1, k =>
    if compareScaled 1 (k + 1) numerator binaryScale == .gt then k
    else raiseExponent numerator binaryScale fuel (k + 1)

/-- Lowers a guess `k` until `10^k ≤ value`, for `value = numerator * 2^binaryScale`. -/
def lowerExponent (numerator : Nat) (binaryScale : Int) : Nat → Int → Int
  | 0, k => k
  | fuel + 1, k =>
    if compareScaled 1 k numerator binaryScale == .gt then lowerExponent numerator binaryScale fuel (k - 1)
    else k

/-- The exponent `k` with `10^k ≤ value < 10^(k+1)`, for a positive `value = numerator * 2^binaryScale`.

The guess from the binary length is off by at most one, so a few steps either way settle it. -/
def decimalExponent (numerator : Nat) (binaryScale : Int) : Int :=
  let guess := Int.fdiv ((binaryScale + Nat.log2 numerator) * 30103) 100000
  raiseExponent numerator binaryScale 8 (lowerExponent numerator binaryScale 8 guess)

/-- Decimal digits of a natural number, most significant first. -/
def digitsOf (n : Nat) : List Nat :=
  (Nat.toDigits 10 n).map fun c => c.toNat - '0'.toNat

/-- Removes trailing zero digits, counting how many went. -/
def stripZeros (digits : List Nat) : List Nat × Nat :=
  let kept := (digits.reverse.dropWhile (· == 0)).reverse
  (kept, digits.length - kept.length)

/-- A positive value `value * 2^unit` with the interval of reals that round to it. -/
structure RoundingInterval where
  value : Nat
  low : Nat
  high : Nat
  unit : Int
  closed : Bool

namespace RoundingInterval

/-- Whether `digits * 10^scale` lies above the lower end of the interval. -/
def above (interval : RoundingInterval) (digits : Nat) (scale : Int) : Bool :=
  match compareScaled digits scale interval.low interval.unit with
  | .gt => true
  | .eq => interval.closed
  | .lt => false

/-- Whether `digits * 10^scale` lies below the upper end of the interval. -/
def below (interval : RoundingInterval) (digits : Nat) (scale : Int) : Bool :=
  match compareScaled digits scale interval.high interval.unit with
  | .lt => true
  | .eq => interval.closed
  | .gt => false

/-- The decimal of `count` significant digits inside the interval, if one exists: of the two
neighbours of the value on that decimal grid, the one inside, or the nearer if both are, with a
tie going up. `k` is the decimal exponent of the value. -/
def candidate (interval : RoundingInterval) (k : Int) (count : Nat) : Option (Nat × Int) :=
  let scale := k - count + 1
  let down := floorScaled interval.value interval.unit scale
  match interval.above down scale, interval.below (down + 1) scale with
  | true, true =>
    if compareScaled (2 * down + 1) scale (2 * interval.value) interval.unit == .gt then
      some (down, scale)
    else some (down + 1, scale)
  | true, false => some (down, scale)
  | false, true => some (down + 1, scale)
  | false, false => none

/-- The first digit count, from `count` on, with a decimal inside the interval. Twenty digits
always suffice for the formats here; the fallback keeps the function total. -/
def search (interval : RoundingInterval) (k : Int) : Nat → Nat → Nat × Int
  | 0, _ => (floorScaled interval.value interval.unit (k - 19), k - 19)
  | fuel + 1, count =>
    match interval.candidate k count with
    | some found => found
    | none => interval.search k fuel (count + 1)

end RoundingInterval

/-- Significant digits and decimal exponent `k` of the shortest text of a positive finite float,
so that the text denotes `0.d₁d₂…dₙ × 10^k`. -/
def shortest (mantissa : Nat) (exponent : Int) (lowerGapHalved : Bool) : List Nat × Int :=
  -- In units of 2^(exponent - 2): the value, and the ends of the interval rounding to it.
  let value := 4 * mantissa
  let interval : RoundingInterval :=
    { value
      low := value - (if lowerGapHalved then 1 else 2)
      high := value + 2
      unit := exponent - 2
      closed := mantissa % 2 == 0 }
  let k := decimalExponent value interval.unit
  let (digits, scale) := interval.search k 20 1
  let (kept, dropped) := stripZeros (digitsOf digits)
  (kept, scale + dropped + kept.length)

/-- Text of a digit list. -/
def digitText (digits : List Nat) : String :=
  String.ofList (digits.map fun d => Char.ofNat ('0'.toNat + d))

/-- `n` zeros. -/
def zeros (n : Nat) : String := String.ofList (List.replicate n '0')

/-- Digits `0.d₁…dₙ × 10^k` laid out without exponent, with at least `minFraction` digits after the
point (and no point at all when there are none). -/
def positionalDigits (digits : List Nat) (k : Int) (minFraction : Nat) : String :=
  let count := digits.length
  if k ≤ 0 then
    let lead := (-k).toNat
    "0." ++ zeros lead ++ digitText digits ++ zeros (minFraction - count - lead)
  else if k.toNat < count then
    digitText (digits.take k.toNat) ++ "." ++ digitText (digits.drop k.toNat) ++
      zeros (minFraction - (count - k.toNat))
  else
    digitText digits ++ zeros (k.toNat - count) ++
      (if minFraction > 0 then "." ++ zeros minFraction else "")

/-- Digits `0.d₁…dₙ × 10^k` laid out as `d₁.d₂…dₙe(k-1)`. -/
def exponentDigits (digits : List Nat) (k : Int) : String :=
  let mantissa :=
    match digits with
    | [] => "0"
    | [d] => digitText [d]
    | d :: rest => digitText [d] ++ "." ++ digitText rest
  let power := k - 1
  mantissa ++ (if power < 0 then s!"e-{(-power).toNat}" else s!"e{power.toNat}")

/-- Text of a float without exponent: `1.5`, `10000000000`, `-0`, `NaN`, `inf`, `-inf`. -/
def positionalText (format : BinaryFormat) (bits : Nat) : String :=
  match format.unpack bits with
  | .nan => "NaN"
  | .infinite negative => if negative then "-inf" else "inf"
  | .finite negative mantissa exponent lowerGapHalved =>
    let sign := if negative then "-" else ""
    if mantissa == 0 then sign ++ "0"
    else
      let (digits, k) := shortest mantissa exponent lowerGapHalved
      sign ++ positionalDigits digits k 0

/-- Bit patterns of the smallest magnitude written without exponent and of the first magnitude
written with one again, in the general layout: the floats nearest to `1e-4` and `1e16`. -/
def generalBounds (format : BinaryFormat) : Nat × Nat :=
  if format.fractionBits == 23 then (0x38d1b717, 0x5a0e1bca)
  else (0x3f1a36e2eb1c432d, 0x4341c37937e08000)

/-- Text of a float that always shows it is not an integer type: `1.0`, `0.1`, `1e16`, `1.5e-5`,
`-0.0`, `NaN`, `inf`. -/
def generalText (format : BinaryFormat) (bits : Nat) : String :=
  match format.unpack bits with
  | .nan => "NaN"
  | .infinite negative => if negative then "-inf" else "inf"
  | .finite negative mantissa exponent lowerGapHalved =>
    let sign := if negative then "-" else ""
    if mantissa == 0 then sign ++ "0.0"
    else
      let magnitude := bits % Nat.pow 2 (format.fractionBits + format.exponentBits)
      let (small, large) := generalBounds format
      let (digits, k) := shortest mantissa exponent lowerGapHalved
      if magnitude < small || magnitude ≥ large then sign ++ exponentDigits digits k
      else sign ++ positionalDigits digits k 1

end ClassKit.Decimal
