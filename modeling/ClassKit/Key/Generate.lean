import ClassKit.Key.Rsa

/-!
# Generating RSA keys

A new login key pair is two random primes of 256 bits whose top two bits are set, so that their
product has exactly 512 bits; the public exponent is 65537 and the private exponent its inverse
modulo `(p - 1)(q - 1)`. Randomness comes from a seeded generator, so that generation is a
function of the seed.

Candidates are screened by trial division, then by the Miller–Rabin test with the first twenty
primes as bases. A key is saved as a DER PKCS#8 `PrivateKeyInfo` holding the PKCS#1 key with its
Chinese-remainder values.
-/

namespace ClassKit

/-- A seeded stream of pseudo-random 64-bit words (SplitMix64). -/
structure Random where
  state : UInt64
  deriving DecidableEq, Repr

namespace Random

/-- The next word, and the generator after it. -/
def next (random : Random) : UInt64 × Random :=
  let state := random.state + 0x9E3779B97F4A7C15
  let z := (state ^^^ (state >>> 30)) * 0xBF58476D1CE4E5B9
  let z := (z ^^^ (z >>> 27)) * 0x94D049BB133111EB
  (z ^^^ (z >>> 31), ⟨state⟩)

/-- A number of `words` random words. -/
def words : Nat → Random → Nat × Random
  | 0, random => (0, random)
  | count + 1, random =>
    let (word, random) := random.next
    let (rest, random) := words count random
    (rest * 2 ^ 64 + word.toNat, random)

end Random

/-- `base ^ exponent % modulus`, by squaring over the bits of the exponent. -/
def powMod (base exponent modulus : Nat) : Nat :=
  let rec go : Nat → Nat → Nat → Nat → Nat
    | 0, _, _, result => result
    | fuel + 1, base, exponent, result =>
      if exponent = 0 then result
      else
        let result := if exponent % 2 = 1 then result * base % modulus else result
        go fuel (base * base % modulus) (exponent / 2) result
  go (bitLength exponent) (base % modulus) exponent (1 % modulus)

/-- The inverse of `value` modulo `modulus`, if they are coprime, by the extended Euclidean
algorithm; each step at least halves the pair every two steps, so the bit lengths bound it. -/
def modInverse (value modulus : Nat) : Option Nat :=
  let rec go : Nat → Nat → Nat → Int → Int → Option Int
    | 0, _, _, _, _ => none
    | fuel + 1, a, b, x, y =>
      if b = 0 then (if a = 1 then some x else none)
      else go fuel b (a % b) y (x - (a / b : Nat) * y)
  (go (2 * bitLength modulus + 2) (value % modulus) modulus 1 0).map fun x =>
    (x % (modulus : Int)).toNat

/-- The primes below 200, for trial division. -/
def smallPrimes : List Nat :=
  [2, 3, 5, 7, 11, 13, 17, 19, 23, 29, 31, 37, 41, 43, 47, 53, 59, 61, 67, 71, 73, 79, 83, 89,
   97, 101, 103, 107, 109, 113, 127, 131, 137, 139, 149, 151, 157, 163, 167, 173, 179, 181, 191,
   193, 197, 199]

/-- One round of the Miller–Rabin test of odd `n > 2` with base `witness`: `n - 1 = d × 2^s`
with `d` odd, and `n` passes when `witness^d` is 1, or one of its `s` successive squares is
`n - 1`. -/
def millerRabinRound (n witness : Nat) : Bool :=
  let rec split : Nat → Nat → Nat → Nat × Nat
    | 0, d, s => (d, s)
    | fuel + 1, d, s => if d % 2 = 0 && d ≠ 0 then split fuel (d / 2) (s + 1) else (d, s)
  let (d, s) := split (bitLength n) (n - 1) 0
  let rec search : Nat → Nat → Bool
    | 0, _ => false
    | fuel + 1, x => x = n - 1 || search fuel (x * x % n)
  let x := powMod witness d n
  x = 1 || search s x

/-- Whether `n` is prime, up to the error of the Miller–Rabin test with twenty bases. -/
def isProbablePrime (n : Nat) : Bool :=
  if n < 2 then false
  else if smallPrimes.contains n then true
  else smallPrimes.all (fun p => n % p ≠ 0) &&
    (smallPrimes.take 20).all (millerRabinRound n)

/-- A random prime of `bits` bits with its top two bits set, other than `avoid`, whose
predecessor is coprime to 65537; `fuel` bounds the candidates tried. -/
def randomPrime (bits avoid : Nat) : Nat → Random → Option (Nat × Random)
  | 0, _ => none
  | fuel + 1, random =>
    let (raw, random) := Random.words ((bits + 63) / 64) random
    let candidate := raw % 2 ^ bits ||| 2 ^ (bits - 1) ||| 2 ^ (bits - 2) ||| 1
    if candidate ≠ avoid && (candidate - 1) % 65537 ≠ 0 && isProbablePrime candidate then
      some (candidate, random)
    else randomPrime bits avoid fuel random

/-- A new 512-bit key pair with public exponent 65537. -/
def generateKey (random : Random) : Option RsaPrivate := do
  let (p, random) ← randomPrime 256 0 10000 random
  let (q, _) ← randomPrime 256 p 10000 random
  let privateExponent ← modInverse 65537 ((p - 1) * (q - 1))
  pure { modulus := p * q, exponent := 65537, privateExponent, primes := [p, q] }

/-! ## DER encoding -/

namespace DerWriter

/-- The big-endian bytes of a number, none for zero. -/
def bigEndian (n : Nat) : List UInt8 :=
  let rec go : Nat → Nat → List UInt8 → List UInt8
    | 0, _, acc => acc
    | fuel + 1, n, acc => if n = 0 then acc else go fuel (n / 256) ((n % 256).toUInt8 :: acc)
  go (bitLength n) n []

/-- A length: one byte below 128, otherwise the count of its bytes then the bytes. -/
def length (n : Nat) : List UInt8 :=
  if n < 128 then [n.toUInt8]
  else
    let bytes := bigEndian n
    (0x80 + bytes.length).toUInt8 :: bytes

/-- A value: tag, length, contents. -/
def tlv (tag : UInt8) (contents : List UInt8) : List UInt8 :=
  tag :: length contents.length ++ contents

/-- A non-negative INTEGER, with a leading zero byte when the top bit would read as a sign. -/
def integer (n : Nat) : List UInt8 :=
  tlv 0x02 <| match bigEndian n with
    | [] => [0]
    | first :: rest => if first ≥ 0x80 then 0 :: first :: rest else first :: rest

/-- A SEQUENCE of encoded values. -/
def sequence (items : List (List UInt8)) : List UInt8 := tlv 0x30 items.flatten

end DerWriter

namespace RsaPrivate

open DerWriter in
/-- The PKCS#1 `RSAPrivateKey` of a two-prime key. -/
def encodePkcs1 (key : RsaPrivate) : List UInt8 :=
  let p := key.primes.headD 0
  let q := key.primes.getD 1 0
  sequence [integer 0, integer key.modulus, integer key.exponent, integer key.privateExponent,
    integer p, integer q, integer (key.privateExponent % (p - 1)),
    integer (key.privateExponent % (q - 1)), integer ((modInverse q p).getD 0)]

open DerWriter in
/-- The DER PKCS#8 `PrivateKeyInfo` of a two-prime key. -/
def encodePkcs8 (key : RsaPrivate) : List UInt8 :=
  sequence [integer 0, sequence [tlv 0x06 rsaEncryption, [0x05, 0x00]],
    tlv 0x04 key.encodePkcs1]

end RsaPrivate

end ClassKit
