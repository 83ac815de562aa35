import ClassKit.Key.Der

/-!
# RSA keys

The login key is RSA. A public key comes as a `SubjectPublicKeyInfo` (SPKI) and a private key as
a PKCS#8 `PrivateKeyInfo`; both name their algorithm, which must be `rsaEncryption` with NULL
parameters, and wrap the PKCS#1 key structure.

A public key is accepted when its modulus is odd and at most 4096 bits long, and its exponent is
odd, at least 2, at most `2^33 - 1` and below the modulus. A private key must also be two-prime,
the primes must multiply to the modulus, and `d × e` must be 1 modulo each prime less one.
-/

namespace ClassKit

/-- The object identifier `1.2.840.113549.1.1.1` of RSA keys. -/
def rsaEncryption : List UInt8 := [0x2a, 0x86, 0x48, 0x86, 0xf7, 0x0d, 0x01, 0x01, 0x01]

/-- Why a public key could not be read. -/
inductive SpkiError where
  | asn1 (err : DerError)
  | parametersMissing
  | keyMalformed
  | oidUnknown (oid : String)
  deriving DecidableEq, Repr

namespace SpkiError

def message : SpkiError → String
  | asn1 err => s!"ASN.1 error: {err.text}"
  | parametersMissing => "AlgorithmIdentifier parameters missing"
  | keyMalformed => "SPKI cryptographic key data malformed"
  | oidUnknown oid => s!"unknown/unsupported algorithm OID: {oid}"

end SpkiError

/-- Why a private key could not be read. -/
inductive Pkcs8Error where
  | asn1 (err : DerError)
  | keyMalformed
  | publicKey (err : SpkiError)
  deriving DecidableEq, Repr

namespace Pkcs8Error

def message : Pkcs8Error → String
  | asn1 err => s!"PKCS#8 ASN.1 error: {err.text}"
  | keyMalformed => "PKCS#8 cryptographic key data malformed"
  | publicKey err => s!"public key error: {err.message}"

/-- A problem with the algorithm, as a private key problem. -/
def ofSpki : SpkiError → Pkcs8Error
  | .asn1 err => asn1 err
  | err => publicKey err

end Pkcs8Error

/-- An RSA public key. -/
structure RsaPublic where
  modulus : Nat
  exponent : Nat
  deriving DecidableEq, Repr

/-- An RSA private key: the public key, the private exponent and the primes. -/
structure RsaPrivate where
  modulus : Nat
  exponent : Nat
  privateExponent : Nat
  primes : List Nat
  deriving DecidableEq, Repr

/-- The number of bits of a natural number. -/
def bitLength (n : Nat) : Nat := if n = 0 then 0 else Nat.log2 n + 1

namespace RsaPublic

/-- Whether the key is usable: see the module documentation. -/
def isValid (key : RsaPublic) : Bool :=
  bitLength key.modulus ≤ 4096 && key.exponent < Nat.pow 2 64 &&
    key.exponent < key.modulus && key.modulus % 2 == 1 && key.exponent % 2 == 1 &&
    2 ≤ key.exponent && key.exponent ≤ Nat.pow 2 33 - 1

end RsaPublic

namespace RsaPrivate

def toPublic (key : RsaPrivate) : RsaPublic := ⟨key.modulus, key.exponent⟩

/-- Whether the key is consistent: a valid public key, primes at least 1 multiplying to the
modulus, and `d × e ≡ 1` modulo each prime less one. -/
def isValid (key : RsaPrivate) : Bool :=
  key.toPublic.isValid && key.primes.all (1 ≤ ·) &&
    key.primes.foldl (· * ·) 1 == key.modulus &&
    key.primes.all fun prime => key.privateExponent * key.exponent % (prime - 1) == 1

end RsaPrivate

namespace DerM

/-- An algorithm identifier: the object identifier and the parameters, if any. -/
def algorithmIdentifier : DerM (List UInt8 × Option (DerTag × List UInt8)) :=
  sequenceOf do
    let oid ← element objectIdentifier
    let parameters ← element optionalAny
    pure (oid, parameters)

/-- The implicitly tagged `[number]` BIT STRING of a window, if present; lower-numbered
context-specific values before it are read as explicitly tagged bit strings. -/
def contextBitString (number : Nat) : Nat → DerM (Option (Nat × List UInt8))
  | 0 => pure none
  | fuel + 1 => do
    match ← peekByte with
    | none => pure none
    | some byte =>
      match ← tagOfByte byte with
      | .contextSpecific _ found =>
        if found > number then pure none
        else if found == number then do
          let header ← readHeader
          let value ← bitStringContents header
          if header.tag.isConstructed then raise (.noncanonical header.tag)
          else pure (some value)
        else do
          element do
            let header ← readHeader
            match header.tag with
            | .contextSpecific true _ => discard (nestedIn header.length bitString)
            | tag => raise (.tagUnexpected none tag)
          contextBitString number fuel
      | _ => pure none

/-- Skips the explicitly tagged context-specific values left in a window. -/
def skipExtensions : Nat → DerM Unit
  | 0 => pure ()
  | fuel + 1 => do
    if ← isFinished then pure ()
    else
      element do
        let header ← readHeader
        match header.tag with
        | .contextSpecific true _ => discard (nestedIn header.length anyValue)
        | tag => raise (.tagUnexpected none tag)
      skipExtensions fuel

/-- The optional list of further primes of a multi-prime key. -/
def otherPrimes : DerM (Option Nat) := do
  match ← peekByte with
  | none => pure none
  | some byte =>
    if (← tagOfByte byte) != .sequence then pure none
    else
      let fuel := (← get).bytes.size
      let rec items : Nat → Nat → DerM Nat
        | 0, count => pure count
        | fuel + 1, count => do
          if ← isFinished then pure count
          else
            sequenceOf do
              for _ in [0, 1, 2] do
                discard (element unsigned)
            items fuel (count + 1)
      some <$> sequenceOf (items fuel 0)

/-- Runs a reader over all of `bytes`. -/
def runAll {α : Type} (bytes : List UInt8) (action : DerM α) : Except DerError α :=
  (do let value ← action; finish; pure value : DerM α).run.run { bytes := bytes.toArray } |>.1

end DerM

open DerM in
/-- The PKCS#1 public key structure: modulus and exponent. -/
def readPkcs1Public (bytes : List UInt8) : Except DerError RsaPublic :=
  runAll bytes <| sequenceOf do
    let modulus ← element unsigned
    let exponent ← element unsigned
    pure { modulus, exponent }

open DerM in
/-- The PKCS#1 private key structure; its version says whether further primes follow. -/
def readPkcs1Private (bytes : List UInt8) : Except DerError (RsaPrivate × Bool) :=
  runAll bytes <| sequenceOf do
    let multi ← match ← smallUnsigned with
      | 0 => pure false
      | 1 => pure true
      | _ => raise (.value .integer)
    let modulus ← element unsigned
    let exponent ← element unsigned
    let privateExponent ← element unsigned
    let first ← element unsigned
    let second ← element unsigned
    for _ in [0, 1, 2] do
      discard (element unsigned)
    let others ← element otherPrimes
    if multi != others.isSome then raiseHere (.value .integer)
    else pure ({ modulus, exponent, privateExponent, primes := [first, second] }, others.isSome)

/-- Checks the algorithm is `rsaEncryption` with NULL parameters. -/
def checkAlgorithm (algorithm : List UInt8 × Option (DerTag × List UInt8)) : Except SpkiError Unit :=
  if algorithm.1 != rsaEncryption then .error (.oidUnknown "1.2.840.113549.1.1.1")
  else
    match algorithm.2 with
    | none => .error .parametersMissing
    | some (tag, contents) => if tag == .null && contents.isEmpty then .ok () else .error .keyMalformed

open DerM in
/-- The public key of a DER `SubjectPublicKeyInfo`. -/
def readSpki (bytes : List UInt8) : Except SpkiError RsaPublic := do
  let (algorithm, (unused, key)) ← (runAll bytes <| sequenceOf do
    let algorithm ← element algorithmIdentifier
    let key ← bitString
    pure (algorithm, key)).mapError SpkiError.asn1
  checkAlgorithm algorithm
  if unused != 0 then throw .keyMalformed
  let publicKey ← (readPkcs1Public key).mapError SpkiError.asn1
  if publicKey.isValid then pure publicKey else throw .keyMalformed

open DerM in
/-- The private key of a DER PKCS#8 `PrivateKeyInfo`. A version 2 structure must carry the
public key as `[1]`. -/
def readPkcs8 (bytes : List UInt8) : Except Pkcs8Error RsaPrivate := do
  let (algorithm, privateKey) ← (runAll bytes <| sequenceOf do
    let withPublic ← match ← smallUnsigned with
      | 0 => pure false
      | 1 => pure true
      | _ => raise (.value .integer)
    let algorithm ← element algorithmIdentifier
    let privateKey ← octetString
    let publicKey ← contextBitString 1 (← get).bytes.size
    let publicKey ← publicKey.mapM fun (unused, key) =>
      if unused == 0 then pure key else raise (.value .bitString)
    if withPublic != publicKey.isSome then raiseHere (.value (.contextSpecific true 1))
    else
      skipExtensions (← get).bytes.size
      pure (algorithm, privateKey)).mapError Pkcs8Error.asn1
  (checkAlgorithm algorithm).mapError Pkcs8Error.ofSpki
  let (key, multi) ← (readPkcs1Private privateKey).mapError Pkcs8Error.asn1
  if multi then throw .keyMalformed
  if key.isValid then pure key else throw .keyMalformed

end ClassKit
