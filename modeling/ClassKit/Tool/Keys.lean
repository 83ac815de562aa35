import ClassKit.Tool.Failure
import ClassKit.Key.Generate

/-!
# The login key

The patched client must carry the public half of the login key pair, as decimal modulus and
exponent. It comes from one of two places:

* a private key file (DER PKCS#8), read if it exists and otherwise generated and saved there;
* a key server, which publishes the public key (DER `SubjectPublicKeyInfo`) over HTTP. Only an
  answer `200 OK` is accepted.

Every key pair read or generated is logged in full.
-/

namespace ClassKit

/-- How a URL is fetched: the raw HTTP response, or why the connection failed. -/
abbrev Fetch := String → Except String (List UInt8)

namespace Fetch

/-- No network: every connection fails. -/
def unreachable : Fetch := fun _ => .error "io: Network is unreachable (os error 101)"

end Fetch

/-- A parsed HTTP response: the status code and the body. -/
structure HttpResponse where
  status : Nat
  body : List UInt8

namespace HttpResponse

/-- The index of the first `\r\n\r\n`, which ends the head. -/
def headEnd (bytes : List UInt8) : Option Nat :=
  (List.range bytes.length).find? fun index => (bytes.drop index).take 4 == [13, 10, 13, 10]

/-- Reads a response: a status line `HTTP/1.x CODE REASON`, header lines, an empty line, and the
body, cut to `Content-Length` when that is given. -/
def parse (bytes : List UInt8) : Option HttpResponse := do
  let stop ← headEnd bytes
  let head ← String.fromUTF8? (ByteArray.mk (bytes.take stop).toArray)
  let lines := head.splitOn "\r\n"
  let statusLine ← lines.head?
  let words := statusLine.splitOn " "
  let version ← words.head?
  if !(version == "HTTP/1.1" || version == "HTTP/1.0") then none
  let code ← (words.getD 1 "").toNat?
  if code < 100 || code > 999 then none
  let body := bytes.drop (stop + 4)
  let declared := (lines.drop 1).findSome? fun line =>
    match line.splitOn ":" with
    | [name, value] => if name.toLower == "content-length" then value.trimAscii.toString.toNat? else none
    | _ => none
  pure { status := code, body := match declared with
    | some length => body.take length
    | none => body }

end HttpResponse

namespace Keys

/-- The log target of key handling. -/
def target : String := "classpatch::key"

/-- Logs a key pair in full. -/
def logPair (key : RsaPrivate) : ToolM Unit := do
  ToolM.log .info target "===== RSA Key Pair Info ====="
  ToolM.log .info target s!"Public exponent: {key.exponent}"
  ToolM.log .info target s!"Private exponent: {key.privateExponent}"
  ToolM.log .info target s!"Modulus: {key.modulus}"

/-- The public key as the patcher takes it. -/
def decimalKey (modulus exponent : Nat) : ToolM PublicKey :=
  ToolM.ofExcept .patch (PublicKey.make (toString modulus) (toString exponent))

/-- The public half of a DER `SubjectPublicKeyInfo`. -/
def publicKeyFromSpki (der : List UInt8) : ToolM PublicKey := do
  let key ← ToolM.ofExcept (fun err => .key err.message) (readSpki der)
  decimalKey key.modulus key.exponent

/-- The public half of a DER PKCS#8 private key, logging the pair. -/
def publicKeyFromPkcs8 (der : List UInt8) : ToolM PublicKey := do
  let key ← ToolM.ofExcept (fun err => .key err.message) (readPkcs8 der)
  logPair key
  decimalKey key.modulus key.exponent

/-- Generates a key pair and saves the private key at `path`. -/
def generate (random : Random) (path : String) : ToolM PublicKey := do
  ToolM.log .info target "Generating new RSA key pair..."
  let some key := generateKey random | throw (.key "prime generation failed")
  ToolM.writeFile path key.encodePkcs8
  ToolM.log .info target s!"Saved private key to {path}"
  logPair key
  decimalKey key.modulus key.exponent

/-- Reads the private key at `path`, or generates one there if there is none yet. -/
def loadOrGenerate (random : Random) (path : String) : ToolM PublicKey := do
  if ← ToolM.pathExists path then
    ToolM.log .info target s!"Loading key pair from {path}"
    publicKeyFromPkcs8 (← ToolM.readFile path)
  else generate random path

/-- Fetches the public key a login server publishes. -/
def download (fetch : Fetch) (url : String) : ToolM PublicKey := do
  ToolM.log .info target s!"Downloading login key from {url}"
  let raw ← ToolM.ofExcept .http (fetch url)
  let some response := HttpResponse.parse raw | throw (.http "protocol: invalid HTTP response")
  if response.status != 200 then throw (.httpStatus response.status)
  let key ← publicKeyFromSpki response.body
  ToolM.log .info target s!"Public exponent: {key.exponent}"
  ToolM.log .info target s!"Modulus: {key.modulus}"
  pure key

end Keys

end ClassKit
