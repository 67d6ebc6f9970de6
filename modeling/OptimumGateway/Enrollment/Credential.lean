import OptimumGateway.Foundation.GoError
import OptimumGateway.Foundation.TextEncoding

/-!
# Keys and credentials of a gateway

The pure part of `pkg/service/enrollment/enrollment.go`: the public key in wire
shape and its RFC 7638 thumbprint, the credential, and the checks that a loaded
credential must pass.

A private key is a value of an arbitrary type `Key`.  `KeyOps` holds what the
cryptographic packages do with it: the SEC 1 encoding of the public half and the
hash of the thumbprint.  A PKCS #8 blob is represented by what
`x509.ParsePKCS8PrivateKey` finds in it, so a blob that was marshalled from a key
is `PKCS8.p256` of that key.
-/

namespace OptimumGateway
namespace Enrollment

open Foundation

structure KeyOps (Key : Type) where
  publicBytes : Key → Except GoError (List UInt8)
  sha256 : List UInt8 → List UInt8

/-- Contents of a PKCS #8 blob. -/
inductive PKCS8 (Key : Type) where
  | p256 (key : Key)
  | empty
  | malformed (err : GoError)
  | notECDSA (typeName : String)
  | otherCurve
deriving DecidableEq

structure PublicJWK where
  crv : String
  kty : String
  x : String
  y : String
deriving DecidableEq

structure Credential (Key : Type) where
  clientID : String
  type : String
  chainID : String
  thumbprint : String
  peerID : String
  privateKey : PKCS8 Key
  enrolledAt : Int
deriving DecidableEq

def coordLen : Nat := 32

section Keys

variable {Key : Type} (ops : KeyOps Key)

def jwkFromPublic (key : Key) : Except GoError PublicJWK :=
  match ops.publicBytes key with
  | .error err => .error (.wrapf "enrollment: encode public key: %w" [] err)
  | .ok raw =>
      if raw.length ≠ 1 + 2 * coordLen ∨ raw.head? ≠ some 4 then
        .error (.errorf "enrollment: unexpected public key encoding (%d bytes)"
          [toString raw.length])
      else
        .ok {
          crv := "P-256"
          kty := "EC"
          x := rawURLEncodeToString ((raw.drop 1).take coordLen)
          y := rawURLEncodeToString (raw.drop (1 + coordLen)) }

/-- The text that `json.Marshal` writes for the key: the fields in the order of
their declaration. -/
def PublicJWK.canonical (j : PublicJWK) : String :=
  "\x7b\"crv\":" ++ jsonString j.crv ++ ",\"kty\":" ++ jsonString j.kty ++
    ",\"x\":" ++ jsonString j.x ++ ",\"y\":" ++ jsonString j.y ++ "\x7d"

def PublicJWK.thumbprint (j : PublicJWK) : String :=
  rawURLEncodeToString (ops.sha256 j.canonical.toUTF8.data.toList)

/-- The thumbprint of a private key, where its public half can be encoded. -/
def keyThumbprint (key : Key) : Except GoError String := do
  let jwk ← jwkFromPublic ops key
  pure (jwk.thumbprint ops)

/-- `ensureKey`: the parsed private key of the credential. -/
def Credential.ensureKey (c : Credential Key) : Except GoError Key :=
  match c.privateKey with
  | .p256 key => .ok key
  | .empty => .error (.new "enrollment: credential has no private key")
  | .malformed err =>
      .error (.wrapf "enrollment: parse private key: %w" [] err)
  | .notECDSA typeName =>
      .error (.errorf "enrollment: private key is %T, want *ecdsa.PrivateKey"
        [typeName])
  | .otherCurve => .error (.new "enrollment: private key is not P-256")

def credentialFile : String := "enrollment.json"

def pendingKeyFile : String := "enrollment.key"

def credentialPath (dir : String) : String :=
  filepathJoin dir credentialFile

/-- The checks of `Load` on a credential that was read. -/
def checkCredential
    (dir : String)
    (c : Credential Key) : Except GoError (Credential Key) := do
  if c.clientID = "" then
    throw (.errorf "enrollment: %s has no client_id" [credentialPath dir])
  let key ← c.ensureKey
  let derived ← keyThumbprint ops key
  if derived ≠ c.thumbprint then
    throw (.errorf
      "enrollment: %s pairs client_id %s with a key whose thumbprint is %s, not the recorded %s"
      [credentialPath dir, c.clientID, derived, c.thumbprint])
  pure c

end Keys

end Enrollment
end OptimumGateway
