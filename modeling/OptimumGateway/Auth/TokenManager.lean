import OptimumGateway.Enrollment.Credential
import OptimumGateway.Foundation.GoStrings
import Mathlib.Tactic.Common

/-!
# Verification of gateway tokens

This module models `Verify` of `pkg/service/jwks_verifier/verifier.go` and the
part of `pkg/service/auth_token/manager.go` that checks the tokens of other
gateways.

The JWT library parses and validates a token; `JWTLibrary` holds its function, with
the keys of the JWKS cache applied, and the one fact that `Verify` relies on: a
token without an expiry is refused when an expiry is required.  Times and durations
are nanoseconds.

`chainFromString` is the parser of chain names of the common library, and a chain
is its canonical name.
-/

namespace OptimumGateway
namespace Auth

open Foundation

/-- The claim `cnf`. -/
structure Confirmation where
  peerID : String
deriving DecidableEq

structure Claims where
  subject : String
  issuedAt : Option Int
  expiresAt : Option Int
  chainID : String
  type : String
  scope : String
  cnf : Option Confirmation
  clusterIDs : List String
deriving DecidableEq

/-- Options that `Verify` passes to `jwt.ParseWithClaims`. -/
structure ParserOptions where
  validMethods : List String
  issuer : String
  audience : String
  expirationRequired : Bool
  issuedAt : Bool
  leeway : Int
deriving DecidableEq

structure ParsedToken where
  valid : Bool
deriving DecidableEq

/-- `jwt.ParseWithClaims` at a time: the token, which may be nil, and its claims. -/
structure JWTLibrary where
  parseWithClaims : ParserOptions → Int → String →
    Except GoError (Option ParsedToken × Claims)
  expiresAt_of_required :
    ∀ {opts now rawJWT token claims}, opts.expirationRequired = true →
      parseWithClaims opts now rawJWT = .ok (token, claims) →
      claims.expiresAt.isSome = true

structure Verifier where
  jwt : JWTLibrary
  expectedIssuer : String

def second : Int := 1000000000

def maxTokenLifetime : Int := 6 * 3600 * second

def maxTokenLifetimeSkew : Int := 60 * second

def clockSkew : Int := 30 * second

def errInvalidToken : GoError :=
  .new "jwks_verifier: invalid token"

def audP2P : String := "p2p"

def Verifier.options (v : Verifier) (audience : String) : ParserOptions where
  validMethods := ["ES256"]
  issuer := v.expectedIssuer
  audience := audience
  expirationRequired := true
  issuedAt := true
  leeway := clockSkew

def Verifier.verify
    (v : Verifier)
    (now : Int)
    (rawJWT audience : String) : Except GoError Claims :=
  if rawJWT = "" then
    .error errInvalidToken
  else if trimSpace audience = "" then
    .error (.wrapf "%w: expected audience missing" [] errInvalidToken)
  else
    match hparse : v.jwt.parseWithClaims (v.options audience) now rawJWT with
    | .error err => .error (.wrapf2 "%w: parse token: %w" [] errInvalidToken err)
    | .ok (none, _) => .error errInvalidToken
    | .ok (some token, claims) =>
        if token.valid = false then
          .error errInvalidToken
        else if trimSpace claims.subject = "" then
          .error (.wrapf "%w: subject %q" [claims.subject] errInvalidToken)
        else
          match claims.issuedAt with
          | none => .error (.wrapf "%w: issued_at missing" [] errInvalidToken)
          | some issuedAt =>
              let expiresAt :=
                claims.expiresAt.get (v.jwt.expiresAt_of_required rfl hparse)
              if expiresAt - issuedAt > maxTokenLifetime + maxTokenLifetimeSkew then
                .error (.wrapf "%w: lifetime exceeds %s" ["6h0m0s"] errInvalidToken)
              else
                .ok claims

abbrev Chain := String

/-- What the checks read of the manager.  `New` creates the verifier of every
manager that has a key or an enrolled credential. -/
structure Manager (Key : Type) where
  apiKey : String
  cred : Option (Enrollment.Credential Key)
  verifier : Option Verifier
  claims : Option Claims
  wired : apiKey ≠ "" ∨ cred.isSome = true → verifier.isSome = true

namespace Manager

variable {Key : Type} (chainFromString : String → Except GoError Chain)

def IsEnabled (m : Manager Key) : Prop :=
  m.apiKey ≠ "" ∨ m.cred.isSome = true

instance (m : Manager Key) : Decidable m.IsEnabled :=
  inferInstanceAs (Decidable (m.apiKey ≠ "" ∨ m.cred.isSome = true))

/-- The chain of the cached claims, empty before the first mint. -/
def chain (m : Manager Key) : Chain :=
  match m.claims with
  | none => ""
  | some claims =>
      match chainFromString claims.chainID with
      | .error _ => ""
      | .ok ch => ch

/-- `VerifyToken`.  A disabled manager returns nil claims and no error. -/
def verifyToken
    (m : Manager Key)
    (now : Int)
    (rawJWT : String) : Except GoError (Option Claims) :=
  if henabled : m.IsEnabled then
    match (m.verifier.get (m.wired henabled)).verify now rawJWT audP2P with
    | .error err => .error (.wrapf "auth_token: verify JWT: %w" [] err)
    | .ok claims =>
        match chainFromString claims.chainID with
        | .error err => .error (.wrapf "auth_token: parse claims: %w" [] err)
        | .ok ch =>
            if ch ≠ m.chain chainFromString then
              .error (.errorf "chain mismatch: expected %s, got %s"
                [m.chain chainFromString, claims.chainID])
            else
              .ok (some claims)
  else
    .ok none

variable {chainFromString} {m : Manager Key} {now : Int} {rawJWT : String}

/-- Nil claims come from a disabled manager only. -/
theorem verifyToken_eq_none_iff :
    m.verifyToken chainFromString now rawJWT = .ok none
      ↔
    ¬m.IsEnabled := by
  unfold verifyToken
  split
  · rename_i henabled
    refine iff_of_false ?_ (not_not_intro henabled)
    intro h
    split at h
    · cases h
    · split at h
      · cases h
      · split at h <;> cases h
  · rename_i hdisabled
    exact iff_of_true rfl hdisabled

/-- Claims are those of a verified token whose chain is that of the manager. -/
theorem verifyToken_eq_some_iff
    {claims : Claims} :
    m.verifyToken chainFromString now rawJWT = .ok (some claims)
      ↔
    m.IsEnabled ∧
      (∃ v, m.verifier = some v ∧ v.verify now rawJWT audP2P = .ok claims) ∧
      chainFromString claims.chainID = .ok (m.chain chainFromString) := by
  unfold verifyToken
  split
  · rename_i henabled
    obtain ⟨v, hv⟩ := Option.isSome_iff_exists.mp (m.wired henabled)
    simp only [hv, Option.get_some, Option.some.injEq, exists_eq_left', henabled,
      true_and]
    split
    · rename_i err hverify
      simp [hverify]
    · rename_i claims' hverify
      rw [hverify]
      split
      · rename_i err hchain
        grind
      · rename_i ch hchain
        grind
  · rename_i hdisabled
    simp [hdisabled]

/-- A chain that is not empty is that of the cached claims. -/
theorem chain_ne_empty
    (h : m.chain chainFromString ≠ "") :
    ∃ own, m.claims = some own ∧
      chainFromString own.chainID = .ok (m.chain chainFromString) := by
  unfold chain at h ⊢
  cases hclaims : m.claims with
  | none => simp [hclaims] at h
  | some own =>
      refine ⟨own, rfl, ?_⟩
      cases hchain : chainFromString own.chainID with
      | error err => simp [hclaims, hchain] at h
      | ok ch => simp [hchain]

end Manager

end Auth
end OptimumGateway
