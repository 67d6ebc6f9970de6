import OptimumGateway.Auth.TokenManager
import OptimumGateway.Foundation.GoTime

/-!
# How long a token can be presented

This module bounds the time over which `Verify` of
`pkg/service/jwks_verifier/verifier.go` accepts one token.

Three tolerances meet.  The JWT library accepts an issue time that is up to `clockSkew`
ahead of the clock, and an expiry that is up to `clockSkew` behind it; `Verify` itself
accepts a lifetime of `maxTokenLifetime` and `maxTokenLifetimeSkew` more.  The issuer
chooses both times, but not their distance nor that of the first one to the clock, so a
token that was accepted once is dead after the sum (`replayWindow`).

The times are those the library reads from the token, whatever the audience and the clock
(`Timed.decodes`).
-/

namespace OptimumGateway
namespace Auth

open Foundation

section Lifetime

variable {v : Verifier} {now : Int} {rawJWT audience : String} {claims : Claims}

/-- What `Verify` has checked of a token that it accepts. -/
structure Accepted (v : Verifier) (now : Int) (rawJWT audience : String) (claims : Claims) :
    Prop where
  parsed : ∃ token, v.jwt.parseWithClaims (v.options audience) now rawJWT = .ok (token, claims)
  subject : trimSpace claims.subject ≠ ""
  lifetime : ∃ issuedAt expiresAt, claims.issuedAt = some issuedAt ∧
    claims.expiresAt = some expiresAt ∧
    expiresAt - issuedAt ≤ maxTokenLifetime + maxTokenLifetimeSkew

theorem accepted_of_verify
    (h : v.verify now rawJWT audience = .ok claims) :
    Accepted v now rawJWT audience claims := by
  unfold Verifier.verify at h
  split at h
  · cases h
  split at h
  · cases h
  split at h
  · cases h
  · cases h
  · rename_i token parsed hparse
    split at h
    · cases h
    split at h
    · cases h
    rename_i hsubject
    split at h
    · cases h
    · rename_i issuedAt hissued
      dsimp only at h
      split at h
      · cases h
      · rename_i hlifetime
        cases h
        exact ⟨⟨_, hparse⟩, hsubject, issuedAt, _, hissued, (Option.some_get _).symm,
          Int.not_lt.mp hlifetime⟩

/-- `Sub` saturates at the largest and the smallest duration, which the check cannot tell
from the exact difference. -/
theorem lifetime_exceeds_iff_saturated
    (expiresAt issuedAt : Int) :
    (Time.saturate (expiresAt - issuedAt)).toInt > maxTokenLifetime + maxTokenLifetimeSkew
      ↔
    expiresAt - issuedAt > maxTokenLifetime + maxTokenLifetimeSkew := by
  have hbound : maxTokenLifetime + maxTokenLifetimeSkew = 21660000000000 := by decide
  have hclamp : (Time.saturate (expiresAt - issuedAt)).toInt =
      max (-2 ^ 63) (min (expiresAt - issuedAt) (2 ^ 63 - 1)) := by
    exact Int64.toInt_ofInt_of_le (by omega) (by omega)
  rw [hclamp, hbound]
  omega

end Lifetime

section Replay

/-- The checks of the library on the times of a token.  The claims are those of the token,
so they do not depend on the options or the clock. -/
structure JWTLibrary.Timed (jwt : JWTLibrary) : Prop where
  decodes : ∃ payload : String → Claims, ∀ {opts now rawJWT token claims},
    jwt.parseWithClaims opts now rawJWT = .ok (token, claims) → claims = payload rawJWT
  unexpired : ∀ {opts now rawJWT token claims expiresAt},
    jwt.parseWithClaims opts now rawJWT = .ok (token, claims) →
      claims.expiresAt = some expiresAt → now < expiresAt + opts.leeway
  issued : ∀ {opts now rawJWT token claims issuedAt}, opts.issuedAt = true →
    jwt.parseWithClaims opts now rawJWT = .ok (token, claims) →
      claims.issuedAt = some issuedAt → issuedAt ≤ now + opts.leeway

/-- Six hours and two minutes. -/
def replayWindow : Int := 6 * 3600 * second + 120 * second

theorem replayWindow_eq :
    replayWindow = clockSkew + (maxTokenLifetime + maxTokenLifetimeSkew) + clockSkew := by
  decide

variable {v : Verifier} {rawJWT : String}

/-- Two acceptances of one token are less than the window apart. -/
theorem lt_replayWindow
    (hjwt : v.jwt.Timed)
    {t u : Int} {audience audience' : String} {claims claims' : Claims}
    (ht : v.verify t rawJWT audience = .ok claims)
    (hu : v.verify u rawJWT audience' = .ok claims') :
    u < t + replayWindow := by
  obtain ⟨⟨token, hparse⟩, -, issuedAt, expiresAt, hissued, hexpires, hlifetime⟩ :=
    accepted_of_verify ht
  obtain ⟨⟨token', hparse'⟩, -, -⟩ := accepted_of_verify hu
  obtain ⟨payload, hpayload⟩ := hjwt.decodes
  have hclaims : claims' = claims := (hpayload hparse').trans (hpayload hparse).symm
  have hstart : issuedAt ≤ t + clockSkew := hjwt.issued rfl hparse hissued
  have hend : u < expiresAt + clockSkew := hjwt.unexpired hparse' (hclaims ▸ hexpires)
  rw [replayWindow_eq]
  omega

/-- A token that was accepted is rejected from the end of the window on, at any audience, and
only tokens with an expiry, an issue time and a subject are accepted. -/
theorem replay_bounded
    (hjwt : v.jwt.Timed)
    (rawJWT : String) :
    (∀ t audience claims, v.verify t rawJWT audience = .ok claims →
      ∀ u audience', t + replayWindow ≤ u →
        ∃ err, v.verify u rawJWT audience' = .error err) ∧
    ∀ t audience claims, v.verify t rawJWT audience = .ok claims →
      claims.expiresAt.isSome ∧ claims.issuedAt.isSome ∧ trimSpace claims.subject ≠ "" := by
  constructor
  · intro t audience claims ht u audience' hu
    cases hverify : v.verify u rawJWT audience' with
    | error err => exact ⟨err, rfl⟩
    | ok claims' =>
        have hlt := lt_replayWindow hjwt ht hverify
        omega
  · intro t audience claims ht
    have haccepted := accepted_of_verify ht
    obtain ⟨issuedAt, expiresAt, hissued, hexpires, -⟩ := haccepted.lifetime
    exact ⟨hexpires ▸ rfl, hissued ▸ rfl, haccepted.subject⟩

/-- A library that knows the tokens of one issuer, each with the claims that `payload`
holds for it. -/
def issuerLibrary (payload : String → Claims) : JWTLibrary where
  parseWithClaims opts now rawJWT :=
    match (payload rawJWT).expiresAt with
    | none => .error (.new "token is missing required claim: exp claim is required")
    | some expiresAt =>
        if now < expiresAt + opts.leeway ∧
            ∀ issuedAt ∈ (payload rawJWT).issuedAt, issuedAt ≤ now + opts.leeway then
          .ok (some ⟨true⟩, payload rawJWT)
        else
          .error (.new "token has invalid claims")
  expiresAt_of_required := by
    intro opts now rawJWT token claims _ hparse
    split at hparse
    · cases hparse
    · rename_i hexpires
      split at hparse
      · cases hparse
        rw [hexpires]
        rfl
      · cases hparse

theorem issuerLibrary_accepts
    {payload : String → Claims}
    {opts : ParserOptions} {now : Int}
    {token : Option ParsedToken} {claims : Claims}
    (h : (issuerLibrary payload).parseWithClaims opts now rawJWT = .ok (token, claims)) :
    claims = payload rawJWT ∧
      (∀ expiresAt ∈ claims.expiresAt, now < expiresAt + opts.leeway) ∧
      ∀ issuedAt ∈ claims.issuedAt, issuedAt ≤ now + opts.leeway := by
  unfold issuerLibrary at h
  dsimp only at h
  split at h
  · cases h
  · rename_i expiresAt hexpires
    split at h
    · rename_i htimes
      cases h
      refine ⟨rfl, ?_, htimes.2⟩
      intro other hother
      obtain rfl := Option.some.inj (hexpires.symm.trans hother)
      exact htimes.1
    · cases h

theorem issuerLibrary_timed
    (payload : String → Claims) :
    (issuerLibrary payload).Timed where
  decodes := ⟨payload, fun h => (issuerLibrary_accepts h).1⟩
  unexpired h hexpires := (issuerLibrary_accepts h).2.1 _ hexpires
  issued _ h hissued := (issuerLibrary_accepts h).2.2 _ hissued

/-- A token with the longest lifetime, issued as far ahead of the clock as is tolerated. -/
def longestClaims : Claims where
  subject := "gw-peer"
  issuedAt := some clockSkew
  expiresAt := some (clockSkew + (maxTokenLifetime + maxTokenLifetimeSkew))
  chainID := "hoodi"
  type := "partner"
  scope := ""
  cnf := none
  clusterIDs := []

def longestToken : String :=
  "eyJhbGciOiJFUzI1NiJ9.eyJzdWIiOiJndy1wZWVyIn0.c2ln"

def longestVerifier : Verifier where
  jwt := issuerLibrary fun _ => longestClaims
  expectedIssuer := "https://auth"

/-- The bound is exact: the token is accepted until the last nanosecond of the window. -/
theorem replay_bounded_longest :
    longestVerifier.jwt.Timed ∧
      longestVerifier.verify 0 longestToken audP2P = .ok longestClaims ∧
      longestVerifier.verify (replayWindow - 1) longestToken audP2P = .ok longestClaims ∧
      ∃ err, longestVerifier.verify replayWindow longestToken audP2P = .error err := by
  have htimed : longestVerifier.jwt.Timed := issuerLibrary_timed fun _ => longestClaims
  have hfirst : longestVerifier.verify 0 longestToken audP2P = .ok longestClaims := by
    decide +kernel
  refine ⟨htimed, hfirst, by decide +kernel, ?_⟩
  exact (replay_bounded htimed longestToken).1 0 audP2P longestClaims hfirst
    replayWindow audP2P (by decide)

end Replay

end Auth
end OptimumGateway
