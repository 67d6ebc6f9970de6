import OptimumGateway.Auth.TokenManager
import OptimumGateway.Foundation.Bytes
import OptimumGateway.Foundation.Implementation
import OptimumGateway.MessageRouter.AccelerateSlots
import OptimumGateway.Protocol.Topics

/-!
# What the router lets through to the CL

This module models `ShouldForwardMessageToCLP2P` of
`pkg/service/message_router/service.go`, with `OwnClaims`, `IsEnabled` and
`HasValidToken` of `pkg/service/auth_token/manager.go` and `ShouldAccelerateBlock`.

The decision reads the cached claims twice, the clock, and the two cells of the accelerate
state.  A refresh of the token or a poll of the accelerate list may come between any two
of these reads, so they are operations of their own.  `blockGrounds_of_path` and
`attestationGrounds_of_path` say on what grounds a message is let through, in terms of the
moments at which the reads were answered.  When nothing changes in between, the moments
are one.
-/

namespace OptimumGateway
namespace MessageRouter

open Foundation Foundation.Prog Protocol Auth

section Decision

/-- The gateway types of the common library. -/
def gatewayTypePartner : String := "partner"

def gatewayTypeHermes : String := "hermes"

def gatewayTypeRelay : String := "relay"

/-- The reads of the router and of the token manager. -/
inductive RouterOp where
  | claimsLoad
  | isEnabled
  | now
  | accelerate (op : AccelerateOp)
deriving DecidableEq

abbrev RouterOp.Ans : RouterOp → Type
  | .claimsLoad => Option Claims
  | .isEnabled => Bool
  | .now => Int
  | .accelerate op => op.Ans

abbrev RouterProg := Prog RouterOp RouterOp.Ans

abbrev router (op : RouterOp) : RouterProg op.Ans := Prog.op op

def ownClaims : RouterProg (Option Claims) :=
  router .claimsLoad

/-- There are claims, they have an expiry, and it is in the future. -/
def hasValidToken : RouterProg Bool := do
  let claims ← router .claimsLoad
  match claims.bind Claims.expiresAt with
  | none => pure false
  | some expiresAt => do
      let now ← router .now
      pure (decide (now < expiresAt))

/-- The type of the gateway, empty without claims. -/
def gwType (claims : Option Claims) : String :=
  (claims.map Claims.type).getD ""

/-- `ShouldAccelerateBlock` as a part of the router. -/
def accelerates (slot : UInt64) : RouterProg Bool :=
  (shouldAccelerateBlock slot).implement fun op => router (.accelerate op)

def gwAuthorized : RouterProg Bool := do
  let enabled ← router .isEnabled
  if enabled then hasValidToken else pure false

def shouldForwardMessageToCLP2P
    (kind : TopicKind)
    (slot : UInt64)
    (_ : Bytes) : RouterProg Bool := do
  let claims ← ownClaims
  if kind = .attestation then
    pure (decide (gwType claims ≠ gatewayTypeRelay))
  else if kind = .beaconBlock then do
    let authorized ← gwAuthorized
    if authorized then
      if gwType claims = gatewayTypePartner then
        pure true
      else if gwType claims = gatewayTypeHermes then
        accelerates slot
      else
        pure false
    else
      pure false
  else
    pure false

end Decision

section Grounds

/-- What the reads are answered from. -/
structure RouterState where
  claims : Option Claims
  /-- The manager has an API key or an enrolled credential. -/
  enabled : Bool
  now : Int
  accelerate : AccelerateState

namespace RouterState

def answer : (op : RouterOp) → RouterState → op.Ans
  | .claimsLoad, w => w.claims
  | .isEnabled, w => w.enabled
  | .now, w => w.now
  | .accelerate op, w => (AccelerateState.exec op w.accelerate).1

def after : RouterOp → RouterState → RouterState
  | .accelerate op, w => { w with accelerate := (AccelerateState.exec op w.accelerate).2 }
  | _, w => w

end RouterState

/-- A token is held that has not expired. -/
def Unexpired (sometime : (RouterState → Prop) → Prop) : Prop :=
  sometime (fun w => w.enabled = true) ∧
    ∃ claims expiresAt, claims.expiresAt = some expiresAt ∧
      sometime (fun w => w.claims = some claims) ∧ sometime (fun w => w.now < expiresAt)

/-- The slot is on the accelerate list, or the list says nothing about it. -/
def Accelerated (sometime : (RouterState → Prop) → Prop) (slot : UInt64) : Prop :=
  ∃ onList toSlot, sometime (fun w => w.accelerate.listed slot = onList) ∧
    sometime (fun w => w.accelerate.accelerateToSlot = toSlot) ∧
      decideAccelerate toSlot onList slot ≠ .notOnList

/-- The grounds on which a block is let through, for what was the case at some moment. -/
def BlockGrounds (sometime : (RouterState → Prop) → Prop) (slot : UInt64) : Prop :=
  Unexpired sometime ∧
    (sometime (fun w => gwType w.claims = gatewayTypePartner) ∨
      sometime (fun w => gwType w.claims = gatewayTypeHermes) ∧ Accelerated sometime slot)

/-- The grounds on which an attestation is let through. -/
def AttestationGrounds (sometime : (RouterState → Prop) → Prop) : Prop :=
  sometime fun w => gwType w.claims ≠ gatewayTypeRelay

variable {sometime : (RouterState → Prop) → Prop} {slot : UInt64} {data : Bytes}
variable {l : List (Call RouterOp RouterOp.Ans)}

variable (hmono : ∀ P Q, (∀ w, P w → Q w) → sometime P → sometime Q)
variable (hread : ∀ o r, ⟨o, r⟩ ∈ l → sometime fun w => w.answer o = r)
include hmono hread

theorem unexpired_of_path
    (hpath : Path gwAuthorized l (.ret true)) :
    Unexpired sometime := by
  unfold gwAuthorized hasValidToken at hpath
  rw [op_bind, path_call_ret_iff] at hpath
  obtain ⟨enabled, l₁, rfl, hpath⟩ := hpath
  cases enabled with
  | false =>
      obtain ⟨-, hret⟩ := path_ret_iff.mp hpath
      cases hret
  | true =>
      rw [if_pos rfl, op_bind, path_call_ret_iff] at hpath
      obtain ⟨claims, l₂, rfl, hpath⟩ := hpath
      cases hexpiry : claims.bind Claims.expiresAt with
      | none =>
          rw [hexpiry] at hpath
          obtain ⟨-, hret⟩ := path_ret_iff.mp hpath
          cases hret
      | some expiresAt =>
          rw [hexpiry] at hpath
          simp only [op_bind, path_call_ret_iff] at hpath
          obtain ⟨now, l₃, rfl, hpath⟩ := hpath
          obtain ⟨rfl, hret⟩ := path_ret_iff.mp hpath
          have hlt : now < expiresAt := by
            simpa using hret
          obtain ⟨held, rfl, hheld⟩ := Option.bind_eq_some_iff.mp hexpiry
          refine ⟨hread .isEnabled true (by simp), held, expiresAt, hheld,
            hread .claimsLoad (some held) (by simp), ?_⟩
          refine hmono _ _ ?_ (hread .now now (by simp))
          intro w hw
          exact lt_of_eq_of_lt hw hlt

omit hmono in
theorem accelerated_of_path
    (hpath : Path (accelerates slot) l (.ret true)) :
    Accelerated sometime slot := by
  change Path (call (.accelerate (.slotsGet slot)) fun onList =>
    call (.accelerate .toSlotLoad) fun toSlot =>
      .ret (decide (decideAccelerate toSlot onList slot ≠ .notOnList))) l (.ret true) at hpath
  simp only [path_call_ret_iff] at hpath
  obtain ⟨onList, l₁, rfl, toSlot, l₂, rfl, hpath⟩ := hpath
  obtain ⟨rfl, hret⟩ := path_ret_iff.mp hpath
  refine ⟨onList, toSlot, hread (.accelerate (.slotsGet slot)) onList (by simp),
    hread (.accelerate .toSlotLoad) toSlot (by simp), ?_⟩
  simpa using hret

/-- A block is let through by an enabled manager with a token that has not expired, for a
partner, or for Hermes if its slot is accelerated. -/
theorem blockGrounds_of_path
    (hpath : Path (shouldForwardMessageToCLP2P .beaconBlock slot data) l (.ret true)) :
    BlockGrounds sometime slot := by
  unfold shouldForwardMessageToCLP2P ownClaims at hpath
  rw [op_bind, path_call_ret_iff] at hpath
  obtain ⟨claims, l', rfl, hpath⟩ := hpath
  rw [if_neg (by decide), if_pos rfl] at hpath
  obtain ⟨authorized, l₁, l₂, rfl, hauthorized, hpath⟩ := path_bind_ret hpath
  cases authorized with
  | false =>
      obtain ⟨-, hret⟩ := path_ret_iff.mp hpath
      cases hret
  | true =>
      have htype : ∀ type, gwType claims = type → sometime fun w => gwType w.claims = type := by
        intro type htype
        refine hmono _ _ ?_ (hread .claimsLoad claims (by simp))
        intro w hw
        rw [show w.claims = claims from hw]
        exact htype
      refine ⟨unexpired_of_path hmono (fun o r hmem => hread o r (by simp [hmem]))
        hauthorized, ?_⟩
      rw [if_pos rfl] at hpath
      split at hpath
      · rename_i hpartner
        exact Or.inl (htype _ hpartner)
      · split at hpath
        · rename_i hhermes
          exact Or.inr ⟨htype _ hhermes,
            accelerated_of_path (fun o r hmem => hread o r (by simp [hmem])) hpath⟩
        · obtain ⟨-, hret⟩ := path_ret_iff.mp hpath
          cases hret

/-- An attestation is let through unless the gateway is a relay. -/
theorem attestationGrounds_of_path
    (hpath : Path (shouldForwardMessageToCLP2P .attestation slot data) l (.ret true)) :
    AttestationGrounds sometime := by
  unfold shouldForwardMessageToCLP2P ownClaims at hpath
  rw [op_bind, path_call_ret_iff] at hpath
  obtain ⟨claims, l', rfl, hpath⟩ := hpath
  rw [if_pos rfl] at hpath
  obtain ⟨-, hret⟩ := path_ret_iff.mp hpath
  refine hmono _ _ ?_ (hread .claimsLoad claims (by simp))
  intro w hw
  rw [show w.claims = claims from hw]
  simpa using hret

end Grounds

end MessageRouter
end OptimumGateway
