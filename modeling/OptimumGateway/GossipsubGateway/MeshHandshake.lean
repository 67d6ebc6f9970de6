import OptimumGateway.Auth.TokenManager
import OptimumGateway.MumP2P.Handshake

/-!
# The mesh handshake of the gateway

`handshakeHandler` of `pkg/service/gossipsub-gateway/handshake.go` is the check that
the gateway supplies to its mump2p node.  It decodes the message of a remote peer,
compares the self-asserted cluster, has the token verified by the auth manager and
then reads the verified claims.

`Authorized` states what a token must show before its holder is admitted, and
`handshakeHandler_eq_ok_iff` says that the handler admits exactly such holders,
apart from a gateway that runs without authentication.
-/

namespace OptimumGateway
namespace GossipsubGateway

open Foundation Auth MumP2P

/-- Identity of a remote peer by its text.  libp2p authenticates the peer, so the
text is not empty. -/
structure PeerID where
  text : String
  nonempty : text ≠ ""
deriving DecidableEq

/-- The message of the mesh handshake. -/
structure MeshHandshake where
  clusterID : String
  jwtToken : String
  commitHash : String
deriving DecidableEq

/-- What the handler reads of the configuration. -/
structure AuthConfig where
  gatewayClusterID : String
  enableAuth : Bool
deriving DecidableEq

def fullCapability : PeerCapability where
  canPublish := true

section Handler

variable {Key Msg : Type}
  (chainFromString : String → Except GoError Chain)
  (canPublish : Claims → Bool)
  (decode : Msg → Except GoError MeshHandshake)
  (cfg : AuthConfig)
  (authMgr : Manager Key)
  (now : Int)

/-- The part of the handler after the verification, on verified claims. -/
def admitClaims
    (peerID : PeerID)
    (claims : Claims) : Except GoError PeerCapability :=
  let gotPeerID :=
    match claims.cnf with
    | none => ""
    | some cnf => cnf.peerID
  if gotPeerID ≠ peerID.text then
    .error (.errorf "peer ID mismatch: expected %s, got %s" [peerID.text, gotPeerID])
  else if claims.clusterIDs.length = 0 then
    .error (.new "missing cluster claim")
  else if ¬claims.clusterIDs.contains cfg.gatewayClusterID then
    .error (.errorf "cluster not authorized: %s not in %v"
      [cfg.gatewayClusterID, "[" ++ " ".intercalate claims.clusterIDs ++ "]"])
  else
    .ok { canPublish := canPublish claims }

def handshakeHandler
    (peerID : PeerID)
    (msg : Msg) : Except GoError PeerCapability :=
  match decode msg with
  | .error err => .error err
  | .ok h =>
      if h.clusterID ≠ cfg.gatewayClusterID then
        .error (.errorf "invalid cluster ID: %s" [h.clusterID])
      else
        match authMgr.verifyToken chainFromString now h.jwtToken with
        | .error err => .error (.wrapf "invalid JWT token: %w" [] err)
        | .ok none =>
            if cfg.enableAuth = false then
              .ok fullCapability
            else
              .error (.new "invalid JWT token: empty claims")
        | .ok (some claims) => admitClaims canPublish cfg peerID claims

/-- The token of a peer authorizes it to join the mesh of the gateway. -/
structure Authorized
    (peerID : PeerID)
    (rawJWT : String)
    (claims : Claims) : Prop where
  enabled : authMgr.IsEnabled
  verified : ∃ v, authMgr.verifier = some v ∧
    v.verify now rawJWT audP2P = .ok claims
  sameChain : ∃ own ch, authMgr.claims = some own ∧
    chainFromString own.chainID = .ok ch ∧ chainFromString claims.chainID = .ok ch
  holder : ∃ cnf, claims.cnf = some cnf ∧ cnf.peerID = peerID.text
  member : cfg.gatewayClusterID ∈ claims.clusterIDs

variable {chainFromString} {canPublish} {decode} {cfg} {authMgr} {now}
  {peerID : PeerID} {msg : Msg} {claims : Claims} {capability : PeerCapability}

theorem admitClaims_eq_ok_iff :
    admitClaims canPublish cfg peerID claims = .ok capability
      ↔
    (∃ cnf, claims.cnf = some cnf ∧ cnf.peerID = peerID.text) ∧
      cfg.gatewayClusterID ∈ claims.clusterIDs ∧
      capability = { canPublish := canPublish claims } := by
  have hpeer : (match claims.cnf with
      | none => ""
      | some cnf => cnf.peerID) = peerID.text
      ↔
      ∃ cnf, claims.cnf = some cnf ∧ cnf.peerID = peerID.text := by
    cases claims.cnf with
    | none => simp [peerID.nonempty.symm]
    | some cnf => simp
  unfold admitClaims
  rw [← hpeer]
  by_cases hholder : (match claims.cnf with
      | none => ""
      | some cnf => cnf.peerID) = peerID.text
  · by_cases hmember : cfg.gatewayClusterID ∈ claims.clusterIDs
    · have hlength : claims.clusterIDs.length ≠ 0 := by
        have := List.length_pos_of_mem hmember
        omega
      simp [hholder, hmember, hlength, eq_comm]
    · simp only [hholder, ne_eq, not_true_eq_false, if_false]
      split
      · simp [hmember]
      · simp [hmember]
  · simp [hholder]

variable (hchain : ∀ name, chainFromString name ≠ .ok "")
include hchain

/-- The verified claims of an enabled manager carry the manager's own chain. -/
theorem verifyToken_eq_some_iff_sameChain
    {rawJWT : String} :
    authMgr.verifyToken chainFromString now rawJWT = .ok (some claims)
      ↔
    authMgr.IsEnabled ∧
      (∃ v, authMgr.verifier = some v ∧ v.verify now rawJWT audP2P = .ok claims) ∧
      ∃ own ch, authMgr.claims = some own ∧
        chainFromString own.chainID = .ok ch ∧
        chainFromString claims.chainID = .ok ch := by
  rw [Manager.verifyToken_eq_some_iff]
  have hsame : chainFromString claims.chainID = .ok (authMgr.chain chainFromString)
      ↔
      ∃ own ch, authMgr.claims = some own ∧
        chainFromString own.chainID = .ok ch ∧
        chainFromString claims.chainID = .ok ch := by
    constructor
    · intro hclaims
      have hne : authMgr.chain chainFromString ≠ "" := by
        intro hempty
        rw [hempty] at hclaims
        exact hchain _ hclaims
      obtain ⟨own, hown, hparsed⟩ := Manager.chain_ne_empty hne
      exact ⟨own, _, hown, hparsed, hclaims⟩
    · intro hex
      obtain ⟨own, ch, hown, hparsed, hclaims⟩ := hex
      simp [Manager.chain, hown, hparsed, hclaims]
  rw [hsame]

theorem authorized_iff
    {rawJWT : String} :
    Authorized chainFromString cfg authMgr now peerID rawJWT claims
      ↔
    authMgr.verifyToken chainFromString now rawJWT = .ok (some claims) ∧
      (∃ cnf, claims.cnf = some cnf ∧ cnf.peerID = peerID.text) ∧
      cfg.gatewayClusterID ∈ claims.clusterIDs := by
  rw [verifyToken_eq_some_iff_sameChain hchain]
  constructor
  · intro h
    exact ⟨⟨h.enabled, h.verified, h.sameChain⟩, h.holder, h.member⟩
  · intro h
    obtain ⟨⟨henabled, hverified, hsame⟩, hholder, hmember⟩ := h
    exact ⟨henabled, hverified, hsame, hholder, hmember⟩

/-- The handler admits without claims if authentication is off on both sides, and
otherwise exactly the holders of an authorizing token. -/
theorem handshakeHandler_eq_ok_iff :
    handshakeHandler chainFromString canPublish decode cfg authMgr now peerID msg =
        .ok capability
      ↔
    ∃ h, decode msg = .ok h ∧ h.clusterID = cfg.gatewayClusterID ∧
      ((¬authMgr.IsEnabled ∧ cfg.enableAuth = false ∧ capability = fullCapability) ∨
        ∃ claims, Authorized chainFromString cfg authMgr now peerID h.jwtToken claims ∧
          capability = { canPublish := canPublish claims }) := by
  unfold handshakeHandler
  cases hdecode : decode msg with
  | error err => simp
  | ok h =>
      have hdisabled : authMgr.verifyToken chainFromString now h.jwtToken = .ok none
          ↔ ¬authMgr.IsEnabled := Manager.verifyToken_eq_none_iff
      simp only [Except.ok.injEq, exists_eq_left', authorized_iff hchain]
      by_cases hcluster : h.clusterID = cfg.gatewayClusterID
      · simp only [hcluster, ne_eq, not_true_eq_false, if_false, true_and]
        rw [← hdisabled]
        cases hverify : authMgr.verifyToken chainFromString now h.jwtToken with
        | error err => simp
        | ok found =>
            cases found with
            | none =>
                cases cfg.enableAuth with
                | false => simp [eq_comm]
                | true => simp
            | some claims => simp [admitClaims_eq_ok_iff, and_assoc]
      · simp [hcluster]

omit hchain

/-- A capability to publish is handed out only without authentication or to the
holder of an authorizing token whose claims grant it.  A manager that is disabled
although authentication is on, or has not minted its own token, rejects every
message. -/
theorem handshakeHandler_fails_closed
    (hchain : ∀ name, chainFromString name ≠ .ok "") :
    (∀ peerID msg capability,
      handshakeHandler chainFromString canPublish decode cfg authMgr now peerID msg =
          .ok capability →
      capability.canPublish = true →
      (¬authMgr.IsEnabled ∧ cfg.enableAuth = false) ∨
        ∃ h claims, decode msg = .ok h ∧
          Authorized chainFromString cfg authMgr now peerID h.jwtToken claims ∧
          canPublish claims = true) ∧
    (¬authMgr.IsEnabled → cfg.enableAuth = true → ∀ peerID msg, ∃ err,
      handshakeHandler chainFromString canPublish decode cfg authMgr now peerID msg =
        .error err) ∧
    (authMgr.IsEnabled → authMgr.claims = none → ∀ peerID msg, ∃ err,
      handshakeHandler chainFromString canPublish decode cfg authMgr now peerID msg =
        .error err) := by
  have hreject : ∀ peerID msg,
      (∀ capability, handshakeHandler chainFromString canPublish decode cfg authMgr now
        peerID msg ≠ .ok capability) →
      ∃ err, handshakeHandler chainFromString canPublish decode cfg authMgr now peerID
        msg = .error err := by
    intro peerID msg hnot
    cases hresult : handshakeHandler chainFromString canPublish decode cfg authMgr now
        peerID msg with
    | error err => exact ⟨err, rfl⟩
    | ok capability => exact absurd hresult (hnot capability)
  refine ⟨?_, ?_, ?_⟩
  · intro peerID msg capability hok hpublish
    obtain ⟨h, hdecode, _, hadmit⟩ := (handshakeHandler_eq_ok_iff hchain).mp hok
    rcases hadmit with ⟨hdisabled, hoff, _⟩ | ⟨claims, hauthorized, rfl⟩
    · exact Or.inl ⟨hdisabled, hoff⟩
    · exact Or.inr ⟨h, claims, hdecode, hauthorized, hpublish⟩
  · intro hdisabled hon peerID msg
    apply hreject
    intro capability hok
    obtain ⟨h, _, _, hadmit⟩ := (handshakeHandler_eq_ok_iff hchain).mp hok
    rcases hadmit with ⟨_, hoff, _⟩ | ⟨claims, hauthorized, _⟩
    · rw [hon] at hoff
      cases hoff
    · exact hdisabled hauthorized.enabled
  · intro henabled hunminted peerID msg
    apply hreject
    intro capability hok
    obtain ⟨h, _, _, hadmit⟩ := (handshakeHandler_eq_ok_iff hchain).mp hok
    rcases hadmit with ⟨hdisabled, _⟩ | ⟨claims, hauthorized, _⟩
    · exact hdisabled henabled
    · obtain ⟨own, _, hown, _⟩ := hauthorized.sameChain
      rw [hunminted] at hown
      cases hown

end Handler

section Samples

/-- Chain names and ids that the common library knows. -/
def knownChains (name : String) : Except GoError Chain :=
  if name = "hoodi" ∨ name = "560048" then .ok "hoodi"
  else if name = "mainnet" ∨ name = "1" then .ok "mainnet"
  else .error (.errorf "unknown chain: %s" [name])

/-- A scope decides by its grants, an absent one by the type of the gateway. -/
def grantsPublish (claims : Claims) : Bool :=
  if claims.scope = "" then
    claims.type = "partner" ∨ claims.type = "hermes" ∨ claims.type = "relay"
  else
    "p2p:publish".toList ∈ claims.scope.toList.splitOn ' '

def partnerClaims (subject : String) (cnf : Option Confirmation) : Claims where
  subject := subject
  issuedAt := some 0
  expiresAt := some (3600 * second)
  chainID := "hoodi"
  type := "partner"
  scope := "p2p:subscribe p2p:publish"
  cnf := cnf
  clusterIDs := ["optimum_hoodi"]

def peerToken : String :=
  "eyJhbGciOiJFUzI1NiJ9.eyJzdWIiOiJndy1wZWVyIn0.c2ln"

/-- A library that knows one token, issued by the gateway's issuer for peers. -/
def oneToken : JWTLibrary where
  parseWithClaims opts now rawJWT :=
    if rawJWT = peerToken ∧ opts.issuer = "https://auth" ∧ opts.audience = audP2P ∧
        now < 3600 * second + opts.leeway ∧ 0 ≤ now + opts.leeway then
      .ok (some ⟨true⟩, partnerClaims "gw-peer" (some ⟨"12D3Koo7"⟩))
    else
      .error (.new "token is malformed")
  expiresAt_of_required := by
    intro opts now rawJWT token claims _ hparse
    split at hparse
    · cases hparse
      rfl
    · cases hparse

def mintedManager : Manager Unit where
  apiKey := "key"
  cred := none
  verifier := some ⟨oneToken, "https://auth"⟩
  claims := some (partnerClaims "gw-own" none)
  wired := by simp

def partnerPeer : PeerID where
  text := "12D3Koo7"
  nonempty := by decide

def partnerMessage : MeshHandshake where
  clusterID := "optimum_hoodi"
  jwtToken := peerToken
  commitHash := "c0ffee"

def hoodiAuth : AuthConfig where
  gatewayClusterID := "optimum_hoodi"
  enableAuth := true

theorem knownChains_ne_empty
    (name : String) :
    knownChains name ≠ .ok "" := by
  unfold knownChains
  split
  · decide
  · split
    · decide
    · simp

theorem handshakeHandler_fails_closed_partner :
    handshakeHandler knownChains grantsPublish Except.ok hoodiAuth mintedManager second
        partnerPeer partnerMessage = .ok ⟨true⟩ ∧
      ((¬mintedManager.IsEnabled ∧ hoodiAuth.enableAuth = false) ∨
        ∃ h claims, (.ok partnerMessage : Except GoError MeshHandshake) = .ok h ∧
          Authorized knownChains hoodiAuth mintedManager second partnerPeer h.jwtToken
            claims ∧
          grantsPublish claims = true) := by
  have hok : handshakeHandler knownChains grantsPublish Except.ok hoodiAuth
      mintedManager second partnerPeer partnerMessage = .ok ⟨true⟩ := by
    decide +kernel
  exact ⟨hok, (handshakeHandler_fails_closed knownChains_ne_empty).1 partnerPeer
    partnerMessage ⟨true⟩ hok rfl⟩

end Samples

end GossipsubGateway
end OptimumGateway
