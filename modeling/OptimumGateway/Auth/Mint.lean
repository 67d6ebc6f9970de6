import OptimumGateway.Auth.TokenManager
import OptimumGateway.Foundation.CallHistory
import OptimumGateway.Utils.Retryer

/-!
# Minting gateway tokens

This module models `mint` of `pkg/service/auth_token/manager.go` and the getters that call
it.  The answers of the auth service and of the signer are free, and a token is verified at
some time.  The six cells of the cache are stored one after another.

A mint that fails stores nothing, since all its checks come before the first store.  One
that succeeds overwrites all six cells from one answer (`mint_history`), and then the two
cells of the services token hold a verified token or are cleared.

A status other than 200, 401 and the two known refusals reads the error text of the parsed
body.  If there is no body, `mint` does not return.
-/

namespace OptimumGateway
namespace Auth

open Foundation Foundation.Prog Utils

section Programs

def audServices : String := "services"

def errUnknownKey : GoError := .new "auth_token: api key not recognized (401)"

def errKeyRevoked : GoError := .new "auth_token: api key revoked (403)"

def errKeySuspended : GoError := .new "auth_token: api key suspended (403)"

def clientAssertionType : String :=
  "urn:ietf:params:oauth:client-assertion-type:jwt-bearer"

/-- What `mint` reads of the manager. -/
structure MintConfig where
  apiKey : String
  /-- `cred` is not nil. -/
  hasCred : Bool
  mintURL : String
  peerID : String
  mintAud : String

structure MintResponse where
  accessToken : String
  servicesToken : String
  operatorID : String
  validatorIndexes : List UInt64
  error : String
deriving DecidableEq

inductive MintOp where
  | signAssertion (aud peerID : String)
  | post (url : String) (payload : List (String × String))
  | ctxDone
  | verify (rawJWT audience : String)
  | tokenStore (token : String)
  | claimsStore (claims : Claims)
  | operatorIDStore (id : String)
  | indexesReplace (indexes : List UInt64)
  | servicesTokenStore (token : String)
  | servicesClaimsStore (claims : Option Claims)
  | tokenLoad
  | servicesTokenLoad
deriving DecidableEq

abbrev MintOp.Ans : MintOp → Type
  | .signAssertion .. => Except GoError String
  | .post .. => Response MintResponse
  | .ctxDone => Bool
  | .verify .. => Except GoError Claims
  | .tokenLoad | .servicesTokenLoad => Option String
  | _ => Unit

abbrev MintProg := Prog MintOp MintOp.Ans

abbrev MintCall := Call MintOp MintOp.Ans

abbrev mintOp (op : MintOp) : MintProg op.Ans := Prog.op op

/-- `mint` returns an error, or reads a field of a nil body and does not return. -/
inductive MintFailure where
  | err (err : GoError)
  | nilBody

variable (cfg : MintConfig)

def MintConfig.IsEnabled : Prop :=
  cfg.apiKey ≠ "" ∨ cfg.hasCred = true

instance : Decidable cfg.IsEnabled :=
  inferInstanceAs (Decidable (_ ∨ _))

def buildMintPayload : MintProg (Except GoError (List (String × String))) :=
  if cfg.hasCred then do
    let signed ← mintOp (.signAssertion cfg.mintAud cfg.peerID)
    match signed with
    | .error err => pure (.error err)
    | .ok assertion =>
        pure (.ok [("client_assertion", assertion),
          ("client_assertion_type", clientAssertionType), ("peer_id", cfg.peerID)])
  else
    pure (.ok [("api_key", cfg.apiKey), ("peer_id", cfg.peerID)])

/-- The switch on the status, and the check of the body. -/
def acceptMint (parsed : Option MintResponse) (code : Int) :
    Except MintFailure MintResponse :=
  if code = 200 then
    match parsed with
    | some body =>
        if body.accessToken = "" then
          .error (.err (.new "auth_token: mint response missing access_token"))
        else
          .ok body
    | none => .error (.err (.new "auth_token: mint response missing access_token"))
  else if code = 401 then
    .error (.err errUnknownKey)
  else
    match parsed with
    | none => .error .nilBody
    | some body =>
        if code = 403 then
          if body.error = "key_revoked" then
            .error (.err errKeyRevoked)
          else if body.error = "key_suspended" then
            .error (.err errKeySuspended)
          else
            .error (.err (.errorf "auth_token: 403 from mint (error=%q)" [body.error]))
        else
          .error (.err (.errorf "auth_token: mint returned %d (error=%q)"
            [toString code, body.error]))

/-- The part of `mint` before the first store: an answer whose access token is verified. -/
def obtainTokens : MintProg (Except MintFailure (MintResponse × Claims)) := do
  let payload ← buildMintPayload cfg
  match payload with
  | .error err => pure (.error (.err (.wrapf "auth_token: build mint payload: %w" [] err)))
  | .ok payload => do
      let r ← retryPostRequest (mintOp (.post cfg.mintURL payload)) (mintOp .ctxDone) [401, 403]
      match r.err with
      | some err => pure (.error (.err (.wrapf "auth mint POST: %w" [] err)))
      | none =>
          match acceptMint r.res r.code with
          | .error failure => pure (.error failure)
          | .ok parsed => do
              let verified ← mintOp (.verify parsed.accessToken audP2P)
              match verified with
              | .error err =>
                  pure (.error (.err
                    (.wrapf "auth_token: minted token failed local verify: %w" [] err)))
              | .ok claims => pure (.ok (parsed, claims))

/-- The services token that is cached: none if it is missing or fails verification. -/
def servicesVerified (servicesToken : String) : MintProg (Option Claims) :=
  if servicesToken ≠ "" then do
    let verified ← mintOp (.verify servicesToken audServices)
    match verified with
    | .error _ => pure none
    | .ok claims => pure (some claims)
  else
    pure none

/-- The stores of `mint`. -/
def cacheTokens (parsed : MintResponse) (claims : Claims) : MintProg Unit := do
  mintOp (.tokenStore parsed.accessToken)
  mintOp (.claimsStore claims)
  mintOp (.operatorIDStore parsed.operatorID)
  mintOp (.indexesReplace parsed.validatorIndexes)
  let services ← servicesVerified parsed.servicesToken
  match services with
  | none => do
      mintOp (.servicesTokenStore "")
      mintOp (.servicesClaimsStore none)
  | some servicesClaims => do
      mintOp (.servicesTokenStore parsed.servicesToken)
      mintOp (.servicesClaimsStore (some servicesClaims))

def mint : MintProg (Except MintFailure String) := do
  let obtained ← obtainTokens cfg
  match obtained with
  | .error failure => pure (.error failure)
  | .ok (parsed, claims) => do
      cacheTokens parsed claims
      pure (.ok parsed.accessToken)

/-- `pointers.FromPointer`. -/
def fromPointer (cell : Option String) : String :=
  cell.getD ""

def token : MintProg (Except MintFailure String) :=
  if cfg.IsEnabled then do
    let cached ← mintOp .tokenLoad
    if fromPointer cached ≠ "" then pure (.ok (fromPointer cached)) else mint cfg
  else
    pure (.ok "")

def handshakeToken : MintProg (Except MintFailure String) :=
  token cfg

def servicesToken : MintProg (Except MintFailure String) :=
  if cfg.IsEnabled then do
    let services ← mintOp .servicesTokenLoad
    if fromPointer services ≠ "" then
      pure (.ok (fromPointer services))
    else do
      let cached ← mintOp .tokenLoad
      if fromPointer cached ≠ "" then
        pure (.ok (fromPointer cached))
      else do
        let minted ← mint cfg
        match minted with
        | .error failure => pure (.error failure)
        | .ok _ => do
            let services ← mintOp .servicesTokenLoad
            if fromPointer services ≠ "" then
              pure (.ok (fromPointer services))
            else do
              let cached ← mintOp .tokenLoad
              pure (.ok (fromPointer cached))
  else
    pure (.ok "")

end Programs

section Memory

/-- The cells that `mint` writes. -/
structure TokenCache where
  token : Option String
  claims : Option Claims
  operatorID : Option String
  indexes : List UInt64
  servicesToken : Option String
  servicesClaims : Option Claims

/-- The cache before the first mint. -/
def TokenCache.empty : TokenCache :=
  ⟨none, none, none, [], none, none⟩

def mintSem (v : Verifier) : Sem MintOp MintOp.Ans TokenCache
  | .verify rawJWT audience, s, r, t => (∃ now, r = v.verify now rawJWT audience) ∧ t = s
  | .tokenStore token, s, _, t => t = { s with token := some token }
  | .claimsStore claims, s, _, t => t = { s with claims := some claims }
  | .operatorIDStore id, s, _, t => t = { s with operatorID := some id }
  | .indexesReplace indexes, s, _, t => t = { s with indexes := indexes }
  | .servicesTokenStore token, s, _, t => t = { s with servicesToken := some token }
  | .servicesClaimsStore claims, s, _, t => t = { s with servicesClaims := claims }
  | .tokenLoad, s, r, t => r = s.token ∧ t = s
  | .servicesTokenLoad, s, r, t => r = s.servicesToken ∧ t = s
  | _, s, _, t => t = s

/-- The operations that do not write. -/
def Reads : MintOp → Prop
  | .tokenStore _ | .claimsStore _ | .operatorIDStore _ | .indexesReplace _
  | .servicesTokenStore _ | .servicesClaimsStore _ => False
  | _ => True

variable {v : Verifier} {cfg : MintConfig} {s t : TokenCache}
variable {l : List MintCall}

theorem Reads.unchanged
    {op : MintOp} {r : op.Ans}
    (hop : Reads op)
    (h : mintSem v op s r t) :
    t = s := by
  cases op with
  | verify rawJWT audience | tokenLoad | servicesTokenLoad => exact h.2
  | signAssertion aud peerID | post url payload | ctxDone => exact h
  | _ => exact absurd hop id

theorem exec_of_reads
    (hreads : ∀ c ∈ l, Reads c.1)
    (h : Exec (mintSem v) s l t) :
    t = s := by
  induction h with
  | nil s => rfl
  | cons head tail ih =>
      obtain ⟨hop, hrest⟩ := List.forall_mem_cons.mp hreads
      rw [ih hrest, hop.unchanged head]

theorem forall_obtainTokens :
    (obtainTokens cfg).Forall Reads := by
  refine Forall.bind ?_ ?_
  · unfold buildMintPayload
    split
    · refine ⟨trivial, ?_⟩
      intro signed
      cases signed with
      | error err | ok assertion => trivial
    · trivial
  · intro payload
    cases payload with
    | error err => trivial
    | ok payload =>
        refine Forall.bind (forall_retryPostRequest (forall_op trivial) (forall_op trivial)) ?_
        intro r
        cases r.err with
        | some err => trivial
        | none =>
            cases acceptMint r.res r.code with
            | error failure => trivial
            | ok parsed =>
                refine ⟨trivial, ?_⟩
                intro verified
                cases verified with
                | error err | ok claims => trivial

theorem forall_servicesVerified
    {P : MintOp → Prop} {token : String}
    (h : P (.verify token audServices)) :
    (servicesVerified token).Forall P := by
  unfold servicesVerified
  split
  · refine ⟨h, ?_⟩
    intro verified
    cases verified with
    | error err | ok claims => trivial
  · trivial

/-- The answer of the auth service that ended the retries. -/
def postAnswer : MintCall → Option (Response MintResponse)
  | ⟨.post _ _, r⟩ => some r
  | _ => none

/-- A call of the path verified the token with these claims. -/
def Verified
    (v : Verifier)
    (calls : List MintCall)
    (rawJWT audience : String)
    (claims : Claims) : Prop :=
  ⟨.verify rawJWT audience, .ok claims⟩ ∈ calls ∧
    ∃ now, v.verify now rawJWT audience = .ok claims

theorem verified_of_exec
    {rawJWT audience : String} {claims : Claims}
    (hexec : Exec (mintSem v) s l t)
    (hmem : ⟨.verify rawJWT audience, .ok claims⟩ ∈ l) :
    ∃ now, v.verify now rawJWT audience = .ok claims := by
  obtain ⟨_, _, ⟨now, hnow⟩, -⟩ := hexec.sem_of_mem hmem
  exact ⟨now, hnow.symm⟩

variable {parsed : MintResponse} {claims : Claims}

theorem acceptMint_eq_ok
    {body : Option MintResponse} {code : Int}
    (h : acceptMint body code = .ok parsed) :
    code = 200 ∧ body = some parsed ∧ parsed.accessToken ≠ "" := by
  unfold acceptMint at h
  split at h
  case isTrue hcode =>
    cases body with
    | none => cases h
    | some body =>
        simp only at h
        split at h
        case isTrue => cases h
        case isFalse htoken =>
          cases h
          exact ⟨hcode, rfl, htoken⟩
  case isFalse =>
    split at h
    · cases h
    · cases body with
      | none => cases h
      | some body =>
          simp only at h
          split at h
          · split at h
            · cases h
            · split at h
              · cases h
              · cases h
          · cases h

theorem lastWrite_post
    {url : String} {payload : List (String × String)} {codes : List Int}
    {r : Response MintResponse} {before : List MintCall}
    (h : Path (retryPostRequest (mintOp (.post url payload)) (mintOp .ctxDone) codes) l (ret r)) :
    lastWrite postAnswer (before ++ l) = some r := by
  obtain ⟨earlier, last, after, rfl, hlast, hafter⟩ := path_retryPostRequest h
  obtain rfl := path_op_ret_iff.mp hlast
  have hnone : ∀ c ∈ after, postAnswer c = none := by
    intro c hc
    rcases hafter with rfl | hwait
    · cases hc
    · obtain rfl := path_op_ret_iff.mp hwait
      rw [List.mem_singleton.mp hc]
      rfl
  rw [← List.append_assoc earlier, ← List.append_assoc before, lastWrite_append_of_none hnone,
    ← List.append_assoc before]
  exact lastWrite_concat rfl

/-- What is obtained is the last answer, with its access token verified. -/
theorem path_obtainTokens
    (h : Path (obtainTokens cfg) l (ret (.ok (parsed, claims)))) :
    (lastWrite postAnswer l).bind Response.res = some parsed ∧
      ⟨.verify parsed.accessToken audP2P, .ok claims⟩ ∈ l := by
  obtain ⟨payload, l₁, l₂, rfl, hpayload, h⟩ := path_bind_ret h
  cases payload with
  | error err =>
      obtain ⟨-, hret⟩ := path_ret_iff.mp h
      cases hret
  | ok payload =>
      obtain ⟨r, l₃, l₄, rfl, hpost, h⟩ := path_bind_ret h
      cases herr : r.err with
      | some err =>
          rw [herr] at h
          obtain ⟨-, hret⟩ := path_ret_iff.mp h
          cases hret
      | none =>
          rw [herr] at h
          cases haccept : acceptMint r.res r.code with
          | error failure =>
              rw [haccept] at h
              obtain ⟨-, hret⟩ := path_ret_iff.mp h
              cases hret
          | ok body =>
              rw [haccept] at h
              obtain ⟨-, hbody, -⟩ := acceptMint_eq_ok haccept
              simp only [op_bind, path_call_ret_iff] at h
              obtain ⟨verified, l₅, rfl, hverified⟩ := h
              cases verified with
              | error err =>
                  obtain ⟨-, hret⟩ := path_ret_iff.mp hverified
                  cases hret
              | ok claims' =>
                  obtain ⟨rfl, hret⟩ := path_ret_iff.mp hverified
                  cases hret
                  refine ⟨?_, by simp⟩
                  rw [← List.append_assoc, lastWrite_append_of_none (by simp [postAnswer]),
                    lastWrite_post hpost]
                  exact hbody

theorem path_cacheTokens
    {u : Unit}
    (h : Path (cacheTokens parsed claims) l (ret u)) :
    ∃ check services, Path (servicesVerified parsed.servicesToken) check (ret services) ∧
      l = [⟨.tokenStore parsed.accessToken, ()⟩, ⟨.claimsStore claims, ()⟩,
          ⟨.operatorIDStore parsed.operatorID, ()⟩,
          ⟨.indexesReplace parsed.validatorIndexes, ()⟩] ++ (check ++
        [⟨.servicesTokenStore (if services.isSome then parsed.servicesToken else ""), ()⟩,
          ⟨.servicesClaimsStore services, ()⟩]) := by
  unfold cacheTokens at h
  simp only [op_bind, path_call_ret_iff] at h
  obtain ⟨⟨⟩, _, rfl, ⟨⟩, _, rfl, ⟨⟩, _, rfl, ⟨⟩, _, rfl, h⟩ := h
  obtain ⟨services, check, l₂, rfl, hcheck, h⟩ := path_bind_ret h
  refine ⟨check, services, hcheck, ?_⟩
  cases services with
  | none | some servicesClaims =>
      simp only [path_call_ret_iff] at h
      obtain ⟨⟨⟩, l₃, rfl, hlast⟩ := h
      rw [path_op_ret_iff.mp hlast]
      rfl

theorem path_servicesVerified
    {rawJWT : String} {sc : Claims}
    (h : Path (servicesVerified rawJWT) l (ret (some sc))) :
    ⟨.verify rawJWT audServices, .ok sc⟩ ∈ l := by
  unfold servicesVerified at h
  split at h
  · obtain ⟨verified, l₁, l₂, rfl, hverify, hrest⟩ := path_bind_ret h
    rw [path_op_ret_iff.mp hverify]
    cases verified with
    | error err =>
        obtain ⟨-, hret⟩ := path_ret_iff.mp hrest
        cases hret
    | ok claims =>
        obtain ⟨-, hret⟩ := path_ret_iff.mp hrest
        cases hret
        simp
  · obtain ⟨-, hret⟩ := path_ret_iff.mp h
    cases hret

/-- The stores overwrite the whole cache. -/
theorem exec_cacheTokens
    {u : Unit}
    (hpath : Path (cacheTokens parsed claims) l (ret u))
    (hexec : Exec (mintSem v) s l t) :
    ∃ services, (∀ sc, services = some sc →
        ⟨.verify parsed.servicesToken audServices, .ok sc⟩ ∈ l) ∧
      t = ⟨some parsed.accessToken, some claims, some parsed.operatorID,
        parsed.validatorIndexes, some (if services.isSome then parsed.servicesToken else ""),
        services⟩ := by
  obtain ⟨check, services, hcheck, rfl⟩ := path_cacheTokens hpath
  refine ⟨services, ?_, ?_⟩
  · intro sc hsc
    subst hsc
    simp [path_servicesVerified hcheck]
  · obtain ⟨s₁, hfour, hrest⟩ := exec_append_iff.mp hexec
    obtain ⟨s₂, hverify, htwo⟩ := exec_append_iff.mp hrest
    obtain rfl := exec_of_reads (hcheck.forall_mem (forall_servicesVerified trivial)) hverify
    simp only [exec_cons_iff, exec_nil_iff, mintSem] at hfour htwo
    obtain ⟨_, rfl, _, rfl, _, rfl, _, rfl, rfl⟩ := hfour
    obtain ⟨_, rfl, _, rfl, rfl⟩ := htwo
    rfl

end Memory

section History

/-- A mint: its calls and its result. -/
structure Attempt where
  calls : List MintCall
  result : Except MintFailure String

/-- The body of the answer on which the attempt went on. -/
def Attempt.response (a : Attempt) : Option MintResponse :=
  (lastWrite postAnswer a.calls).bind Response.res

def attemptStep
    (cfg : MintConfig)
    (v : Verifier)
    (s : TokenCache)
    (a : Attempt)
    (t : TokenCache) : Prop :=
  Path (mint cfg) a.calls (ret a.result) ∧ Exec (mintSem v) s a.calls t

/-- All cells hold what the calls got from one answer. -/
structure Cached
    (v : Verifier)
    (calls : List MintCall)
    (parsed : MintResponse)
    (t : TokenCache) : Prop where
  token : t.token = some parsed.accessToken
  claims : ∃ claims, Verified v calls parsed.accessToken audP2P claims ∧ t.claims = some claims
  operatorID : t.operatorID = some parsed.operatorID
  indexes : t.indexes = parsed.validatorIndexes
  services : t.servicesToken = some "" ∧ t.servicesClaims = none ∨
    ∃ claims, Verified v calls parsed.servicesToken audServices claims ∧
      t.servicesToken = some parsed.servicesToken ∧ t.servicesClaims = some claims

variable {v : Verifier} {cfg : MintConfig} {s t : TokenCache} {a : Attempt}
variable {parsed : MintResponse}

/-- The calls of a mint that succeeds: those before the stores, and the stores. -/
theorem path_mint_ok
    {l : List MintCall} {token : String}
    (h : Path (mint cfg) l (ret (.ok token))) :
    ∃ parsed claims l₁ l₂, l = l₁ ++ l₂ ∧ token = parsed.accessToken ∧
      Path (obtainTokens cfg) l₁ (ret (.ok (parsed, claims))) ∧
      Path (cacheTokens parsed claims) l₂ (ret ()) := by
  obtain ⟨obtained, l₁, l₂, rfl, hobtain, hrest⟩ := path_bind_ret h
  cases obtained with
  | error failure =>
      obtain ⟨-, hret⟩ := path_ret_iff.mp hrest
      cases hret
  | ok pair =>
      obtain ⟨_, l₃, l₄, rfl, hcache, hret⟩ := path_bind_ret hrest
      obtain ⟨rfl, hret⟩ := path_ret_iff.mp hret
      cases hret
      exact ⟨pair.1, pair.2, l₁, l₃, by simp, rfl, hobtain, hcache⟩

/-- A mint that fails makes no call that writes. -/
theorem path_mint_error
    {l : List MintCall} {failure : MintFailure}
    (h : Path (mint cfg) l (ret (.error failure))) :
    ∀ c ∈ l, Reads c.1 := by
  obtain ⟨obtained, l₁, l₂, rfl, hobtain, hrest⟩ := path_bind_ret h
  cases obtained with
  | error failure' =>
      obtain ⟨rfl, -⟩ := path_ret_iff.mp hrest
      rw [List.append_nil]
      exact hobtain.forall_mem forall_obtainTokens
  | ok pair =>
      obtain ⟨_, l₃, l₄, -, -, hret⟩ := path_bind_ret hrest
      obtain ⟨-, hret⟩ := path_ret_iff.mp hret
      cases hret

theorem postAnswer_cacheTokens
    {claims : Claims} {u : Unit} {l : List MintCall}
    (h : Path (cacheTokens parsed claims) l (ret u)) :
    ∀ c ∈ l, postAnswer c = none := by
  obtain ⟨check, services, hcheck, rfl⟩ := path_cacheTokens h
  have hnone : ∀ c ∈ check, postAnswer c = none := by
    intro c hc
    exact hcheck.forall_mem (P := fun op => ∀ r, postAnswer ⟨op, r⟩ = none)
      (forall_servicesVerified fun _ => rfl) c hc c.2
  simp only [List.forall_mem_append, List.forall_mem_cons]
  exact ⟨⟨rfl, rfl, rfl, rfl, by simp⟩, hnone, rfl, rfl, by simp⟩

/-- After its stores the cache holds what the mint got from its answer. -/
theorem cached_of_stores
    {claims : Claims} {l₁ l₂ : List MintCall}
    (hobtain : Path (obtainTokens cfg) l₁ (ret (.ok (parsed, claims))))
    (hcache : Path (cacheTokens parsed claims) l₂ (ret ()))
    (hexec : Exec (mintSem v) s l₂ t)
    (hverified : ∀ rawJWT audience claims, ⟨.verify rawJWT audience, .ok claims⟩ ∈ l₁ ++ l₂ →
      ∃ now, v.verify now rawJWT audience = .ok claims) :
    (lastWrite postAnswer (l₁ ++ l₂)).bind Response.res = some parsed ∧
      Cached v (l₁ ++ l₂) parsed t := by
  obtain ⟨hanswer, hmem⟩ := path_obtainTokens hobtain
  obtain ⟨services, hservices, rfl⟩ := exec_cacheTokens hcache hexec
  have hclaims : ⟨.verify parsed.accessToken audP2P, .ok claims⟩ ∈ l₁ ++ l₂ :=
    List.mem_append_left _ hmem
  refine ⟨?_, rfl, ⟨claims, ⟨hclaims, hverified _ _ _ hclaims⟩, rfl⟩, rfl, rfl, ?_⟩
  · rw [lastWrite_append_of_none (postAnswer_cacheTokens hcache)]
    exact hanswer
  · cases services with
    | none => exact Or.inl ⟨rfl, rfl⟩
    | some sc =>
        have hsc : ⟨.verify parsed.servicesToken audServices, .ok sc⟩ ∈ l₁ ++ l₂ :=
          List.mem_append_right _ (hservices sc rfl)
        exact Or.inr ⟨sc, ⟨hsc, hverified _ _ _ hsc⟩, rfl, rfl⟩

theorem attempt_failed
    {failure : MintFailure}
    (h : attemptStep cfg v s a t)
    (hresult : a.result = .error failure) :
    t = s := by
  obtain ⟨hpath, hexec⟩ := h
  rw [hresult] at hpath
  exact exec_of_reads (path_mint_error hpath) hexec

theorem attempt_succeeded
    {token : String}
    (h : attemptStep cfg v s a t)
    (hresult : a.result = .ok token) :
    ∃ parsed, a.response = some parsed ∧ token = parsed.accessToken ∧
      Cached v a.calls parsed t := by
  obtain ⟨calls, result⟩ := a
  obtain ⟨hpath, hexec⟩ := h
  obtain rfl : result = .ok token := hresult
  obtain ⟨parsed, claims, l₁, l₂, rfl, htoken, hobtain, hcache⟩ := path_mint_ok hpath
  obtain ⟨u, hbefore, hstores⟩ := exec_append_iff.mp hexec
  obtain ⟨hanswer, hcached⟩ := cached_of_stores hobtain hcache hstores
    fun rawJWT audience claims hmem => verified_of_exec hexec hmem
  exact ⟨parsed, hanswer, htoken, hcached⟩

/-- The token was verified for the audience at some time. -/
def VerifiedFor (v : Verifier) (audience token : String) : Prop :=
  ∃ now claims, v.verify now token audience = .ok claims

/-- The cached tokens were verified, each for its audience. -/
structure TokensVerified (v : Verifier) (t : TokenCache) : Prop where
  token : ∀ token, t.token = some token → VerifiedFor v audP2P token
  services : ∀ token, t.servicesToken = some token → token ≠ "" →
    VerifiedFor v audServices token

theorem tokensVerified_empty :
    TokensVerified v TokenCache.empty := by
  constructor
  · intro token htoken
    cases htoken
  · intro token htoken
    cases htoken

theorem Cached.tokensVerified
    {calls : List MintCall}
    (h : Cached v calls parsed t) :
    TokensVerified v t := by
  constructor
  · intro token htoken
    obtain ⟨claims, ⟨-, now, hverify⟩, -⟩ := h.claims
    rw [h.token] at htoken
    cases htoken
    exact ⟨now, claims, hverify⟩
  · intro token htoken hne
    rcases h.services with ⟨hempty, -⟩ | ⟨claims, ⟨-, now, hverify⟩, hservices, -⟩
    · rw [hempty] at htoken
      cases htoken
      exact absurd rfl hne
    · rw [hservices] at htoken
      cases htoken
      exact ⟨now, claims, hverify⟩

theorem TokensVerified.attempt
    (h : TokensVerified v s)
    (hstep : attemptStep cfg v s a t) :
    TokensVerified v t := by
  cases hresult : a.result with
  | error failure =>
      rw [attempt_failed hstep hresult]
      exact h
  | ok token =>
      obtain ⟨parsed, -, -, hcached⟩ := attempt_succeeded hstep hresult
      exact hcached.tokensVerified

variable {l : List MintCall} {token : String}

theorem fromPointer_ne
    {cell : Option String}
    (h : fromPointer cell ≠ "") :
    cell = some (fromPointer cell) := by
  cases cell with
  | none => exact absurd rfl h
  | some token => rfl

theorem returns_mint
    (h : Returns (mintSem v) (mint cfg) s (.ok token) t) :
    t.token = some token ∧ TokensVerified v t := by
  obtain ⟨l, hpath, hexec⟩ := returns_iff_path.mp h
  obtain ⟨parsed, -, rfl, hcached⟩ :=
    attempt_succeeded (a := ⟨l, .ok token⟩) ⟨hpath, hexec⟩ rfl
  exact ⟨hcached.token, hcached.tokensVerified⟩

/-- An enabled manager hands out a handshake token that was verified. -/
theorem returns_handshakeToken
    (henabled : cfg.IsEnabled)
    (hs : TokensVerified v s)
    (h : Returns (mintSem v) (handshakeToken cfg) s (.ok token) t) :
    VerifiedFor v audP2P token := by
  rw [handshakeToken, Auth.token, if_pos henabled,
    returns_bind_of_iff fun _ _ => returns_op_iff] at h
  split at h
  case isTrue hne =>
    obtain ⟨htoken, -⟩ := returns_pure_iff.mp h
    cases htoken
    exact hs.token _ (fromPointer_ne hne)
  case isFalse =>
    obtain ⟨htoken, ht⟩ := returns_mint h
    exact ht.token token htoken

/-- The cache is as it was, or as the last mint that succeeded left it. -/
theorem cache_of_attempts
    {attempts : List Attempt}
    (h : Calls (attemptStep cfg v) s attempts t) :
    (∀ a ∈ attempts, ∃ failure, a.result = .error failure) ∧ t = s ∨
      ∃ done a rest parsed, attempts = done ++ a :: rest ∧ a.response = some parsed ∧
        Cached v a.calls parsed t ∧ ∀ b ∈ rest, ∃ failure, b.result = .error failure := by
  induction attempts using List.reverseRecOn generalizing t with
  | nil => exact Or.inl ⟨by simp, Calls.nil_iff.mp h⟩
  | append_singleton attempts a ih =>
      obtain ⟨u, hdone, hstep⟩ := Calls.snoc_iff.mp h
      cases hresult : a.result with
      | ok token =>
          obtain ⟨parsed, hresponse, -, hcached⟩ := attempt_succeeded hstep hresult
          exact Or.inr ⟨attempts, a, [], parsed, rfl, hresponse, hcached, by simp⟩
      | error failure =>
          obtain rfl := attempt_failed hstep hresult
          rcases ih hdone with ⟨hfailed, rfl⟩ | ⟨done, b, rest, parsed, rfl, hb, hcached, hrest⟩
          · refine Or.inl ⟨?_, rfl⟩
            intro b hb
            rcases List.mem_append.mp hb with hb | hb
            · exact hfailed b hb
            · rw [List.mem_singleton.mp hb]
              exact ⟨failure, hresult⟩
          · refine Or.inr ⟨done, b, rest ++ [a], parsed, by simp, hb, hcached, ?_⟩
            intro c hc
            rcases List.mem_append.mp hc with hc | hc
            · exact hrest c hc
            · rw [List.mem_singleton.mp hc]
              exact ⟨failure, hresult⟩

/-- Over any sequence of mints, one that fails changes no cell, one that succeeds fills all
of them from its own answer, and so the cache is what the last one that succeeded left.
The handshake token of an enabled manager was verified for its audience. -/
theorem mint_history
    {attempts : List Attempt}
    (h : Calls (attemptStep cfg v) s attempts t) :
    (∀ done a rest u w, attempts = done ++ a :: rest → Calls (attemptStep cfg v) s done u →
        attemptStep cfg v u a w →
        (∀ failure, a.result = .error failure → w = u) ∧
          ∀ token, a.result = .ok token → ∃ parsed, a.response = some parsed ∧
            token = parsed.accessToken ∧ Cached v a.calls parsed w) ∧
      ((∀ a ∈ attempts, ∃ failure, a.result = .error failure) ∧ t = s ∨
        ∃ done a rest parsed, attempts = done ++ a :: rest ∧ a.response = some parsed ∧
          Cached v a.calls parsed t ∧ ∀ b ∈ rest, ∃ failure, b.result = .error failure) ∧
      (s = TokenCache.empty → ∀ token t',
        Returns (mintSem v) (handshakeToken cfg) t (.ok token) t' →
        (cfg.IsEnabled → VerifiedFor v audP2P token) ∧
          (¬ cfg.IsEnabled → token = "")) := by
  refine ⟨?_, ?_, ?_⟩
  · intro done a rest u w _ _ hstep
    exact ⟨fun failure hresult => attempt_failed hstep hresult,
      fun token hresult => attempt_succeeded hstep hresult⟩
  · exact cache_of_attempts h
  · intro hs token t' hreturns
    refine ⟨?_, ?_⟩
    · intro henabled
      subst hs
      have ht : TokensVerified v t :=
        h.invariant tokensVerified_empty fun u a w hu hstep => hu.attempt hstep
      exact returns_handshakeToken henabled ht hreturns
    · intro hdisabled
      rw [handshakeToken, Auth.token, if_neg hdisabled] at hreturns
      obtain ⟨htoken, -⟩ := returns_pure_iff.mp hreturns
      cases htoken
      rfl

end History

section Sample

/-- A manager with an API key. -/
def keyConfig : MintConfig where
  apiKey := "key-1"
  hasCred := false
  mintURL := "https://auth/auth/token"
  peerID := "16Uiu2HAmGateway"
  mintAud := "https://auth/auth/token"

/-- The token of the subject `a`. -/
def tokenA : String :=
  "eyJhbGciOiJFUzI1NiJ9.eyJzdWIiOiJhIn0.c2ln"

/-- The token of the subject `b`. -/
def tokenB : String :=
  "eyJhbGciOiJFUzI1NiJ9.eyJzdWIiOiJiIn0.c2ln"

def claimsOf (rawJWT : String) : Claims where
  subject := if rawJWT = tokenA then "a" else "b"
  issuedAt := some 0
  expiresAt := some (3600 * second)
  chainID := "560048"
  type := "partner"
  scope := ""
  cnf := none
  clusterIDs := []

/-- A library that knows the two tokens. -/
def namedTokens : JWTLibrary where
  parseWithClaims _ _ rawJWT :=
    if rawJWT ∈ [tokenA, tokenB] then .ok (some ⟨true⟩, claimsOf rawJWT)
    else .error (.new "token is malformed")
  expiresAt_of_required := by
    intro opts now rawJWT token claims _ hparse
    split at hparse
    · cases hparse
      rfl
    · cases hparse

def sampleVerifier : Verifier :=
  ⟨namedTokens, "https://auth"⟩

theorem verify_sampleVerifier
    {rawJWT : String}
    (hraw : rawJWT ∈ [tokenA, tokenB]) :
    sampleVerifier.verify 0 rawJWT audP2P = .ok (claimsOf rawJWT) := by
  rcases List.mem_pair.mp hraw with rfl | rfl
  · decide +kernel
  · decide +kernel

/-- An answer without a services token. -/
def answerOf (accessToken operatorID : String) : MintResponse :=
  ⟨accessToken, "", operatorID, [], ""⟩

def keyPost : MintOp :=
  .post keyConfig.mintURL [("api_key", "key-1"), ("peer_id", "16Uiu2HAmGateway")]

def mintCalls (accessToken operatorID : String) : List MintCall :=
  [⟨keyPost, ⟨some (answerOf accessToken operatorID), 200, none⟩⟩,
    ⟨.verify accessToken audP2P, .ok (claimsOf accessToken)⟩]

def storeCalls (accessToken operatorID : String) : List MintCall :=
  [⟨.tokenStore accessToken, ()⟩, ⟨.claimsStore (claimsOf accessToken), ()⟩,
    ⟨.operatorIDStore operatorID, ()⟩, ⟨.indexesReplace [], ()⟩,
    ⟨.servicesTokenStore "", ()⟩, ⟨.servicesClaimsStore none, ()⟩]

theorem path_mintCalls
    {accessToken operatorID : String}
    (hne : accessToken ≠ "") :
    Path (mint keyConfig) (mintCalls accessToken operatorID ++ storeCalls accessToken operatorID)
      (ret (.ok accessToken)) := by
  have haccept : acceptMint (some (answerOf accessToken operatorID)) 200 =
      .ok (answerOf accessToken operatorID) := by
    simp [acceptMint, answerOf, hne]
  have hpayload : buildMintPayload keyConfig =
      ret (.ok [("api_key", "key-1"), ("peer_id", "16Uiu2HAmGateway")]) := by
    rfl
  let accepted : Response MintResponse := ⟨some (answerOf accessToken operatorID), 200, none⟩
  have hobtain : Path (obtainTokens keyConfig) (mintCalls accessToken operatorID)
      (ret (.ok (answerOf accessToken operatorID, claimsOf accessToken))) := by
    have hpost : Path (mintOp keyPost) [⟨keyPost, accepted⟩] (ret accepted) :=
      path_op_ret_iff.mpr rfl
    unfold obtainTokens
    rw [hpayload, ret_bind]
    refine (path_retryPostRequest_first hpost rfl).bind (m := [_]) ?_
    simp only [accepted, haccept]
    exact Path.cons (Path.nil _)
  have hcache : Path (cacheTokens (answerOf accessToken operatorID) (claimsOf accessToken))
      (storeCalls accessToken operatorID) (ret ()) :=
    Path.cons (Path.cons (Path.cons (Path.cons (Path.cons (Path.cons (Path.nil _))))))
  refine hobtain.bind ?_
  rw [← List.append_nil (storeCalls accessToken operatorID)]
  exact hcache.bind (Path.nil _)

theorem exec_mintCalls
    {accessToken operatorID : String}
    (hraw : accessToken ∈ [tokenA, tokenB])
    (s : TokenCache) :
    Exec (mintSem sampleVerifier) s (mintCalls accessToken operatorID) s := by
  have hverify : sampleVerifier.verify 0 accessToken audP2P = .ok (claimsOf accessToken) :=
    verify_sampleVerifier hraw
  exact Exec.cons rfl (Exec.cons ⟨⟨0, hverify.symm⟩, rfl⟩ (Exec.nil _))

/-- The cache after a mint. -/
def cacheOf (accessToken operatorID : String) : TokenCache :=
  ⟨some accessToken, some (claimsOf accessToken), some operatorID, [], some "", none⟩

theorem exec_storeCalls
    (accessToken operatorID : String)
    (s : TokenCache) :
    Exec (mintSem sampleVerifier) s (storeCalls accessToken operatorID)
      (cacheOf accessToken operatorID) :=
  Exec.cons rfl (Exec.cons rfl (Exec.cons rfl (Exec.cons rfl (Exec.cons rfl (Exec.cons rfl
    (Exec.nil _))))))

/-- A first mint, and one that the auth service refuses. -/
def sampleAttempts : List Attempt :=
  [⟨mintCalls tokenA "op-1" ++ storeCalls tokenA "op-1", .ok tokenA⟩,
    ⟨[⟨keyPost, ⟨none, 401, none⟩⟩], .error (.err errUnknownKey)⟩]

theorem calls_sampleAttempts :
    Calls (attemptStep keyConfig sampleVerifier) TokenCache.empty sampleAttempts
      (cacheOf tokenA "op-1") := by
  refine ⟨cacheOf tokenA "op-1", ⟨path_mintCalls (by decide +kernel), ?_⟩,
    cacheOf tokenA "op-1", ⟨?_, Exec.cons rfl (Exec.nil _)⟩, rfl⟩
  · exact Exec.append (exec_mintCalls (by simp) _) (exec_storeCalls _ _ _)
  · exact Path.cons (Path.nil _)

theorem mint_history_refused :
    Calls (attemptStep keyConfig sampleVerifier) TokenCache.empty sampleAttempts
        (cacheOf tokenA "op-1") ∧
      ∀ token t', Returns (mintSem sampleVerifier) (handshakeToken keyConfig)
          (cacheOf tokenA "op-1") (.ok token) t' →
        VerifiedFor sampleVerifier audP2P token := by
  refine ⟨calls_sampleAttempts, ?_⟩
  intro token t' hreturns
  exact ((mint_history calls_sampleAttempts).2.2 rfl token t' hreturns).1 (Or.inl (by decide))

end Sample

end Auth
end OptimumGateway
