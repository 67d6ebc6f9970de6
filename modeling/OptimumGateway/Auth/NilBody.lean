import OptimumGateway.Auth.Mint

/-!
# Answers without a body

`PostCurl` may return a nil body and a nil error with any status.  `mint` looks at the body
of such an answer after the switch on the status: with 200 it reports a missing token, with
401 it does not look at all.  With 403 it checks that the body is not nil before it looks
for the two known refusals, and reads the error text of the body right after that check,
outside of it.  With any other status it reads the error text without a check.

`mint_survives_iff` says that these reads are the only way in which `mint` does not return
a token or an error.
-/

namespace OptimumGateway
namespace Auth

open Foundation Foundation.Prog Utils

section Survival

variable {cfg : MintConfig} {l : List MintCall}

/-- There is no body, and the status is one for which `mint` reads its error text. -/
def ReadsNilBody (answer : Response MintResponse) : Prop :=
  answer.err = none ∧ answer.res = none ∧ answer.code ≠ 200 ∧ answer.code ≠ 401

/-- `mint` returns a token or an error. -/
def Survives : Except MintFailure String → Prop
  | .ok _ => True
  | .error (.err _) => True
  | .error .nilBody => False

theorem acceptMint_eq_nilBody_iff
    {body : Option MintResponse} {code : Int} :
    acceptMint body code = .error .nilBody ↔ body = none ∧ code ≠ 200 ∧ code ≠ 401 := by
  unfold acceptMint
  by_cases hok : code = 200
  · rw [if_pos hok]
    cases body with
    | none => simp [hok]
    | some body =>
        dsimp only
        split <;> simp
  · rw [if_neg hok]
    by_cases hunknown : code = 401
    · simp [hunknown]
    · rw [if_neg hunknown]
      cases body with
      | none => simp [hok, hunknown]
      | some body =>
          dsimp only
          split
          · split
            · simp
            · split <;> simp
          · simp

theorem postAnswer_buildMintPayload
    {payload : Except GoError (List (String × String))}
    (h : Path (buildMintPayload cfg) l (ret payload)) :
    ∀ c ∈ l, postAnswer c = none := by
  have hforall : (buildMintPayload cfg).Forall fun op => ∀ r, postAnswer ⟨op, r⟩ = none := by
    unfold buildMintPayload
    split
    · refine ⟨fun _ => rfl, ?_⟩
      intro signed
      cases signed with
      | error err | ok assertion => trivial
    · trivial
  intro c hc
  exact h.forall_mem hforall c hc c.2

/-- What is obtained from the answer that ended the retries. -/
theorem path_afterPost
    {r : Response MintResponse} {obtained : Except MintFailure (MintResponse × Claims)}
    (h : Path (match r.err with
      | some err => pure (.error (.err (.wrapf "auth mint POST: %w" [] err)))
      | none =>
          match acceptMint r.res r.code with
          | .error failure => pure (.error failure)
          | .ok parsed => do
              let verified ← mintOp (.verify parsed.accessToken audP2P)
              match verified with
              | .error err =>
                  pure (.error (.err
                    (.wrapf "auth_token: minted token failed local verify: %w" [] err)))
              | .ok claims => pure (.ok (parsed, claims)) : MintProg _) l (ret obtained)) :
    (∀ c ∈ l, postAnswer c = none) ∧ (obtained = .error .nilBody ↔ ReadsNilBody r) := by
  unfold ReadsNilBody
  cases herr : r.err with
  | some err =>
      rw [herr] at h
      obtain ⟨rfl, hret⟩ := path_ret_iff.mp h
      cases hret
      simp
  | none =>
      rw [herr] at h
      rw [← acceptMint_eq_nilBody_iff]
      cases haccept : acceptMint r.res r.code with
      | error failure =>
          rw [haccept] at h
          obtain ⟨rfl, hret⟩ := path_ret_iff.mp h
          cases hret
          simp
      | ok parsed =>
          rw [haccept] at h
          simp only [op_bind, path_call_ret_iff] at h
          obtain ⟨verified, l', rfl, hverified⟩ := h
          cases verified with
          | error err | ok claims =>
              obtain ⟨rfl, hret⟩ := path_ret_iff.mp hverified
              cases hret
              simp [postAnswer]

/-- Only the answer that ended the retries can lack the body. -/
theorem path_obtainTokens_nilBody
    {obtained : Except MintFailure (MintResponse × Claims)}
    (h : Path (obtainTokens cfg) l (ret obtained)) :
    obtained = .error .nilBody
      ↔
    ∃ answer, lastWrite postAnswer l = some answer ∧ ReadsNilBody answer := by
  obtain ⟨payload, l₁, l₂, rfl, hpayload, h⟩ := path_bind_ret h
  have hnone := postAnswer_buildMintPayload hpayload
  cases payload with
  | error err =>
      obtain ⟨rfl, hret⟩ := path_ret_iff.mp h
      cases hret
      rw [List.append_nil, lastWrite_eq_none_iff.mpr hnone]
      simp
  | ok payload =>
      obtain ⟨r, l₃, l₄, rfl, hpost, h⟩ := path_bind_ret h
      obtain ⟨hafter, hresult⟩ := path_afterPost h
      have hlast : lastWrite postAnswer (l₁ ++ (l₃ ++ l₄)) = some r := by
        rw [← List.append_assoc, lastWrite_append_of_none hafter]
        exact lastWrite_post hpost
      rw [hresult, hlast]
      simp

/-- A mint lacks a result exactly when it obtained none. -/
theorem path_mint_nilBody
    {result : Except MintFailure String}
    (h : Path (mint cfg) l (ret result)) :
    result = .error .nilBody
      ↔
    ∃ answer, lastWrite postAnswer l = some answer ∧ ReadsNilBody answer := by
  obtain ⟨obtained, l₁, l₂, rfl, hobtain, hrest⟩ := path_bind_ret h
  have hobtained := path_obtainTokens_nilBody hobtain
  cases obtained with
  | error failure =>
      obtain ⟨rfl, hret⟩ := path_ret_iff.mp hrest
      cases hret
      rw [List.append_nil, ← hobtained]
      simp
  | ok pair =>
      obtain ⟨u, l₃, l₄, rfl, hcache, hret⟩ := path_bind_ret hrest
      obtain ⟨rfl, hret⟩ := path_ret_iff.mp hret
      cases hret
      rw [List.append_nil, lastWrite_append_of_none (postAnswer_cacheTokens hcache), ← hobtained]
      simp

theorem survives_iff
    {result : Except MintFailure String} :
    Survives result ↔ result ≠ .error .nilBody := by
  cases result with
  | ok token => simp [Survives]
  | error failure => cases failure <;> simp [Survives]

theorem mintSem_total
    (v : Verifier)
    (op : MintOp)
    (s : TokenCache) :
    ∃ r t, mintSem v op s r t := by
  cases op with
  | signAssertion aud peerID => exact ⟨.ok "", s, rfl⟩
  | post url payload => exact ⟨⟨none, 0, none⟩, s, rfl⟩
  | ctxDone => exact ⟨true, s, rfl⟩
  | verify rawJWT audience => exact ⟨_, s, ⟨0, rfl⟩, rfl⟩
  | tokenLoad | servicesTokenLoad => exact ⟨_, s, rfl, rfl⟩
  | tokenStore token | claimsStore claims | operatorIDStore id | indexesReplace indexes
  | servicesTokenStore token | servicesClaimsStore claims => exact ⟨(), _, rfl⟩

/-- `mint` comes to an end, and it returns a token or an error exactly when the answer that
ended the retries is not one whose missing body it reads. -/
theorem mint_survives_iff
    (cfg : MintConfig) :
    (∀ v s, ∃ result t, Returns (mintSem v) (mint cfg) s result t) ∧
    ∀ calls result, Path (mint cfg) calls (ret result) →
      (Survives result
        ↔
      ¬ ∃ answer, lastWrite postAnswer calls = some answer ∧ ReadsNilBody answer) := by
  refine ⟨fun v s => exists_returns (mintSem_total v) (mint cfg) s, ?_⟩
  intro calls result hpath
  rw [survives_iff, ne_eq, path_mint_nilBody hpath]

/-- A key that the auth service does not know is reported. -/
theorem mint_survives_unknown_key :
    Path (mint keyConfig) [⟨keyPost, ⟨none, 401, none⟩⟩] (ret (.error (.err errUnknownKey))) ∧
      ¬ ∃ answer, lastWrite postAnswer [⟨keyPost, ⟨none, 401, none⟩⟩] = some answer ∧
        ReadsNilBody answer := by
  have hpath : Path (mint keyConfig) [⟨keyPost, ⟨none, 401, none⟩⟩]
      (ret (.error (.err errUnknownKey))) := Path.cons (Path.nil _)
  exact ⟨hpath, ((mint_survives_iff keyConfig).2 _ _ hpath).mp trivial⟩

/-- The answers without a body that make `mint` read one: a 403, which ends the retries at
once, and a status that does not end them, three times. -/
theorem mint_reads_nil_body :
    ¬ Survives (.error .nilBody) ∧
    Path (mint keyConfig) [⟨keyPost, ⟨none, 403, none⟩⟩] (ret (.error .nilBody)) ∧
    Path (mint keyConfig)
      [⟨keyPost, ⟨none, 500, none⟩⟩, ⟨.ctxDone, false⟩, ⟨keyPost, ⟨none, 502, none⟩⟩,
        ⟨.ctxDone, false⟩, ⟨keyPost, ⟨none, 503, none⟩⟩] (ret (.error .nilBody)) := by
  refine ⟨id, ?_, ?_⟩
  · exact Path.cons (Path.nil _)
  · exact Path.cons (Path.cons (Path.cons (Path.cons (Path.cons (Path.nil _)))))

end Survival

end Auth
end OptimumGateway
