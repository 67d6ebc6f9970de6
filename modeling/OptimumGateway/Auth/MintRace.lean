import OptimumGateway.Auth.Mint
import OptimumGateway.Foundation.CriticalSection

/-!
# Mints that overlap

Nothing keeps two mints apart: the first `Token` call, the first `ServicesToken` call and
the refresh loop may mint at the same time, each with an answer of its own, and the six
stores of one may come between those of the other.

If no mint starts to store while another is storing, the cache holds in the end what the
last one to store got from its answer (`overlapping_mints_consistent`).  Without that
condition the token of one answer can stand beside the claims of another
(`torn_identity`).  Each token was verified all the same (`overlapping_tokens_verified`).
-/

namespace OptimumGateway
namespace Auth

open Foundation Foundation.Prog Utils

section Overlap

/-- The first store of a mint. -/
def StoresToken : MintCall → Prop
  | ⟨.tokenStore _, _⟩ => True
  | _ => False

/-- The last store of a mint. -/
def StoresServicesClaims : MintCall → Prop
  | ⟨.servicesClaimsStore _, _⟩ => True
  | _ => False

/-- No mint makes its first store while another is between its first and its last. -/
def StoresAlone {ι : Type} [DecidableEq ι] (tr : List (Event ι MintOp MintOp.Ans)) : Prop :=
  EntersAlone StoresToken StoresServicesClaims tr

theorem Reads.outside
    {c : MintCall}
    (h : Reads c.1) :
    ¬ StoresToken c ∧ ¬ StoresServicesClaims c := by
  obtain ⟨op, r⟩ := c
  cases op with
  | tokenStore token | servicesClaimsStore claims => exact absurd h id
  | _ => exact ⟨id, id⟩

variable {cfg : MintConfig} {v : Verifier}

/-- The stores of a mint are one section of its calls. -/
theorem bracketed_stores
    {parsed : MintResponse} {claims : Claims} {l₁ l₂ : List MintCall}
    (hobtain : Path (obtainTokens cfg) l₁ (ret (.ok (parsed, claims))))
    (hcache : Path (cacheTokens parsed claims) l₂ (ret ())) :
    Bracketed StoresToken StoresServicesClaims l₁ l₂ := by
  have hbefore : ∀ c ∈ l₁, Reads c.1 := hobtain.forall_mem forall_obtainTokens
  obtain ⟨check, services, hcheck, rfl⟩ := path_cacheTokens hcache
  have hmiddle : ∀ c ∈ check, Reads c.1 :=
    hcheck.forall_mem (forall_servicesVerified trivial)
  refine ⟨fun c hc => (hbefore c hc).outside.1, fun c hc => (hbefore c hc).outside.2,
    ⟨.tokenStore parsed.accessToken, ()⟩,
    [⟨.claimsStore claims, ()⟩, ⟨.operatorIDStore parsed.operatorID, ()⟩,
      ⟨.indexesReplace parsed.validatorIndexes, ()⟩] ++ (check ++
      [⟨.servicesTokenStore (if services.isSome then parsed.servicesToken else ""), ()⟩]),
    ⟨.servicesClaimsStore services, ()⟩, by simp, trivial, trivial, ?_, ?_⟩
  · simp only [List.forall_mem_append, List.forall_mem_cons]
    exact ⟨⟨⟨id, id, id, by simp⟩, fun c hc => (hmiddle c hc).outside.1, id, by simp⟩, id,
      by simp⟩
  · simp only [List.forall_mem_append, List.forall_mem_cons]
    exact ⟨id, ⟨id, id, id, by simp⟩, fun c hc => (hmiddle c hc).outside.2, id, by simp⟩

variable {ι : Type} [DecidableEq ι]

/-- A pool in which every thread mints. -/
def mintPool
    (ι : Type)
    (cfg : MintConfig)
    (s : TokenCache) :
    Config ι MintOp MintOp.Ans (fun _ => Except MintFailure String) TokenCache :=
  ⟨fun _ => mint cfg, s⟩

/-- The body of the answer of a thread. -/
def responseOf (i : ι) (tr : List (Event ι MintOp MintOp.Ans)) : Option MintResponse :=
  (lastWrite postAnswer (callsOf i tr)).bind Response.res

/-- All cells hold what one of the threads got from its answer. -/
def OneIdentity
    (v : Verifier)
    (tr : List (Event ι MintOp MintOp.Ans))
    (t : TokenCache) : Prop :=
  ∃ i parsed, responseOf i tr = some parsed ∧ Cached v (callsOf i tr) parsed t

/-- Mints that succeed and do not start to store while another is storing leave the answer
of one of them in the cache. -/
theorem overlapping_mints_consistent
    {s : TokenCache} {tr : List (Event ι MintOp MintOp.Ans)}
    {d : Config ι MintOp MintOp.Ans (fun _ => Except MintFailure String) TokenCache}
    {tokens : ι → String}
    (i₀ : ι)
    (hrun : Run (mintSem v) anyStep (mintPool ι cfg s) tr d)
    (hdone : ∀ i, d.progs i = ret (.ok (tokens i)))
    (halone : StoresAlone tr) :
    OneIdentity v tr d.state := by
  have hpaths : ∀ i, ∃ parsed claims l₁ l₂, callsOf i tr = l₁ ++ l₂ ∧
      Path (obtainTokens cfg) l₁ (ret (.ok (parsed, claims))) ∧
      Path (cacheTokens parsed claims) l₂ (ret ()) := by
    intro i
    have hpath := hrun.path i
    rw [hdone i] at hpath
    obtain ⟨parsed, claims, l₁, l₂, hcalls, -, hobtain, hcache⟩ := path_mint_ok hpath
    exact ⟨parsed, claims, l₁, l₂, hcalls, hobtain, hcache⟩
  choose parsed claims outside inside hcalls hobtain hcache using hpaths
  obtain ⟨i, u, hsection⟩ := hrun.last_section hcalls
    (fun i => bracketed_stores (hobtain i) (hcache i)) halone i₀
  have hverified : ∀ rawJWT audience claims,
      ⟨.verify rawJWT audience, .ok claims⟩ ∈ outside i ++ inside i →
      ∃ now, v.verify now rawJWT audience = .ok claims := by
    intro rawJWT audience claims hmem
    rw [← hcalls i] at hmem
    have hevent := List.mem_map_of_mem (f := Event.call) (mem_of_mem_callsOf hmem)
    exact verified_of_exec hrun.exec hevent
  obtain ⟨hresponse, hcached⟩ := cached_of_stores (hobtain i) (hcache i) hsection hverified
  refine ⟨i, parsed i, ?_, ?_⟩
  · rw [responseOf, hcalls i]
    exact hresponse
  · rw [hcalls i]
    exact hcached

end Overlap

section Stores

variable {cfg : MintConfig} {v : Verifier} {calls : List MintCall}

/-- A token is stored after it was verified for the audience of its cell. -/
def StoresVerified (calls : List MintCall) : MintOp → Prop
  | .tokenStore token => ∃ claims, ⟨.verify token audP2P, .ok claims⟩ ∈ calls
  | .servicesTokenStore token =>
      token = "" ∨ ∃ claims, ⟨.verify token audServices, .ok claims⟩ ∈ calls
  | _ => True

theorem Reads.storesVerified
    {op : MintOp}
    (h : Reads op) :
    StoresVerified calls op := by
  cases op with
  | tokenStore _ | servicesTokenStore _ => exact h.elim
  | _ => trivial

theorem along_cacheTokens
    {parsed : MintResponse} {claims : Claims}
    (h : ⟨.verify parsed.accessToken audP2P, .ok claims⟩ ∈ calls) :
    (cacheTokens parsed claims).Along StoresVerified (fun _ _ => True) calls := by
  refine ⟨⟨claims, h⟩, fun _ => ⟨trivial, fun _ => ⟨trivial, fun _ => ⟨trivial, fun _ => ?_⟩⟩⟩⟩
  refine ((forall_servicesVerified trivial).along_path
    (fun _ _ => Reads.storesVerified) _).bind ?_
  rintro _ services ⟨l, rfl, hpath⟩
  cases services with
  | none => exact ⟨Or.inl rfl, fun _ => ⟨trivial, fun _ => trivial⟩⟩
  | some c =>
      have hmem := path_servicesVerified hpath
      exact ⟨Or.inr ⟨c, List.mem_append_right _ hmem⟩, fun _ => ⟨trivial, fun _ => trivial⟩⟩

theorem along_mint :
    (mint cfg).Along StoresVerified (fun _ _ => True) calls := by
  refine (forall_obtainTokens.along_path (fun _ _ => Reads.storesVerified) _).bind ?_
  rintro _ obtained ⟨l, rfl, hpath⟩
  cases obtained with
  | error failure => trivial
  | ok got =>
      have hmem := (path_obtainTokens hpath).2
      exact (along_cacheTokens (List.mem_append_right _ hmem)).bind fun _ _ _ => trivial

theorem along_of_cached
    {cell : Option String} {rest : MintProg (Except MintFailure String)}
    (h : rest.Along StoresVerified (fun _ _ => True) calls) :
    (if fromPointer cell ≠ "" then pure (.ok (fromPointer cell)) else rest).Along
      StoresVerified (fun _ _ => True) calls := by
  split
  · trivial
  · exact h

theorem along_handshakeToken :
    (handshakeToken cfg).Along StoresVerified (fun _ _ => True) calls := by
  unfold handshakeToken token
  split
  · exact ⟨trivial, fun _ => along_of_cached along_mint⟩
  · trivial

theorem along_servicesToken :
    (servicesToken cfg).Along StoresVerified (fun _ _ => True) calls := by
  unfold servicesToken
  split
  · refine ⟨trivial, fun _ => along_of_cached ⟨trivial, fun _ => along_of_cached ?_⟩⟩
    refine along_mint.bind fun _ minted _ => ?_
    cases minted with
    | error failure => trivial
    | ok token => exact ⟨trivial, fun _ => along_of_cached ⟨trivial, fun _ => trivial⟩⟩
  · trivial

theorem TokensVerified.step
    {s t : TokenCache} {op : MintOp} {r : op.Ans}
    (h : TokensVerified v s)
    (hverified : ∀ token audience claims, ⟨.verify token audience, .ok claims⟩ ∈ calls →
      VerifiedFor v audience token)
    (hstores : StoresVerified calls op)
    (hsem : mintSem v op s r t) :
    TokensVerified v t := by
  cases op with
  | tokenStore token =>
      obtain ⟨claims, hmem⟩ := hstores
      rw [show t = _ from hsem]
      refine ⟨fun token' htoken => ?_, h.services⟩
      cases htoken
      exact hverified _ _ _ hmem
  | servicesTokenStore token =>
      rw [show t = _ from hsem]
      refine ⟨h.token, fun token' htoken hne => ?_⟩
      cases htoken
      obtain ⟨claims, hmem⟩ := hstores.resolve_left hne
      exact hverified _ _ _ hmem
  | claimsStore _ | operatorIDStore _ | indexesReplace _ | servicesClaimsStore _ =>
      rw [show t = _ from hsem]
      exact ⟨h.token, h.services⟩
  | verify _ _ | tokenLoad | servicesTokenLoad =>
      rw [hsem.2]
      exact h
  | _ =>
      rw [show t = s from hsem]
      exact h

/-- Whatever the overlap of the calls that mint, and even if the identity in the cache is
torn, each cell holds at every moment a token that was verified for its audience. -/
theorem overlapping_tokens_verified
    {ι : Type} [DecidableEq ι] {tr : List (Event ι MintOp MintOp.Ans)}
    {c d : Config ι MintOp MintOp.Ans (fun _ => Except MintFailure String) TokenCache}
    (hprogs : ∀ i, c.progs i = mint cfg ∨ c.progs i = handshakeToken cfg ∨
      c.progs i = servicesToken cfg)
    (hstart : TokensVerified v c.state)
    (hrun : Run (mintSem v) anyStep c tr d) :
    TokensVerified v d.state := by
  have halong : ∀ i, (c.progs i).Along StoresVerified (fun _ _ => True) [] := by
    intro i
    rcases hprogs i with h | h | h <;> rw [h]
    · exact along_mint
    · exact along_handshakeToken
    · exact along_servicesToken
  have hinvariant := hrun.memory_invariant (I := fun tr s => TokensVerified v s ∧
      ∀ i token audience claims, ⟨i, .verify token audience, .ok claims⟩ ∈ tr →
        VerifiedFor v audience token) halong ⟨hstart, nofun⟩ ?_
  · exact hinvariant.1
  · intro tr s i op r t h hstores hsem
    refine ⟨h.1.step (fun _ _ _ hmem => h.2 _ _ _ _ (mem_of_mem_callsOf hmem)) hstores hsem, ?_⟩
    intro j token audience claims hmem
    rcases List.mem_append.mp hmem with hmem | hmem
    · exact h.2 j token audience claims hmem
    · cases List.mem_singleton.mp hmem
      obtain ⟨⟨now, hnow⟩, -⟩ := hsem
      exact ⟨now, claims, hnow.symm⟩

end Stores

section Torn

inductive Minter where
  | token
  | refreshLoop
deriving DecidableEq

def events (i : Minter) (l : List MintCall) :
    List (Event Minter MintOp MintOp.Ans) :=
  l.map fun x => ⟨i, x.1, x.2⟩

/-- The calls of the `Token` call, and those of the refresh loop. -/
def tokenCalls : List MintCall :=
  mintCalls tokenA "op-1" ++ storeCalls tokenA "op-1"

def refreshCalls : List MintCall :=
  mintCalls tokenB "op-2" ++ storeCalls tokenB "op-2"

def mintedTokens : Minter → String
  | .token => tokenA
  | .refreshLoop => tokenB

/-- A shuffle of the calls of both mints is a run. -/
theorem run_shuffle
    {tr : List (Event Minter MintOp MintOp.Ans)} {t : TokenCache}
    (htoken : callsOf .token tr = tokenCalls)
    (hrefresh : callsOf .refreshLoop tr = refreshCalls)
    (hexec : Exec (mintSem sampleVerifier) TokenCache.empty (tr.map Event.call) t) :
    Run (mintSem sampleVerifier) anyStep (mintPool Minter keyConfig TokenCache.empty) tr
      ⟨fun i => ret (.ok (mintedTokens i)), t⟩ := by
  refine run_of_paths ?_ hexec
  intro i
  cases i with
  | token =>
      rw [htoken]
      exact path_mintCalls (by decide +kernel)
  | refreshLoop =>
      rw [hrefresh]
      exact path_mintCalls (by decide +kernel)

/-- The refresh loop stores everything after the first store of the `Token` call. -/
def tornTrace : List (Event Minter MintOp MintOp.Ans) :=
  events .token (mintCalls tokenA "op-1" ++ (storeCalls tokenA "op-1").take 1) ++
    (events .refreshLoop refreshCalls ++ events .token ((storeCalls tokenA "op-1").drop 1))

/-- The token of one answer beside the claims and the operator of another. -/
def tornCache : TokenCache :=
  ⟨some tokenB, some (claimsOf tokenA), some "op-1", [], some "", none⟩

theorem exec_tornTrace :
    Exec (mintSem sampleVerifier) TokenCache.empty (tornTrace.map Event.call) tornCache := by
  have hcalls : tornTrace.map Event.call =
      (mintCalls tokenA "op-1" ++ (storeCalls tokenA "op-1").take 1) ++
        (refreshCalls ++ (storeCalls tokenA "op-1").drop 1) := by
    simp [tornTrace, events, Function.comp_def, Event.call]
  rw [hcalls]
  refine Exec.append (Exec.append (exec_mintCalls (by simp) _)
    (Exec.cons rfl (Exec.nil _))) (Exec.append (Exec.append
      (exec_mintCalls (by simp) _) (exec_storeCalls _ _ _)) ?_)
  exact Exec.cons rfl (Exec.cons rfl (Exec.cons rfl (Exec.cons rfl (Exec.cons rfl
    (Exec.nil _)))))

theorem callsOf_tornTrace :
    callsOf .token tornTrace = tokenCalls ∧ callsOf .refreshLoop tornTrace = refreshCalls := by
  simp only [tornTrace, events, callsOf_append, callsOf_map, if_pos, reduceCtorEq, if_false]
  exact ⟨rfl, rfl⟩

/-- Both mints succeed, and the cache holds the token of one with the claims of the
other. -/
theorem torn_identity :
    ∃ d, Run (mintSem sampleVerifier) anyStep (mintPool Minter keyConfig TokenCache.empty)
        tornTrace d ∧
      (∀ i, d.progs i = ret (.ok (mintedTokens i))) ∧
      d.state.token = some tokenB ∧ d.state.claims = some (claimsOf tokenA) ∧
      ¬ OneIdentity sampleVerifier tornTrace d.state := by
  obtain ⟨htoken, hrefresh⟩ := callsOf_tornTrace
  refine ⟨_, run_shuffle htoken hrefresh exec_tornTrace, fun _ => rfl, rfl, rfl, ?_⟩
  intro h
  obtain ⟨i, parsed, hresponse, hcached⟩ := h
  cases i with
  | token =>
      rw [responseOf, htoken] at hresponse
      obtain rfl : answerOf tokenA "op-1" = parsed := Option.some.inj hresponse
      exact absurd hcached.token (by decide +kernel)
  | refreshLoop =>
      rw [responseOf, hrefresh] at hresponse
      obtain rfl : answerOf tokenB "op-2" = parsed := Option.some.inj hresponse
      exact absurd hcached.operatorID (by decide)

/-- The refresh loop mints after the `Token` call has returned. -/
def orderlyTrace : List (Event Minter MintOp MintOp.Ans) :=
  events .token tokenCalls ++ events .refreshLoop refreshCalls

theorem callsOf_orderlyTrace :
    callsOf .token orderlyTrace = tokenCalls ∧
      callsOf .refreshLoop orderlyTrace = refreshCalls := by
  simp [orderlyTrace, events, callsOf_append, callsOf_map]

theorem run_orderlyTrace :
    Run (mintSem sampleVerifier) anyStep (mintPool Minter keyConfig TokenCache.empty)
      orderlyTrace ⟨fun i => ret (.ok (mintedTokens i)), cacheOf tokenB "op-2"⟩ := by
  obtain ⟨htoken, hrefresh⟩ := callsOf_orderlyTrace
  refine run_shuffle htoken hrefresh ?_
  rw [orderlyTrace, events, events, List.map_append, calls_map, calls_map]
  exact Exec.append
    (Exec.append (exec_mintCalls (by simp) _) (exec_storeCalls _ _ _))
    (Exec.append (exec_mintCalls (by simp) _) (exec_storeCalls _ _ _))

theorem storesAlone_orderlyTrace :
    StoresAlone orderlyTrace := by
  refine (entersAlone_map Minter.token tokenCalls).append
    (entersAlone_map Minter.refreshLoop refreshCalls) ?_
  intro j hentered
  cases j with
  | token =>
      rw [callsOf_map, if_pos rfl]
      exact ⟨⟨.servicesClaimsStore none, ()⟩, by simp [tokenCalls, storeCalls], trivial⟩
  | refreshLoop =>
      rw [callsOf_map, if_neg (by decide)] at hentered
      obtain ⟨c, hc, -⟩ := hentered
      cases hc

theorem orderly_mints_consistent :
    OneIdentity sampleVerifier orderlyTrace (cacheOf tokenB "op-2") :=
  overlapping_mints_consistent .token run_orderlyTrace (fun _ => rfl) storesAlone_orderlyTrace

/-- The torn cache holds a verified token all the same. -/
theorem overlapping_tokens_verified_torn :
    TokensVerified sampleVerifier tornCache := by
  obtain ⟨htoken, hrefresh⟩ := callsOf_tornTrace
  exact overlapping_tokens_verified (fun _ => Or.inl rfl) tokensVerified_empty
    (run_shuffle htoken hrefresh exec_tornTrace)

end Torn

end Auth
end OptimumGateway
