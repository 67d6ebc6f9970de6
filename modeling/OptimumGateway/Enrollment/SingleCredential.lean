import OptimumGateway.Enrollment.Enroll
import Mathlib.Tactic.Common

/-!
# How many credentials one directory enrolls

The world of a gateway directory is its two files and the thumbprints that the
server has committed, each with the client id bound to it.  A gateway is booted
again and again through `LoadOrEnroll`, with other options each time, and may
crash after any operation (`Foundation.Restarts`).

The pending key is what makes the server's idempotency reachable: while a
committed thumbprint has no credential file, the pending file must hold its key.
`Enroll` keeps this on every answer but one.  A 400 drops the pending key, and a
400 says nothing about an earlier attempt whose answer was lost.  `committed_unique`
is the guarantee without that answer, and `two_credentials` the run with it.
-/

namespace OptimumGateway
namespace Enrollment

open Foundation Foundation.Prog Utils

/-- The thumbprints committed upstream, with the client id bound to each. -/
abbrev Registry := String → Option String

/-- Enrolling is idempotent by thumbprint. -/
def Registry.commit (b : Registry) (t id : String) : Registry :=
  if b t = none then Function.update b t (some id) else b

/-- Answers of the server to an enroll of the thumbprint `t`, and what each may
do to the registry.  Code 0 is a lost answer. -/
inductive Answered (t : String) (b : Registry) : Int → Registry → Prop
  | accepted {code : Int} (id : String)
      (hcode : code = 200 ∨ code = 201) : Answered t b code (b.commit t id)
  | refused {code : Int}
      (hcode : code = 400 ∨ code = 401) : Answered t b code b
  | conflict
      (hfree : b t = none) : Answered t b 409 b
  | failed {code : Int}
      (hcode : code = 0 ∨ 500 ≤ code ∧ code < 600) : Answered t b code b
  | failedCommitted {code : Int} (id : String)
      (hcode : code = 0 ∨ 500 ≤ code ∧ code < 600) :
      Answered t b code (b.commit t id)

/-- The files of the directory and the registry of the server. -/
structure World (Key : Type) where
  credentialFile : Option (Credential Key)
  pendingFile : Option (PKCS8 Key)
  bound : Registry

namespace World

variable {Key : Type}

/-- An empty directory, nothing committed. -/
def empty : World Key where
  credentialFile := none
  pendingFile := none
  bound := fun _ => none

/-- The thumbprint has been committed upstream. -/
def Committed (w : World Key) (t : String) : Prop :=
  w.bound t ≠ none

instance (w : World Key) (t : String) : Decidable (w.Committed t) :=
  inferInstanceAs (Decidable (w.bound t ≠ none))

end World

section Semantics

variable {Key : Type} (ops : KeyOps Key)

/-- Operations that touch neither the files nor the server. -/
def EnrollOp.quiet : EnrollOp Key → Bool
  | .mkdirAll _ | .createProbe _ | .removeProbe | .generateKey
  | .marshalCredential _ | .chmod _ | .signAssertion _ _ _ _ | .ctxDone
  | .now => true
  | _ => false

/-- Meaning of the operations.  A file that was written stays readable, a write
that fails has happened or has not, and every other failure is possible. -/
def enrollSem : Sem (EnrollOp Key) EnrollOp.Ans (World Key)
  | .loadCredentialFile, w, r, w' =>
      w' = w ∧ match w.credentialFile with
        | some c => r = .ok (.ok c)
        | none => ∃ err, r = .error err
  | .loadPendingFile, w, r, w' =>
      w' = w ∧ match w.pendingFile with
        | some pkcs8 => r = .ok pkcs8
        | none => ∃ err, r = .error err
  | .marshalPKCS8 key, w, r, w' =>
      w' = w ∧ ∀ pkcs8, r = .ok pkcs8 → pkcs8 = .p256 key
  | .savePendingFile pkcs8, w, r, w' =>
      w' = { w with pendingFile := some pkcs8 } ∨ r ≠ none ∧ w' = w
  | .saveCredentialFile c, w, r, w' =>
      w' = { w with credentialFile := some c } ∨ r ≠ none ∧ w' = w
  | .removePendingFile, w, r, w' =>
      w' = { w with pendingFile := none } ∨ r ≠ none ∧ w' = w
  | .post _ req, w, r, w' =>
      ∃ b, Answered (req.publicJWK.thumbprint ops) w.bound r.code b ∧
        w' = { w with bound := b }
  | _, w, _, w' => w' = w

variable {ops} in
theorem enrollSem_quiet
    {op : EnrollOp Key} {w w' : World Key} {r : op.Ans}
    (hquiet : op.quiet = true)
    (h : enrollSem ops op w r w') :
    w' = w := by
  cases op with
  | mkdirAll | createProbe | removeProbe | generateKey | marshalCredential
  | chmod | signAssertion | ctxDone | now => exact h
  | _ => exact nomatch hquiet

/-- No enroll whose thumbprint is already committed is answered 400. -/
def NoRefusalAfterCommit : (op : EnrollOp Key) → World Key → op.Ans → Prop
  | .post _ req, w, r =>
      r.code = 400 → ¬ w.Committed (req.publicJWK.thumbprint ops)
  | _, _, _ => True

/-- The operations with the answers that meet the condition. -/
abbrev guardedSem : Sem (EnrollOp Key) EnrollOp.Ans (World Key) :=
  (enrollSem ops).restrict (NoRefusalAfterCommit ops)

end Semantics

section Walks

variable {Key σ α : Type} {sem : Sem (EnrollOp Key) EnrollOp.Ans σ}
variable {I : σ → Prop} {s : σ} {dir : String}

/-- The quiet operations leave the memory as it is. -/
def KeepsQuiet (sem : Sem (EnrollOp Key) EnrollOp.Ans σ) : Prop :=
  ∀ op s r t, op.quiet = true → sem op s r t → t = s

variable (hsem : KeepsQuiet sem)
include hsem

theorem safe_quiet_bind
    {Q : α → σ → Prop} {op : EnrollOp Key} {f : op.Ans → EnrollM Key α}
    (hquiet : op.quiet = true)
    (hs : I s)
    (hf : ∀ r, SafeOk sem I Q (f r) s) :
    SafeOk sem I Q (perform op >>= f) s := by
  have hop : SafeOk sem I (fun _ t => t = s) (perform op) s := by
    refine SafeOk.liftOp hs ?_
    intro r t h
    have ht : t = s := hsem op s r t hquiet h
    subst ht
    exact ⟨hs, rfl⟩
  refine hop.bind ?_
  intro r t _ ht
  subst ht
  exact hf r

theorem safe_tightenBeforeWrite_bind
    {Q : α → σ → Prop} {path : String} {f : Unit → EnrollM Key α}
    (hs : I s)
    (hf : SafeOk sem I Q (f ()) s) :
    SafeOk sem I Q (tightenBeforeWrite path >>= f) s := by
  have htighten : SafeOk sem I (fun _ t => t = s)
      (tightenBeforeWrite path) s := by
    refine safe_quiet_bind hsem (by rfl) hs ?_
    intro err
    exact SafeOk.failWith hs fun _ => rfl
  refine htighten.bind ?_
  intro _ t _ ht
  subst ht
  exact hf

theorem safe_ensureWritable
    (hs : I s) :
    SafeOk sem I (fun _ t => t = s) (ensureWritable dir) s := by
  refine safe_quiet_bind hsem (by rfl) hs ?_
  intro created
  refine SafeOk.failWith_bind hs ?_
  intro _
  refine safe_quiet_bind hsem (by rfl) hs ?_
  intro probe
  refine SafeOk.failWith_bind hs ?_
  intro _
  refine safe_quiet_bind hsem (by rfl) hs ?_
  intro removed
  exact SafeOk.failWith hs fun _ => rfl

/-- A fresh key is marshalled and saved before it is returned. -/
theorem safe_newPendingKey_of_save
    {Q : Key × PKCS8 Key → σ → Prop}
    (hs : I s)
    (hmarshal : ∀ key r t, sem (.marshalPKCS8 key) s r t →
      t = s ∧ ∀ pkcs8, r = .ok pkcs8 → pkcs8 = .p256 key)
    (hsave : ∀ key r t, sem (.savePendingFile (.p256 key)) s r t →
      I t ∧ (r = none → Q (key, .p256 key) t)) :
    SafeOk sem I Q (newPendingKey dir) s := by
  refine safe_quiet_bind hsem (by rfl) hs ?_
  intro generated
  refine SafeOk.orFail_bind hs ?_
  intro key _
  have hmarshalled : SafeOk sem I
      (fun r t => t = s ∧ ∀ pkcs8, r = .ok pkcs8 → pkcs8 = .p256 key)
      (perform (.marshalPKCS8 key)) s := by
    refine SafeOk.liftOp hs ?_
    intro r t h
    obtain ⟨rfl, hr⟩ := hmarshal key r t h
    exact ⟨hs, rfl, hr⟩
  refine hmarshalled.bind ?_
  intro marshalled t _ h
  obtain ⟨rfl, hp256⟩ := h
  refine SafeOk.orFail_bind hs ?_
  intro pkcs8 hok
  obtain rfl : pkcs8 = .p256 key := hp256 pkcs8 hok
  refine safe_tightenBeforeWrite_bind hsem hs ?_
  refine (SafeOk.liftOp hs (hsave key)).bind ?_
  intro written u hu hwritten
  refine SafeOk.failWith_bind hu ?_
  intro hnil
  exact SafeOk.pure hu (hwritten hnil)

omit hsem in
theorem safe_clearPendingKey
    {Q : σ → Prop}
    (hs : I s)
    (hremove : ∀ r t, sem .removePendingFile s r t → I t ∧ Q t) :
    SafeOk sem I (fun _ t => Q t) clearPendingKey s := by
  refine (SafeOk.liftOp hs hremove).bind ?_
  intro _ t ht hQ
  exact SafeOk.pure ht hQ

omit hsem in
theorem fillThumbprint_eq_ok
    {ops : KeyOps Key} {c : Credential Key} {key : Key}
    (hkey : c.privateKey = .p256 key)
    (hthumb : keyThumbprint ops key = .ok c.thumbprint) :
    fillThumbprint ops c = .ok c := by
  have hensure : c.ensureKey = .ok key := by
    unfold Credential.ensureKey
    rw [hkey]
  unfold fillThumbprint
  split
  · rw [hensure]
    change (keyThumbprint ops key >>= _) = _
    rw [hthumb]
    rfl
  · rfl

/-- `Save` writes a credential whose thumbprint is its key's as it is. -/
theorem safe_save_of_write
    {Q : Credential Key → σ → Prop} {ops : KeyOps Key}
    {c : Credential Key} {key : Key}
    (hs : I s)
    (hkey : c.privateKey = .p256 key)
    (hthumb : keyThumbprint ops key = .ok c.thumbprint)
    (hwrite : ∀ r t, sem (.saveCredentialFile c) s r t →
      I t ∧ (r = none → Q c t)) :
    SafeOk sem I Q (save ops dir c) s := by
  refine safe_quiet_bind hsem (by rfl) hs ?_
  intro created
  refine SafeOk.failWith_bind hs ?_
  intro _
  rw [fillThumbprint_eq_ok hkey hthumb]
  refine SafeOk.orFail_bind hs ?_
  intro c' hc'
  cases hc'
  refine safe_quiet_bind hsem (by rfl) hs ?_
  intro marshalled
  refine SafeOk.failWith_bind hs ?_
  intro _
  refine safe_tightenBeforeWrite_bind hsem hs ?_
  refine (SafeOk.liftOp hs hwrite).bind ?_
  intro written t ht hwritten
  refine SafeOk.failWith_bind ht ?_
  intro hnil
  exact SafeOk.pure ht (hwritten hnil)

end Walks

section Registry

variable {t : String} {b b' : Registry} {code : Int}

theorem Registry.commit_of_committed
    {id : String}
    (h : b t ≠ none) :
    b.commit t id = b := by
  unfold Registry.commit
  rw [if_neg h]

theorem Registry.commit_ne_none
    {id t' : String}
    (h : b.commit t id t' ≠ none) :
    t' = t ∨ b t' ≠ none := by
  unfold Registry.commit at h
  by_cases hb : b t = none
  · rw [if_pos hb] at h
    by_cases ht : t' = t
    · exact Or.inl ht
    · rw [Function.update_of_ne ht] at h
      exact Or.inr h
  · rw [if_neg hb] at h
    exact Or.inr h

/-- An enroll commits at most the thumbprint it submits. -/
theorem Answered.committed
    (h : Answered t b code b')
    {t' : String}
    (ht : b' t' ≠ none) :
    t' = t ∨ b t' ≠ none := by
  cases h with
  | accepted id _ => exact Registry.commit_ne_none ht
  | refused _ | conflict _ | failed _ => exact Or.inr ht
  | failedCommitted id _ => exact Registry.commit_ne_none ht

/-- A refusal leaves the registry as it is, and a conflict is answered only for a
thumbprint that is not committed. -/
theorem Answered.refusal
    (h : Answered t b code b')
    (hcode : code = 400 ∨ code = 409) :
    b' = b ∧ (code = 409 → b t = none) := by
  cases h with
  | accepted id h => omega
  | refused h =>
      refine ⟨rfl, ?_⟩
      intro h'
      omega
  | conflict hfree => exact ⟨rfl, fun _ => hfree⟩
  | failed h | failedCommitted id h => omega

end Registry

section Invariant

variable {Key : Type} (ops : KeyOps Key)

/-- At most one thumbprint is committed, and its key is still in the directory:
in the credential file, which loads, or in the pending file. -/
structure OneCredential (w : World Key) : Prop where
  unique : ∀ t t', w.Committed t → w.Committed t' → t = t'
  held : ∀ t, w.Committed t → w.credentialFile.isSome ∨
    ∃ key, w.pendingFile = some (.p256 key) ∧ keyThumbprint ops key = .ok t
  loads : ∀ c, w.credentialFile = some c →
    ∀ dir, checkCredential ops dir c = .ok c

/-- During an attempt there is no credential yet, the pending file holds the key,
and nothing but its thumbprint is committed. -/
structure Attempt (key : Key) (t : String) (w : World Key) : Prop where
  noCredential : w.credentialFile = none
  pending : w.pendingFile = some (.p256 key)
  thumbprint : keyThumbprint ops key = .ok t
  only : ∀ t', w.Committed t' → t' = t

variable {ops} {w : World Key} {key : Key} {t : String}

theorem oneCredential_empty :
    OneCredential ops (World.empty : World Key) := by
  constructor
  · intro t t' h
    exact absurd rfl h
  · intro t h
    exact absurd rfl h
  · intro c hc
    exact nomatch hc

theorem Attempt.oneCredential
    (h : Attempt ops key t w) :
    OneCredential ops w := by
  constructor
  · intro t₁ t₂ h₁ h₂
    rw [h.only t₁ h₁, h.only t₂ h₂]
  · intro t' ht'
    rw [h.only t' ht']
    exact Or.inr ⟨key, h.pending, h.thumbprint⟩
  · intro c hc
    rw [h.noCredential] at hc
    exact nomatch hc

/-- While nothing is committed the files may change in any way that leaves no
credential behind. -/
theorem oneCredential_of_uncommitted
    (hnone : w.credentialFile = none)
    (hfree : ∀ t, ¬ w.Committed t) :
    OneCredential ops w := by
  constructor
  · intro t t' h
    exact absurd h (hfree t)
  · intro t h
    exact absurd h (hfree t)
  · intro c hc
    rw [hnone] at hc
    exact nomatch hc

/-- The pending key may be dropped once the credential file is there. -/
theorem OneCredential.dropPending
    (h : OneCredential ops w)
    (hcred : w.credentialFile.isSome) :
    OneCredential ops { w with pendingFile := none } := by
  exact ⟨h.unique, fun _ _ => Or.inl hcred, h.loads⟩

end Invariant

section Boot

variable {Key : Type} {ops : KeyOps Key} {w : World Key} {key : Key} {t : String} {dir : String}
variable {r : Response EnrollResponse} {opts : Options}

theorem guarded_keepsQuiet :
    KeepsQuiet (guardedSem ops) := by
  intro op w r w' hquiet h
  exact enrollSem_quiet hquiet h.1

/-- A fresh key is saved before it is used.  Nothing may be committed yet. -/
theorem safe_newPendingKey
    (hnone : w.credentialFile = none)
    (hfree : ∀ t, ¬ w.Committed t) :
    SafeOk (guardedSem ops) (OneCredential ops)
      (fun p w' => p.2 = .p256 p.1 ∧ w'.credentialFile = none ∧
        w'.pendingFile = some (.p256 p.1) ∧ ∀ t, ¬ w'.Committed t)
      (newPendingKey dir) w := by
  have hw : OneCredential ops w := oneCredential_of_uncommitted hnone hfree
  refine safe_newPendingKey_of_save guarded_keepsQuiet hw ?_ ?_
  · intro key r w' h
    exact h.1
  · intro key r w' h
    rcases h.1 with rfl | ⟨hr, rfl⟩
    · exact ⟨oneCredential_of_uncommitted hnone hfree,
        fun _ => ⟨rfl, hnone, rfl, hfree⟩⟩
    · exact ⟨hw, fun h => absurd h hr⟩

/-- The key that `pendingKey` returns is in the pending file, and if something is
committed it is this key's thumbprint. -/
theorem safe_pendingKey
    (hw : OneCredential ops w)
    (hnone : w.credentialFile = none) :
    SafeOk (guardedSem ops) (OneCredential ops)
      (fun p w' => p.2 = .p256 p.1 ∧ w'.credentialFile = none ∧
        w'.pendingFile = some (.p256 p.1) ∧
        ∀ t, w'.Committed t → keyThumbprint ops p.1 = .ok t)
      (pendingKey dir) w := by
  have hheld : ∀ t, w.Committed t →
      ∃ key, w.pendingFile = some (.p256 key) ∧
        keyThumbprint ops key = .ok t := by
    intro t ht
    rcases hw.held t ht with hsome | hkey
    · rw [hnone] at hsome
      exact nomatch hsome
    · exact hkey
  have hload :
      SafeOk (guardedSem ops) (OneCredential ops)
        (fun r w' => w' = w ∧
          ∀ key, r = .ok (.p256 key) ↔ w.pendingFile = some (.p256 key))
        (perform .loadPendingFile) w := by
    refine SafeOk.liftOp hw ?_
    intro r w' h
    obtain ⟨⟨rfl, hr⟩, _⟩ := h
    refine ⟨hw, rfl, ?_⟩
    intro key
    cases hp : w'.pendingFile with
    | none =>
        rw [hp] at hr
        obtain ⟨err, rfl⟩ := hr
        simp
    | some pkcs8 =>
        rw [hp] at hr
        subst hr
        simp
  refine hload.bind ?_
  intro loaded w' hI heq
  obtain ⟨rfl, hloaded⟩ := heq
  by_cases hkey : ∃ key, loaded = .ok (.p256 key)
  · obtain ⟨key, rfl⟩ := hkey
    have hpending := (hloaded key).mp rfl
    refine SafeOk.pure hI ⟨rfl, hnone, hpending, ?_⟩
    intro t ht
    obtain ⟨key', hpending', hthumb⟩ := hheld t ht
    rw [hpending] at hpending'
    cases hpending'
    exact hthumb
  · have hfree : ∀ t, ¬ w'.Committed t := by
      intro t ht
      obtain ⟨key, hpending, _⟩ := hheld t ht
      exact hkey ⟨key, (hloaded key).mpr hpending⟩
    have hstep : SafeOk (guardedSem ops) (OneCredential ops)
        (fun p w' => p.2 = .p256 p.1 ∧ w'.credentialFile = none ∧
          w'.pendingFile = some (.p256 p.1) ∧
          ∀ t, w'.Committed t → keyThumbprint ops p.1 = .ok t)
        (newPendingKey dir) w' := by
      refine (safe_newPendingKey hnone hfree).mono ?_
      intro r u hr p hp
      obtain ⟨h₁, h₂, h₃, h₄⟩ := hr p hp
      exact ⟨h₁, h₂, h₃, fun t ht => absurd ht (h₄ t)⟩
    split
    · exact absurd ⟨_, rfl⟩ hkey
    · exact hstep

/-- An answer to the POST keeps the attempt, and a refusal that drops the key
means that nothing is committed. -/
theorem safe_post
    {url : String} {req : EnrollRequest}
    (hjwk : req.publicJWK.thumbprint ops = t)
    (hw : Attempt ops key t w) :
    Safe (guardedSem ops) (OneCredential ops)
      (fun r w' => Attempt ops key t w' ∧
        (r.code = 400 ∨ r.code = 409 → ∀ t, ¬ w'.Committed t))
      (Prog.op (EnrollOp.post url req)) w := by
  refine ⟨hw.oneCredential, ?_⟩
  intro r w' h
  obtain ⟨⟨b, hanswer, rfl⟩, hguard⟩ := h
  rw [hjwk] at hanswer
  have hattempt : Attempt ops key t { w with bound := b } := by
    refine ⟨hw.noCredential, hw.pending, hw.thumbprint, ?_⟩
    intro t' ht'
    rcases hanswer.committed ht' with h | h
    · exact h
    · exact hw.only t' h
  refine ⟨hattempt.oneCredential, hattempt, ?_⟩
  intro hcode t' ht'
  obtain ⟨rfl, hconflict⟩ := hanswer.refusal hcode
  have ht : w.Committed t := hw.only t' ht' ▸ ht'
  rcases hcode with h400 | h409
  · exact hguard h400 (hjwk ▸ ht)
  · exact ht (hconflict h409)

theorem safe_postEnroll
    {url : String} {req : EnrollRequest}
    (hjwk : req.publicJWK.thumbprint ops = t)
    (hw : Attempt ops key t w) :
    Safe (guardedSem ops) (OneCredential ops)
      (fun r w' => Attempt ops key t w' ∧
        (r.code = 400 ∨ r.code = 409 → ∀ t, ¬ w'.Committed t))
      (postEnroll url req) w := by
  refine safe_retryLoop ?_ ?_ _ hw
  · intro w' hw'
    exact safe_post hjwk hw'
  · intro r w' hw' hr
    refine ⟨hw'.oneCredential, ?_⟩
    intro done w'' h
    have heq : w'' = w' := h.1
    subst heq
    exact ⟨hw'.oneCredential, hw', hr⟩

/-- A credential built from an accepted answer passes the checks of `Load`. -/
theorem checkCredential_eq_ok
    {c : Credential Key}
    (hid : c.clientID ≠ "")
    (hkey : c.privateKey = .p256 key)
    (hthumb : keyThumbprint ops key = .ok c.thumbprint) :
    checkCredential ops dir c = .ok c := by
  have hensure : c.ensureKey = .ok key := by
    unfold Credential.ensureKey
    rw [hkey]
  unfold checkCredential
  rw [hensure, if_neg hid]
  change (keyThumbprint ops key >>= _) = _
  rw [hthumb]
  have hsame : ¬ c.thumbprint ≠ c.thumbprint := not_not_intro rfl
  exact if_neg hsame

/-- The pending key may be removed once it is no longer needed. -/
theorem removePendingFile_keeps
    {w' : World Key} {r : Option GoError}
    (hw : OneCredential ops w)
    (hdrop : OneCredential ops { w with pendingFile := none })
    (h : guardedSem ops .removePendingFile w r w') :
    OneCredential ops w' := by
  rcases h.1 with rfl | ⟨_, rfl⟩
  · exact hdrop
  · exact hw

/-- Saving the credential of the attempt leaves a credential file that loads. -/
theorem safe_save
    {c : Credential Key}
    (hw : Attempt ops key t w)
    (hid : c.clientID ≠ "")
    (hkey : c.privateKey = .p256 key)
    (hthumb : c.thumbprint = t) :
    SafeOk (guardedSem ops) (OneCredential ops)
      (fun _ w' => w'.credentialFile.isSome) (save ops dir c) w := by
  have hI := hw.oneCredential
  have hthumbprint : keyThumbprint ops key = .ok c.thumbprint := by
    rw [hthumb]
    exact hw.thumbprint
  refine safe_save_of_write guarded_keepsQuiet hI hkey hthumbprint ?_
  intro r w' h
  rcases h.1 with rfl | ⟨hr, rfl⟩
  · refine ⟨⟨hI.unique, fun _ _ => Or.inl rfl, ?_⟩, fun _ => rfl⟩
    intro c' hc' dir'
    cases hc'
    exact checkCredential_eq_ok hid hkey hthumbprint
  · exact ⟨hI, fun h => absurd h hr⟩

/-- Only an accepted answer passes the switch on the status. -/
theorem code_of_classifyStatus_ok
    (h : classifyStatus r = .ok ()) :
    r.code = 200 ∨ r.code = 201 := by
  by_contra hcode
  unfold classifyStatus at h
  rw [if_neg hcode] at h
  split at h
  · exact nomatch h
  · split at h
    · split at h
      · split at h <;> exact nomatch h
      · exact nomatch h
    · split at h <;> exact nomatch h

theorem acceptedResponse_eq_ok
    {parsed : EnrollResponse}
    (h : acceptedResponse r = .ok parsed) :
    r.res = some parsed ∧ parsed.clientID ≠ "" := by
  unfold acceptedResponse at h
  split at h
  · split at h
    · exact nomatch h
    · cases h
      constructor <;> assumption
  · exact nomatch h

/-- The pending key is dropped only on a refusal. -/
theorem safe_dropRefusedKey
    {code : Int}
    (hw : Attempt ops key t w)
    (hfree : code = 400 ∨ code = 409 → ∀ t, ¬ w.Committed t) :
    SafeOk (guardedSem ops) (OneCredential ops)
      (fun _ w' => ¬ (code = 400 ∨ code = 409) → w' = w)
      (dropRefusedKey code) w := by
  unfold dropRefusedKey
  by_cases hcode : code = 400 ∨ code = 409
  · rw [if_pos hcode]
    have hdrop : OneCredential ops { w with pendingFile := none } :=
      oneCredential_of_uncommitted hw.noCredential (hfree hcode)
    have hclear := safe_clearPendingKey hw.oneCredential
      (fun _ _ h => ⟨removePendingFile_keeps hw.oneCredential hdrop h, trivial⟩)
    refine hclear.mono ?_
    intro _ _ _ _ _ h
    exact absurd hcode h
  · rw [if_neg hcode]
    exact SafeOk.pure hw.oneCredential fun _ => rfl

theorem safe_finishEnroll
    (hw : Attempt ops key t w)
    (hfree : r.code = 400 ∨ r.code = 409 → ∀ t, ¬ w.Committed t) :
    SafeOk (guardedSem ops) (OneCredential ops) (fun _ _ => True)
      (finishEnroll ops opts (.p256 key) t r) w := by
  refine SafeOk.failIf_bind hw.oneCredential ?_
  intro _
  refine (safe_dropRefusedKey hw hfree).bind ?_
  intro _ w₁ h₁ hkept
  refine SafeOk.orFail_bind h₁ ?_
  intro _ hstatus
  have hcode := code_of_classifyStatus_ok hstatus
  have heq : w₁ = w := hkept (by omega)
  subst heq
  refine SafeOk.orFail_bind h₁ ?_
  intro parsed hparsed
  refine safe_quiet_bind guarded_keepsQuiet (by rfl) h₁ ?_
  intro now
  refine (safe_save hw (acceptedResponse_eq_ok hparsed).2 rfl rfl).bind ?_
  intro cred w₂ h₂ hsome
  have hclear := safe_clearPendingKey h₂
    (fun _ _ h => ⟨removePendingFile_keeps h₂ (h₂.dropPending hsome) h, trivial⟩)
  refine hclear.bind ?_
  intro _ w₃ h₃ _
  exact SafeOk.pure h₃ trivial

theorem safe_submitKey
    {jwk : PublicJWK}
    (hw : Attempt ops key (jwk.thumbprint ops) w) :
    SafeOk (guardedSem ops) (OneCredential ops) (fun _ _ => True)
      (submitKey ops opts key (.p256 key) jwk) w := by
  refine safe_quiet_bind guarded_keepsQuiet (by rfl) hw.oneCredential ?_
  intro signed
  refine SafeOk.orFail_bind hw.oneCredential ?_
  intro assertion _
  refine SafeOk.bind (SafeOk.lift (safe_postEnroll ?_ hw)) ?_
  · rfl
  · intro r w' _ hposted
    exact safe_finishEnroll hposted.1 hposted.2

/-- Enrolling is safe when there is no credential file. -/
theorem safe_enroll
    (hw : OneCredential ops w)
    (hnone : w.credentialFile = none) :
    SafeOk (guardedSem ops) (OneCredential ops) (fun _ _ => True)
      (enroll ops opts) w := by
  refine SafeOk.failIf_bind hw ?_
  intro _
  refine SafeOk.failIf_bind hw ?_
  intro _
  refine (safe_ensureWritable guarded_keepsQuiet hw).bind ?_
  intro _ w₁ _ h₁
  subst h₁
  refine (safe_pendingKey hw hnone).bind ?_
  intro pair w₂ h₂ hpending
  obtain ⟨key, pkcs8⟩ := pair
  obtain ⟨hpkcs8, hnone₂, hfile, honly⟩ := hpending
  obtain rfl : pkcs8 = .p256 key := hpkcs8
  refine SafeOk.orFail_bind h₂ ?_
  intro jwk hjwk
  have hthumb : keyThumbprint ops key = .ok (jwk.thumbprint ops) := by
    unfold keyThumbprint
    rw [hjwk]
    rfl
  refine safe_submitKey ⟨hnone₂, hfile, hthumb, ?_⟩
  intro t' ht'
  have h : keyThumbprint ops key = .ok t' := honly t' ht'
  rw [hthumb] at h
  cases h
  rfl

/-- `Load` returns a credential exactly when the credential file is there. -/
theorem safe_load
    (hw : OneCredential ops w) :
    Safe (guardedSem ops) (OneCredential ops)
      (fun r w' => w' = w ∧
        match r with
        | .ok _ => w.credentialFile.isSome
        | .error _ => w.credentialFile = none)
      (load ops dir).run w := by
  refine ⟨hw, ?_⟩
  intro read w' h
  obtain ⟨⟨rfl, hread⟩, _⟩ := h
  cases hfile : w'.credentialFile with
  | none =>
      rw [hfile] at hread
      obtain ⟨err, rfl⟩ := hread
      exact ⟨hw, rfl, rfl⟩
  | some c =>
      rw [hfile] at hread
      subst hread
      have hcheck := hw.loads c hfile dir
      change Safe _ _ _ (ExceptT.run (orFail id (checkCredential ops dir c))) w'
      rw [hcheck]
      exact ⟨hw, rfl, rfl⟩

theorem safe_loadOrEnroll
    (opts : Options)
    (hw : OneCredential ops w) :
    SafeOk (guardedSem ops) (OneCredential ops) (fun _ _ => True)
      (loadOrEnroll ops opts) w := by
  refine (SafeOk.lift (safe_load hw)).bind ?_
  intro loaded w' _ hloaded
  obtain ⟨rfl, hfile⟩ := hloaded
  cases loaded with
  | ok cred =>
      refine SafeOk.failIf_bind hw ?_
      intro _
      have hclear := safe_clearPendingKey hw
        (fun _ _ h =>
          ⟨removePendingFile_keeps hw (hw.dropPending hfile) h, trivial⟩)
      refine hclear.bind ?_
      intro _ w₁ h₁ _
      exact SafeOk.pure h₁ trivial
  | error err =>
      change SafeOk _ _ _ (if err.is errNotExist then _ else _) w'
      by_cases hmissing : err.is errNotExist
      · rw [if_pos hmissing]
        refine (safe_enroll hw hfile).bind ?_
        intro cred w₁ h₁ _
        exact SafeOk.pure h₁ trivial
      · rw [if_neg hmissing]
        exact SafeOk.throw hw

end Boot

section Histories

variable {Key : Type} {w : World Nat}

/-- One boot of the gateway. -/
def boot
    (ops : KeyOps Key)
    (opts : Options) :
    EnrollProg Key (Except GoError (Credential Key × Bool)) :=
  (loadOrEnroll ops opts).run

/-- In every history of boots in which no committed thumbprint is answered 400,
at most one thumbprint of the directory is committed. -/
theorem committed_unique
    (ops : KeyOps Key)
    {w : World Key}
    (h : Restarts (guardedSem ops) (boot ops) World.empty w)
    {t t' : String}
    (ht : w.Committed t)
    (ht' : w.Committed t') :
    t = t' := by
  have hone : OneCredential ops w := by
    refine h.invariant ?_ oneCredential_empty
    intro opts u hu
    exact (safe_loadOrEnroll opts hu).mono fun _ _ _ => trivial
  exact hone.unique t t' ht ht'

/-- The private keys 1 and 2, whose public points are the base point of P-256 and
its double.  The hash gives the SHA-256 digests of their two canonical texts,
told apart by the first digit of `x`. -/
def sampleOps : KeyOps Nat where
  publicBytes key := .ok <|
    if key = 1 then
      [4, 107, 23, 209, 242, 225, 44, 66, 71, 248, 188, 230, 229, 99, 164, 64, 242,
       119, 3, 125, 129, 45, 235, 51, 160, 244, 161, 57, 69, 216, 152, 194, 150, 79,
       227, 66, 226, 254, 26, 127, 155, 142, 231, 235, 74, 124, 15, 158, 22, 43, 206,
       51, 87, 107, 49, 94, 206, 203, 182, 64, 104, 55, 191, 81, 245]
    else
      [4, 124, 242, 123, 24, 141, 3, 79, 126, 138, 82, 56, 3, 4, 181, 26, 195, 192,
       137, 105, 226, 119, 242, 27, 53, 166, 11, 72, 252, 71, 102, 153, 120, 7, 119,
       85, 16, 219, 142, 208, 64, 41, 61, 154, 198, 159, 116, 48, 219, 186, 125, 173,
       230, 60, 233, 130, 41, 158, 4, 183, 157, 34, 120, 115, 209]
  sha256 text :=
    if text[31]? = some 97 then
      [199, 29, 1, 112, 15, 176, 50, 136, 112, 241, 171, 88, 12, 147, 158, 234, 151,
       134, 50, 135, 100, 148, 109, 176, 68, 112, 101, 92, 115, 47, 151, 67]
    else
      [2, 26, 135, 205, 166, 23, 3, 147, 51, 152, 48, 171, 178, 199, 148, 177, 80, 70,
       43, 39, 225, 14, 27, 222, 147, 29, 19, 30, 49, 255, 196, 129]

/-- The two public keys in wire shape. -/
def sampleJWK (key : Nat) : PublicJWK :=
  if key = 1 then
    ⟨"P-256", "EC", "axfR8uEsQkf4vOblY6RA8ncDfYEt6zOg9KE5RdiYwpY",
      "T-NC4v4af5uO5-tKfA-eFivOM1drMV7Oy7ZAaDe_UfU"⟩
  else
    ⟨"P-256", "EC", "fPJ7GI0DT36KUjgDBLUaw8CJaeJ38hs1pgtI_EdmmXg",
      "B3dVENuO0EApPZrGn3Qw27p9reY86YIpngS3nSJ4c9E"⟩

def sampleThumbprint (key : Nat) : String :=
  if key = 1 then "xx0BcA-wMohw8atYDJOe6peGModklG2wRHBlXHMvl0M"
  else "AhqHzaYXA5MzmDCrsseUsVBGKyfhDhvekx0THjH_xIE"

theorem sampleJWK_thumbprint_one :
    (sampleJWK 1).thumbprint sampleOps = sampleThumbprint 1 := by
  decide +kernel

theorem sampleJWK_thumbprint_two :
    (sampleJWK 2).thumbprint sampleOps = sampleThumbprint 2 := by
  decide +kernel

def sampleOptions : Options where
  issuer := "https://auth.example.org/"
  dir := "/data/enrollment"
  joinKey := "ojk_sample"
  peerID := ""
  label := "gateway-1"

/-- Calls of a boot in a directory without a credential, up to the pending key. -/
def openCalls : List (Call (EnrollOp Nat) EnrollOp.Ans) :=
  [⟨.loadCredentialFile, .error errNotExist⟩,
    ⟨.mkdirAll "/data/enrollment", none⟩,
    ⟨.createProbe "/data/enrollment", none⟩,
    ⟨.removeProbe, none⟩]

/-- Calls that generate and save a key. -/
def freshKeyCalls (key : Nat) : List (Call (EnrollOp Nat) EnrollOp.Ans) :=
  [⟨.loadPendingFile, .error errNotExist⟩,
    ⟨.generateKey, .ok key⟩,
    ⟨.marshalPKCS8 key, .ok (.p256 key)⟩,
    ⟨.chmod "/data/enrollment/enrollment.key", some errNotExist⟩,
    ⟨.savePendingFile (.p256 key), none⟩]

/-- Calls that submit a key and receive the given answer. -/
def submitCalls
    (key : Nat)
    (r : Response EnrollResponse) :
    List (Call (EnrollOp Nat) EnrollOp.Ans) :=
  [⟨.signAssertion key (sampleThumbprint key)
      "https://auth.example.org/api/v1/gateways/enroll" "", .ok "assertion"⟩,
    ⟨.post "https://auth.example.org/api/v1/gateways/enroll"
      ⟨"ojk_sample", sampleJWK key, "assertion", "", "gateway-1"⟩, r⟩]

def lostAnswer : Response EnrollResponse :=
  ⟨none, 0, some (.new "EOF")⟩

def refusal : Response EnrollResponse :=
  ⟨some ⟨"", "", "", "invalid_request"⟩, 400, none⟩

def created (clientID : String) : Response EnrollResponse :=
  ⟨some ⟨clientID, "gateway", "1", ""⟩, 201, none⟩

/-- The first boot loses the answer to its POST. -/
def lostBoot : List (Call (EnrollOp Nat) EnrollOp.Ans) :=
  openCalls ++ freshKeyCalls 1 ++ submitCalls 1 lostAnswer

/-- The second boot resumes with the pending key and is refused. -/
def refusedBoot : List (Call (EnrollOp Nat) EnrollOp.Ans) :=
  openCalls ++ [⟨.loadPendingFile, .ok (.p256 1)⟩] ++ submitCalls 1 refusal ++
    [⟨.removePendingFile, none⟩]

/-- The third boot enrolls a new key. -/
def secondKeyBoot : List (Call (EnrollOp Nat) EnrollOp.Ans) :=
  openCalls ++ freshKeyCalls 2 ++ submitCalls 2 (created "gw_2")

theorem exec_openCalls
    (hnone : w.credentialFile = none) :
    Exec (enrollSem sampleOps) w openCalls w := by
  refine Exec.cons ⟨rfl, ?_⟩ (Exec.cons rfl (Exec.cons rfl (Exec.cons rfl ?_)))
  · rw [hnone]
    exact ⟨errNotExist, rfl⟩
  · exact Exec.nil w

theorem exec_freshKeyCalls
    (key : Nat)
    (hnone : w.pendingFile = none) :
    Exec (enrollSem sampleOps) w (freshKeyCalls key)
      { w with pendingFile := some (.p256 key) } := by
  refine Exec.cons ⟨rfl, ?_⟩ (Exec.cons rfl (Exec.cons ⟨rfl, ?_⟩
    (Exec.cons rfl (Exec.cons (Or.inl rfl) (Exec.nil _)))))
  · rw [hnone]
    exact ⟨errNotExist, rfl⟩
  · intro pkcs8 h
    cases h
    rfl

theorem exec_submitCalls
    {key : Nat} {r : Response EnrollResponse} {b : Registry}
    (h : Answered ((sampleJWK key).thumbprint sampleOps) w.bound r.code b) :
    Exec (enrollSem sampleOps) w (submitCalls key r) { w with bound := b } := by
  exact Exec.cons rfl (Exec.cons ⟨b, h, rfl⟩ (Exec.nil _))

/-- After the first boot: the thumbprint is committed and its key is pending. -/
def lostWorld : World Nat where
  credentialFile := none
  pendingFile := some (.p256 1)
  bound := Registry.commit (fun _ => none) (sampleThumbprint 1) "gw_1"

theorem exec_lostBoot :
    Exec (enrollSem sampleOps) World.empty lostBoot lostWorld := by
  refine Exec.append (Exec.append (exec_openCalls rfl) (exec_freshKeyCalls 1 rfl))
    (exec_submitCalls ?_)
  rw [sampleJWK_thumbprint_one]
  exact Answered.failedCommitted "gw_1" (Or.inl rfl)

theorem accepts_lostBoot :
    ((boot sampleOps sampleOptions).rest lostBoot).isSome = true := by
  decide +kernel

/-- After the second boot the key is gone. -/
def refusedWorld : World Nat :=
  { lostWorld with pendingFile := none }

theorem exec_refusedBoot :
    Exec (enrollSem sampleOps) lostWorld refusedBoot refusedWorld := by
  have hload : Exec (enrollSem sampleOps) lostWorld
      [⟨.loadPendingFile, .ok (.p256 1)⟩] lostWorld :=
    Exec.cons ⟨rfl, rfl⟩ (Exec.nil _)
  have hsubmit : Exec (enrollSem sampleOps) lostWorld (submitCalls 1 refusal)
      lostWorld :=
    exec_submitCalls (Answered.refused (Or.inl rfl))
  have hremove : Exec (enrollSem sampleOps) lostWorld
      [⟨.removePendingFile, none⟩] refusedWorld :=
    Exec.cons (Or.inl rfl) (Exec.nil _)
  exact Exec.append (Exec.append (Exec.append (exec_openCalls rfl) hload) hsubmit) hremove

theorem accepts_refusedBoot :
    ((boot sampleOps sampleOptions).rest refusedBoot).isSome = true := by
  decide +kernel

/-- After the third boot two thumbprints are committed. -/
def secondKeyWorld : World Nat where
  credentialFile := none
  pendingFile := some (.p256 2)
  bound := lostWorld.bound.commit (sampleThumbprint 2) "gw_2"

theorem exec_secondKeyBoot :
    Exec (enrollSem sampleOps) refusedWorld secondKeyBoot secondKeyWorld := by
  refine Exec.append (Exec.append (exec_openCalls rfl) (exec_freshKeyCalls 2 rfl))
    (exec_submitCalls ?_)
  rw [sampleJWK_thumbprint_two]
  exact Answered.accepted "gw_2" (Or.inr rfl)

theorem accepts_secondKeyBoot :
    ((boot sampleOps sampleOptions).rest secondKeyBoot).isSome = true := by
  decide +kernel

/-- A lost answer, then a 400, then a new key: two thumbprints of one directory
are committed. -/
theorem two_credentials :
    Restarts (enrollSem sampleOps) (boot sampleOps) World.empty secondKeyWorld ∧
      secondKeyWorld.Committed (sampleThumbprint 1) ∧
      secondKeyWorld.Committed (sampleThumbprint 2) ∧
      sampleThumbprint 1 ≠ sampleThumbprint 2 := by
  have hlost := path_of_rest (Option.some_get accepts_lostBoot).symm
  have hrefused := path_of_rest (Option.some_get accepts_refusedBoot).symm
  have hsecond := path_of_rest (Option.some_get accepts_secondKeyBoot).symm
  have hfirst := Restarts.snoc (Restarts.nil _) hlost exec_lostBoot
  have hdropped := Restarts.snoc hfirst hrefused exec_refusedBoot
  refine ⟨Restarts.snoc hdropped hsecond exec_secondKeyBoot, ?_, ?_, ?_⟩
  · decide +kernel
  · decide +kernel
  · decide +kernel

/-- The second boot resumes with the pending key and is accepted. -/
def resumedBoot : List (Call (EnrollOp Nat) EnrollOp.Ans) :=
  openCalls ++ [⟨.loadPendingFile, .ok (.p256 1)⟩] ++
    submitCalls 1 (created "gw_1")

theorem exec_resumedBoot :
    Exec (enrollSem sampleOps) lostWorld resumedBoot lostWorld := by
  have hload : Exec (enrollSem sampleOps) lostWorld
      [⟨.loadPendingFile, .ok (.p256 1)⟩] lostWorld :=
    Exec.cons ⟨rfl, rfl⟩ (Exec.nil _)
  have hanswer : Answered ((sampleJWK 1).thumbprint sampleOps) lostWorld.bound
      201 lostWorld.bound := by
    have hbound : lostWorld.bound (sampleThumbprint 1) ≠ none := by
      decide +kernel
    have hsame : lostWorld.bound.commit (sampleThumbprint 1) "gw_1" =
        lostWorld.bound :=
      Registry.commit_of_committed hbound
    rw [sampleJWK_thumbprint_one]
    exact hsame ▸ Answered.accepted "gw_1" (Or.inr rfl)
  exact Exec.append (Exec.append (exec_openCalls rfl) hload) (exec_submitCalls hanswer)

theorem accepts_resumedBoot :
    ((boot sampleOps sampleOptions).rest resumedBoot).isSome = true := by
  decide +kernel

theorem committed_unique_resumed :
    Restarts (guardedSem sampleOps) (boot sampleOps) World.empty lostWorld ∧
      lostWorld.Committed (sampleThumbprint 1) ∧
      ∀ t, lostWorld.Committed t → sampleThumbprint 1 = t := by
  have hlost := path_of_rest (Option.some_get accepts_lostBoot).symm
  have hresumed := path_of_rest (Option.some_get accepts_resumedBoot).symm
  have hfirst : Restarts (guardedSem sampleOps) (boot sampleOps) World.empty
      lostWorld := by
    refine Restarts.snoc (Restarts.nil _) hlost (exec_lostBoot.restrict ?_)
    simp [lostBoot, openCalls, freshKeyCalls, submitCalls, lostAnswer,
      NoRefusalAfterCommit]
  have hsecond : Restarts (guardedSem sampleOps) (boot sampleOps) World.empty
      lostWorld := by
    refine Restarts.snoc hfirst hresumed (exec_resumedBoot.restrict ?_)
    simp [resumedBoot, openCalls, submitCalls, created, NoRefusalAfterCommit]
  have hcommitted : lostWorld.Committed (sampleThumbprint 1) := by
    decide +kernel
  refine ⟨hsecond, hcommitted, ?_⟩
  intro t ht
  exact committed_unique sampleOps hsecond hcommitted ht

end Histories

end Enrollment
end OptimumGateway
