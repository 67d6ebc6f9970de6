import OptimumGateway.Enrollment.SingleCredential
import Mathlib.Data.Set.Insert

/-!
# A returned credential is bound upstream, and a written one is reused

The server of this module is only assumed to answer 200 and 201 with a client id
that it has bound to the submitted thumbprint.  It may bind anything else at any
time, and every other answer is possible.  A credential file that was written may
be unreadable in some boots, but is never reported as missing.

`Site.Sound` is the crash invariant: a credential in the file pairs its client id
with the thumbprint of its key, and the server has bound the pair.  Since a sound
credential passes the checks of `Load`, a boot that reads it never reaches
`Enroll`; what such a boot may do is read off its paths (`reuse_path`).
-/

namespace OptimumGateway
namespace Enrollment

open Foundation Foundation.Prog Utils

/-- The files of the directory, and the pairs of a thumbprint and a client id
that the server has bound so far. -/
structure Site (Key : Type) where
  credentialFile : Option (Credential Key)
  pendingFile : Option (PKCS8 Key)
  bound : Set (String × String)

section Semantics

variable {Key : Type} (ops : KeyOps Key)

/-- Meaning of the operations.  A file that is read has the content that was
saved. -/
def siteSem : Sem (EnrollOp Key) EnrollOp.Ans (Site Key)
  | .loadCredentialFile, w, r, w' =>
      w' = w ∧ match w.credentialFile with
        | some c => r = .ok (.ok c) ∨ ∃ err, r = .error err ∧ ¬ err.is errNotExist
        | none => ∃ err, r = .error err
  | .loadPendingFile, w, r, w' =>
      w' = w ∧ ∀ pkcs8, r = .ok pkcs8 → w.pendingFile = some pkcs8
  | .marshalPKCS8 key, w, r, w' =>
      w' = w ∧ ∀ pkcs8, r = .ok pkcs8 → pkcs8 = .p256 key
  | .savePendingFile pkcs8, w, r, w' =>
      w' = { w with pendingFile := some pkcs8 } ∨ r ≠ none ∧ w' = w
  | .saveCredentialFile c, w, r, w' =>
      w' = { w with credentialFile := some c } ∨ r ≠ none ∧ w' = w
  | .removePendingFile, w, r, w' =>
      w' = { w with pendingFile := none } ∨ r ≠ none ∧ w' = w
  | .post _ req, w, r, w' =>
      ∃ b, w.bound ⊆ b ∧ w' = { w with bound := b } ∧
        (r.code = 200 ∨ r.code = 201 → ∀ parsed, r.res = some parsed →
          (req.publicJWK.thumbprint ops, parsed.clientID) ∈ b)
  | _, w, _, w' => w' = w

theorem site_keepsQuiet :
    KeepsQuiet (siteSem ops) := by
  intro op w r w' hquiet h
  cases op with
  | mkdirAll | createProbe | removeProbe | generateKey | marshalCredential
  | chmod | signAssertion | ctxDone | now => exact h
  | _ => exact nomatch hquiet

end Semantics

section Invariant

variable {Key : Type} (ops : KeyOps Key)

/-- The client id of the credential is bound to the thumbprint of the private key
that it contains. -/
def Site.Backs (w : Site Key) (c : Credential Key) : Prop :=
  ∃ key t, c.privateKey = .p256 key ∧ keyThumbprint ops key = .ok t ∧
    (t, c.clientID) ∈ w.bound

/-- A credential that `Load` accepts and that the server has bound. -/
structure Enrolled (b : Set (String × String)) (c : Credential Key) : Prop where
  named : c.clientID ≠ ""
  keyed : ∃ key, c.privateKey = .p256 key ∧ keyThumbprint ops key = .ok c.thumbprint
  bound : (c.thumbprint, c.clientID) ∈ b

/-- The credential file holds an enrolled credential, if there is one. -/
def Site.Sound (w : Site Key) : Prop :=
  ∀ c, w.credentialFile = some c → Enrolled ops w.bound c

variable {ops} {w : Site Key} {c : Credential Key} {b b' : Set (String × String)}

theorem Enrolled.mono
    (h : Enrolled ops b c)
    (hb : b ⊆ b') :
    Enrolled ops b' c := by
  exact ⟨h.named, h.keyed, hb h.bound⟩

theorem Enrolled.backs
    (h : Enrolled ops w.bound c) :
    w.Backs ops c := by
  obtain ⟨key, hkey, hthumb⟩ := h.keyed
  exact ⟨key, c.thumbprint, hkey, hthumb, h.bound⟩

theorem Enrolled.check
    (h : Enrolled ops b c)
    (dir : String) :
    checkCredential ops dir c = .ok c := by
  obtain ⟨key, hkey, hthumb⟩ := h.keyed
  exact checkCredential_eq_ok h.named hkey hthumb

end Invariant

section Boot

variable {Key : Type} {ops : KeyOps Key} {w : Site Key} {dir : String}

theorem removePendingFile_frame
    {w' : Site Key} {r : Option GoError}
    (h : siteSem ops .removePendingFile w r w') :
    w'.credentialFile = w.credentialFile ∧ w'.bound = w.bound := by
  rcases h with rfl | ⟨_, rfl⟩
  · exact ⟨rfl, rfl⟩
  · exact ⟨rfl, rfl⟩

variable (hw : w.Sound ops)
include hw

theorem site_clearPendingKey :
    SafeOk (siteSem ops) (Site.Sound ops)
      (fun _ w' => w'.bound = w.bound) clearPendingKey w := by
  refine safe_clearPendingKey hw ?_
  intro r w' h
  obtain ⟨hfile, hbound⟩ := removePendingFile_frame h
  refine ⟨?_, hbound⟩
  intro c hc
  rw [hbound]
  exact hw c (hfile ▸ hc)

theorem site_pendingKey :
    SafeOk (siteSem ops) (Site.Sound ops) (fun p _ => p.2 = .p256 p.1)
      (pendingKey dir) w := by
  have hload : SafeOk (siteSem ops) (Site.Sound ops) (fun _ w' => w' = w)
      (perform .loadPendingFile) w := by
    refine SafeOk.liftOp hw ?_
    intro r w' h
    obtain ⟨rfl, _⟩ := h
    exact ⟨hw, rfl⟩
  refine hload.bind ?_
  intro loaded w' _ hsame
  subst hsame
  split
  · exact SafeOk.pure hw rfl
  · refine safe_newPendingKey_of_save (site_keepsQuiet ops) hw ?_ ?_
    · intro key r w₁ h
      exact h
    · intro key r w₁ h
      rcases h with rfl | ⟨_, rfl⟩
      · exact ⟨hw, fun _ => rfl⟩
      · exact ⟨hw, fun _ => rfl⟩

/-- An accepted answer to the POST carries a client id that is bound to the
submitted thumbprint. -/
theorem site_postEnroll
    {url : String} {req : EnrollRequest} :
    Safe (siteSem ops) (Site.Sound ops)
      (fun r w' => w'.Sound ops ∧
        (r.code = 200 ∨ r.code = 201 → ∀ parsed, r.res = some parsed →
          (req.publicJWK.thumbprint ops, parsed.clientID) ∈ w'.bound))
      (postEnroll url req) w := by
  refine safe_retryLoop ?_ ?_ _ hw
  · intro w₁ hw₁
    refine ⟨hw₁, ?_⟩
    intro r w₂ h
    obtain ⟨b, hgrown, rfl, hanswer⟩ := h
    have hsound : Site.Sound ops { w₁ with bound := b } := by
      intro c hc
      exact (hw₁ c hc).mono hgrown
    exact ⟨hsound, hsound, hanswer⟩
  · intro r w₁ hw₁ hr
    refine ⟨hw₁, ?_⟩
    intro done w₂ h
    obtain rfl : w₂ = w₁ := h
    exact ⟨hw₁, hw₁, hr⟩

theorem site_dropRefusedKey
    {code : Int} :
    SafeOk (siteSem ops) (Site.Sound ops) (fun _ w' => w'.bound = w.bound)
      (dropRefusedKey code) w := by
  unfold dropRefusedKey
  split
  · exact site_clearPendingKey hw
  · exact SafeOk.pure hw rfl

theorem site_save
    {c : Credential Key}
    (hc : Enrolled ops w.bound c) :
    SafeOk (siteSem ops) (Site.Sound ops) (fun c' w' => Enrolled ops w'.bound c')
      (save ops dir c) w := by
  obtain ⟨key, hkey, hthumb⟩ := hc.keyed
  refine safe_save_of_write (site_keepsQuiet ops) hw hkey hthumb ?_
  intro r w' h
  rcases h with rfl | ⟨hr, rfl⟩
  · refine ⟨?_, fun _ => hc⟩
    intro c' hc'
    cases hc'
    exact hc
  · exact ⟨hw, fun hnone => absurd hnone hr⟩

/-- The credential that `Enroll` saves and returns is enrolled. -/
theorem site_finishEnroll
    {opts : Options} {key : Key} {t : String} {r : Response EnrollResponse}
    (hthumb : keyThumbprint ops key = .ok t)
    (hanswer : r.code = 200 ∨ r.code = 201 → ∀ parsed, r.res = some parsed →
      (t, parsed.clientID) ∈ w.bound) :
    SafeOk (siteSem ops) (Site.Sound ops) (fun c w' => Enrolled ops w'.bound c)
      (finishEnroll ops opts (.p256 key) t r) w := by
  refine SafeOk.failIf_bind hw ?_
  intro _
  refine (site_dropRefusedKey hw).bind ?_
  intro _ w₁ h₁ hbound₁
  refine SafeOk.orFail_bind h₁ ?_
  intro _ hstatus
  refine SafeOk.orFail_bind h₁ ?_
  intro parsed hparsed
  refine safe_quiet_bind (site_keepsQuiet ops) (by rfl) h₁ ?_
  intro now
  have hpair : (t, parsed.clientID) ∈ w₁.bound := by
    rw [hbound₁]
    exact hanswer (code_of_classifyStatus_ok hstatus) parsed
      (acceptedResponse_eq_ok hparsed).1
  refine (site_save h₁ ⟨(acceptedResponse_eq_ok hparsed).2,
    ⟨key, rfl, hthumb⟩, hpair⟩).bind ?_
  intro cred w₂ h₂ hcred
  refine (site_clearPendingKey h₂).bind ?_
  intro _ w₃ h₃ hbound₃
  exact SafeOk.pure h₃ (hbound₃ ▸ hcred)

theorem site_enroll
    {opts : Options} :
    SafeOk (siteSem ops) (Site.Sound ops) (fun c w' => Enrolled ops w'.bound c)
      (enroll ops opts) w := by
  refine SafeOk.failIf_bind hw ?_
  intro _
  refine SafeOk.failIf_bind hw ?_
  intro _
  refine (safe_ensureWritable (site_keepsQuiet ops) hw).bind ?_
  intro _ w₁ h₁ _
  refine (site_pendingKey h₁).bind ?_
  intro pair w₂ h₂ hpkcs8
  obtain ⟨key, pkcs8⟩ := pair
  obtain rfl : pkcs8 = .p256 key := hpkcs8
  refine SafeOk.orFail_bind h₂ ?_
  intro jwk hjwk
  have hthumb : keyThumbprint ops key = .ok (jwk.thumbprint ops) := by
    unfold keyThumbprint
    rw [hjwk]
    rfl
  refine safe_quiet_bind (site_keepsQuiet ops) (by rfl) h₂ ?_
  intro signed
  refine SafeOk.orFail_bind h₂ ?_
  intro assertion _
  refine SafeOk.bind (SafeOk.lift (site_postEnroll h₂)) ?_
  intro r w₃ _ hposted
  exact site_finishEnroll hposted.1 hthumb hposted.2

theorem site_load :
    Safe (siteSem ops) (Site.Sound ops)
      (fun r w' => w' = w ∧ ∀ c, r = .ok c → w.credentialFile = some c)
      (load ops dir).run w := by
  refine ⟨hw, ?_⟩
  intro read w' h
  obtain ⟨rfl, hread⟩ := h
  cases hfile : w'.credentialFile with
  | none =>
      rw [hfile] at hread
      obtain ⟨err, rfl⟩ := hread
      exact ⟨hw, rfl, fun c hc => nomatch hc⟩
  | some c =>
      rw [hfile] at hread
      rcases hread with rfl | ⟨err, rfl, _⟩
      · change Safe _ _ _ (ExceptT.run (orFail id (checkCredential ops dir c))) w'
        rw [(hw c hfile).check dir]
        refine ⟨hw, rfl, ?_⟩
        intro c' hc'
        cases hc'
        rfl
      · exact ⟨hw, rfl, fun c hc => nomatch hc⟩

omit hw

/-- Wherever a boot is stopped the credential file is sound, and what it returns
is enrolled. -/
theorem site_loadOrEnroll
    (opts : Options)
    (hw : w.Sound ops) :
    SafeOk (siteSem ops) (Site.Sound ops)
      (fun p w' => Enrolled ops w'.bound p.1) (loadOrEnroll ops opts) w := by
  refine (SafeOk.lift (site_load hw)).bind ?_
  intro loaded w' _ hloaded
  obtain ⟨rfl, hfile⟩ := hloaded
  cases loaded with
  | ok cred =>
      refine SafeOk.failIf_bind hw ?_
      intro _
      refine (site_clearPendingKey hw).bind ?_
      intro _ w₁ h₁ hbound
      exact SafeOk.pure h₁ (hbound ▸ hw cred (hfile cred rfl))
  | error err =>
      change SafeOk _ _ _ (if err.is errNotExist then _ else _) w'
      by_cases hmissing : err.is errNotExist
      · rw [if_pos hmissing]
        refine (site_enroll hw).bind ?_
        intro cred w₁ h₁ hcred
        exact SafeOk.pure h₁ hcred
      · rw [if_neg hmissing]
        exact SafeOk.throw hw

end Boot

section Reuse

variable {Key : Type} {ops : KeyOps Key} {opts : Options} {c : Credential Key}

/-- The error of a boot whose identity is not the one that was enrolled. -/
def identityChanged (opts : Options) (c : Credential Key) : GoError :=
  .errorf
    "enrollment: %s was enrolled for peer %s but this node is %s; the mumP2P identity changed"
    [credentialPath opts.dir, c.peerID, opts.peerID]

/-- Operations that only an enrollment performs. -/
def EnrollOp.enrolls : EnrollOp Key → Bool
  | .generateKey | .post _ _ => true
  | _ => false

/-- The calls read the credential file. -/
def ReadsFile (l : List (Call (EnrollOp Key) EnrollOp.Ans)) : Prop :=
  ∃ raw, ⟨.loadCredentialFile, .ok raw⟩ ∈ l

theorem wrapf_not_is_errNotExist
    {format : String} {args : List String} {err : GoError}
    (h : ¬ err.is errNotExist) :
    ¬ (GoError.wrapf format args err).is errNotExist := by
  simpa [GoError.is, errNotExist] using h

/-- A boot first reads the credential file.  It stops at an error other than a
missing file, and with a credential that passes the checks it only removes the
pending key. -/
theorem boot_eq_call
    (hcheck : checkCredential ops opts.dir c = .ok c) :
    ∃ k, boot ops opts = .call .loadCredentialFile k ∧
      (k (.ok (.ok c)) =
        if peerChanged c opts then ret (.error (identityChanged opts c))
        else .call .removePendingFile fun _ => ret (.ok (c, true))) ∧
      ∀ err : GoError, ¬ err.is errNotExist → ∃ err', k (.error err) = ret (.error err') := by
  refine ⟨_, rfl, ?_, ?_⟩
  · change ExceptT.run (ExceptT.lift
      (ExceptT.run (orFail id (checkCredential ops opts.dir c))) >>= _) = _
    rw [hcheck]
    by_cases hpeer : peerChanged c opts
    · rw [if_pos hpeer]
      change ExceptT.run (failIf (peerChanged c opts) _ >>= _) = _
      unfold failIf
      rw [if_pos hpeer]
      rfl
    · rw [if_neg hpeer]
      change ExceptT.run (failIf (peerChanged c opts) _ >>= _) = _
      unfold failIf
      rw [if_neg hpeer]
      rfl
  · intro err herr
    refine ⟨.wrapf "enrollment: read %s: %w" [credentialPath opts.dir] err, ?_⟩
    change ExceptT.run (if (if err.is errNotExist then err else _ : GoError).is
      errNotExist then _ else _) = _
    rw [if_neg herr, if_neg (wrapf_not_is_errNotExist herr)]
    change ret (Except.error (if err.is errNotExist then err else _)) = _
    rw [if_neg herr]

variable {w w' : Site Key} {q : EnrollProg Key (Except GoError (Credential Key × Bool))}
variable {l : List (Call (EnrollOp Key) EnrollOp.Ans)}

/-- The part of a boot after it has read the credential. -/
theorem reuse_rest
    (hfile : w.credentialFile = some c)
    (hpath : Path (if peerChanged c opts then ret (.error (identityChanged opts c))
      else .call .removePendingFile fun _ => ret (.ok (c, true))) l q)
    (hexec : Exec (siteSem ops) w l w') :
    w'.credentialFile = some c ∧
      (∀ x ∈ l, x.1.enrolls = false) ∧
      (∀ r, q = ret r →
        r = .ok (c, true) ∨
          peerChanged c opts ∧ r = .error (identityChanged opts c)) := by
  by_cases hpeer : peerChanged c opts
  · rw [if_pos hpeer, path_ret_iff] at hpath
    obtain ⟨rfl, rfl⟩ := hpath
    rw [exec_nil_iff] at hexec
    subst hexec
    refine ⟨hfile, by simp, ?_⟩
    intro r hr
    cases hr
    exact Or.inr ⟨hpeer, rfl⟩
  · rw [if_neg hpeer, path_call_iff] at hpath
    obtain ⟨rfl, rfl⟩ | ⟨removed, rest, rfl, hret⟩ := hpath
    · rw [exec_nil_iff] at hexec
      subst hexec
      exact ⟨hfile, by simp, fun r hr => nomatch hr⟩
    · obtain ⟨rfl, rfl⟩ := path_ret_iff.mp hret
      obtain ⟨w₁, hremove, hnil⟩ := exec_cons_iff.mp hexec
      rw [exec_nil_iff] at hnil
      subst hnil
      refine ⟨?_, by simp [EnrollOp.enrolls], ?_⟩
      · rw [(removePendingFile_frame hremove).1, hfile]
      · intro r hr
        cases hr
        exact Or.inl rfl

/-- What a boot may do, up to any crash, while an enrolled credential is in the
file. -/
theorem reuse_path
    (hc : Enrolled ops w.bound c)
    (hfile : w.credentialFile = some c)
    (hpath : Path (boot ops opts) l q)
    (hexec : Exec (siteSem ops) w l w') :
    w'.credentialFile = some c ∧
      (∀ x ∈ l, x.1.enrolls = false) ∧
      (ReadsFile l → ∀ r, q = ret r →
        r = .ok (c, true) ∨
          peerChanged c opts ∧ r = .error (identityChanged opts c)) := by
  obtain ⟨k, hboot, hreuse, hunread⟩ := boot_eq_call (hc.check opts.dir)
  rw [hboot, path_call_iff] at hpath
  obtain ⟨rfl, rfl⟩ | ⟨read, rest, rfl, hrest⟩ := hpath
  · rw [exec_nil_iff] at hexec
    subst hexec
    exact ⟨hfile, by simp, fun _ r hr => nomatch hr⟩
  obtain ⟨w₁, hload, htail⟩ := exec_cons_iff.mp hexec
  obtain ⟨rfl, hread⟩ := hload
  rw [hfile] at hread
  obtain rfl | ⟨err, rfl, herr⟩ := hread
  · rw [hreuse] at hrest
    obtain ⟨hkept, hquiet, hresult⟩ := reuse_rest hfile hrest htail
    refine ⟨hkept, ?_, fun _ => hresult⟩
    exact List.forall_mem_cons.mpr ⟨rfl, hquiet⟩
  · obtain ⟨err', hk⟩ := hunread err herr
    rw [hk, path_ret_iff] at hrest
    obtain ⟨rfl, rfl⟩ := hrest
    rw [exec_nil_iff] at htail
    subst htail
    refine ⟨hfile, by simp [EnrollOp.enrolls], ?_⟩
    intro hreads
    obtain ⟨raw, hraw⟩ := hreads
    simp at hraw

/-- A sound credential file survives every further history. -/
theorem sound_file_kept
    (h : Restarts (siteSem ops) (boot ops) w w')
    (hw : w.Sound ops)
    (hfile : w.credentialFile = some c) :
    w'.Sound ops ∧ w'.credentialFile = some c := by
  induction h with
  | nil => exact ⟨hw, hfile⟩
  | snoc _ path exec ih =>
      obtain ⟨hsound, hfile'⟩ := ih
      refine ⟨(site_loadOrEnroll _ hsound).sound path exec, ?_⟩
      exact (reuse_path (hsound c hfile') hfile' path exec).1

end Reuse

section Histories

variable {Key : Type}

/-- In every history of boots from a directory without a credential, a returned
credential is bound to its own key, and from the moment on that the file is
written every boot reuses it, or stops because the peer changed. -/
theorem returned_bound_and_reused
    (ops : KeyOps Key)
    {w₀ w : Site Key}
    (hnone : w₀.credentialFile = none)
    (h : Restarts (siteSem ops) (boot ops) w₀ w) :
    (∀ opts l c reused w',
      Path (boot ops opts) l (ret (.ok (c, reused))) →
      Exec (siteSem ops) w l w' →
      w'.Backs ops c) ∧
    (∀ c w₁,
      w.credentialFile = some c →
      Restarts (siteSem ops) (boot ops) w w₁ →
      ∀ opts l q w₂,
        Path (boot ops opts) l q →
        Exec (siteSem ops) w₁ l w₂ →
        (∀ x ∈ l, x.1.enrolls = false) ∧
          (ReadsFile l → ∀ r, q = ret r →
            r = .ok (c, true) ∨
              peerChanged c opts ∧ r = .error (identityChanged opts c))) := by
  have hsound : w.Sound ops := by
    refine h.invariant ?_ ?_
    · intro opts u hu
      exact (site_loadOrEnroll opts hu).mono fun _ _ _ => trivial
    · intro c hc
      rw [hnone] at hc
      exact nomatch hc
  constructor
  · intro opts l c reused w' hpath hexec
    exact ((site_loadOrEnroll opts hsound).result hpath hexec _ rfl).backs
  · intro c w₁ hfile hlater opts l q w₂ hpath hexec
    obtain ⟨hsound₁, hfile₁⟩ := sound_file_kept hlater hsound hfile
    exact (reuse_path (hsound₁ c hfile₁) hfile₁ hpath hexec).2

/-- An empty directory, nothing bound. -/
def Site.empty : Site Key where
  credentialFile := none
  pendingFile := none
  bound := ∅

def sampleCredential : Credential Nat where
  clientID := "gw_1"
  type := "gateway"
  chainID := "1"
  thumbprint := sampleThumbprint 1
  peerID := ""
  privateKey := .p256 1
  enrolledAt := 1700000000

/-- A boot that enrolls, and crashes when the credential file is written. -/
def crashedBoot : List (Call (EnrollOp Nat) EnrollOp.Ans) :=
  openCalls ++ freshKeyCalls 1 ++ submitCalls 1 (created "gw_1") ++
    [⟨.now, 1700000000⟩,
      ⟨.mkdirAll "/data/enrollment", none⟩,
      ⟨.marshalCredential sampleCredential, none⟩,
      ⟨.chmod "/data/enrollment/enrollment.json", some errNotExist⟩,
      ⟨.saveCredentialFile sampleCredential, none⟩]

/-- After the crash: the credential is in its file, and its key still pending. -/
def crashedSite : Site Nat where
  credentialFile := some sampleCredential
  pendingFile := some (.p256 1)
  bound := { (sampleThumbprint 1, "gw_1") }

theorem accepts_crashedBoot :
    ((boot sampleOps sampleOptions).rest crashedBoot).isSome = true := by
  decide +kernel

theorem exec_crashedBoot :
    Exec (siteSem sampleOps) Site.empty crashedBoot crashedSite := by
  have hopen : Exec (siteSem sampleOps) Site.empty openCalls Site.empty :=
    Exec.cons ⟨rfl, errNotExist, rfl⟩ (Exec.cons rfl (Exec.cons rfl
      (Exec.cons rfl (Exec.nil _))))
  have hkey : Exec (siteSem sampleOps) Site.empty (freshKeyCalls 1)
      { Site.empty with pendingFile := some (.p256 1) } := by
    refine Exec.cons ⟨rfl, fun _ h => nomatch h⟩ (Exec.cons rfl (Exec.cons ⟨rfl, ?_⟩
      (Exec.cons rfl (Exec.cons (Or.inl rfl) (Exec.nil _)))))
    intro pkcs8 h
    cases h
    rfl
  have hsubmit : Exec (siteSem sampleOps)
      { Site.empty with pendingFile := some (.p256 1) }
      (submitCalls 1 (created "gw_1"))
      { crashedSite with credentialFile := none } := by
    refine Exec.cons rfl (Exec.cons ⟨_, Set.empty_subset _, rfl, ?_⟩ (Exec.nil _))
    intro _ parsed hparsed
    cases hparsed
    exact congrArg (·, "gw_1") sampleJWK_thumbprint_one
  have hsave : Exec (siteSem sampleOps) { crashedSite with credentialFile := none }
      [⟨.now, 1700000000⟩,
        ⟨.mkdirAll "/data/enrollment", none⟩,
        ⟨.marshalCredential sampleCredential, none⟩,
        ⟨.chmod "/data/enrollment/enrollment.json", some errNotExist⟩,
        ⟨.saveCredentialFile sampleCredential, none⟩] crashedSite :=
    Exec.cons rfl (Exec.cons rfl (Exec.cons rfl (Exec.cons rfl
      (Exec.cons (Or.inl rfl) (Exec.nil _)))))
  exact Exec.append (Exec.append (hopen.append hkey) hsubmit) hsave

/-- The boot after the crash returns the credential, although the pending key
cannot be removed. -/
def reusingBoot : List (Call (EnrollOp Nat) EnrollOp.Ans) :=
  [⟨.loadCredentialFile, .ok (.ok sampleCredential)⟩,
    ⟨.removePendingFile, some (.new "permission denied")⟩]

theorem path_reusingBoot :
    Path (boot sampleOps sampleOptions) reusingBoot
      (ret (.ok (sampleCredential, true))) := by
  have hcheck : checkCredential sampleOps sampleOptions.dir sampleCredential =
      .ok sampleCredential := by
    decide +kernel
  obtain ⟨k, hboot, hreuse, _⟩ := boot_eq_call hcheck
  rw [hboot]
  refine Path.cons ?_
  rw [hreuse]
  exact Path.cons (Path.nil _)

theorem crashed_enrollment_reused :
    Restarts (siteSem sampleOps) (boot sampleOps) Site.empty crashedSite ∧
      crashedSite.Backs sampleOps sampleCredential ∧
      ∀ opts l q w,
        Path (boot sampleOps opts) l q →
        Exec (siteSem sampleOps) crashedSite l w →
        (∀ x ∈ l, x.1.enrolls = false) ∧
          (ReadsFile l → ∀ r, q = ret r →
            r = .ok (sampleCredential, true) ∨
              peerChanged sampleCredential opts ∧
                r = .error (identityChanged opts sampleCredential)) := by
  have hcrashed := path_of_rest (Option.some_get accepts_crashedBoot).symm
  have hhistory := Restarts.snoc (Restarts.nil _) hcrashed exec_crashedBoot
  have hreusing : Exec (siteSem sampleOps) crashedSite reusingBoot crashedSite :=
    Exec.cons ⟨rfl, Or.inl rfl⟩ (Exec.cons (Or.inr ⟨nofun, rfl⟩) (Exec.nil _))
  obtain ⟨hbacked, hreused⟩ := returned_bound_and_reused sampleOps rfl hhistory
  refine ⟨hhistory, ?_, ?_⟩
  · exact hbacked sampleOptions reusingBoot sampleCredential true crashedSite
      path_reusingBoot hreusing
  · exact hreused sampleCredential crashedSite rfl (Restarts.nil _)

end Histories

end Enrollment
end OptimumGateway
