import OptimumGateway.Enrollment.Credential
import OptimumGateway.Utils.Retryer

/-!
# Gateway self-enrollment

This module models `LoadOrEnroll` of `pkg/service/enrollment/enrollment.go` and
the functions it calls, as programs over the operations that touch the disk, the
random source, the clock and the network.  Log lines are left out.

The credential file holds a credential and the pending-key file a PKCS #8 blob.
Reading the credential file is one operation whose answer separates a file that
cannot be read from one that cannot be parsed.
-/

namespace OptimumGateway
namespace Enrollment

open Foundation Foundation.Prog Utils

def enrollPath : String := "/api/v1/gateways/enroll"

/-- `ErrInvalidEnrollment`. -/
def errInvalidEnrollment : GoError :=
  .new "enrollment: join credential rejected (401)"

/-- `ErrEnrollmentConflict`. -/
def errEnrollmentConflict : GoError :=
  .new "enrollment: credential conflict (409)"

structure Options where
  issuer : String
  dir : String
  joinKey : String
  peerID : String
  label : String

structure EnrollRequest where
  joinToken : String
  publicJWK : PublicJWK
  enrollAssertion : String
  peerID : String
  label : String
deriving DecidableEq

structure EnrollResponse where
  clientID : String
  type : String
  chainID : String
  error : String
deriving DecidableEq

/-- `NormalizeIssuer`: trailing slashes are trimmed. -/
def normalizeIssuer (raw : String) : String :=
  String.ofList (raw.toList.reverse.dropWhile (· = '/')).reverse

def terminalEnrollStatuses : List Int :=
  [400, 401, 409]

inductive EnrollOp (Key : Type) where
  | mkdirAll (dir : String)
  | createProbe (dir : String)
  | removeProbe
  | loadCredentialFile
  | loadPendingFile
  | generateKey
  | marshalPKCS8 (key : Key)
  | marshalCredential (c : Credential Key)
  | chmod (path : String)
  | savePendingFile (pkcs8 : PKCS8 Key)
  | saveCredentialFile (c : Credential Key)
  | removePendingFile
  | signAssertion (key : Key) (subject aud peerID : String)
  | post (url : String) (req : EnrollRequest)
  | ctxDone
  | now
deriving DecidableEq

abbrev EnrollOp.Ans {Key : Type} : EnrollOp Key → Type
  | .mkdirAll _ => Option GoError
  | .createProbe _ => Option GoError
  | .removeProbe => Option GoError
  | .loadCredentialFile => Except GoError (Except GoError (Credential Key))
  | .loadPendingFile => Except GoError (PKCS8 Key)
  | .generateKey => Except GoError Key
  | .marshalPKCS8 _ => Except GoError (PKCS8 Key)
  | .marshalCredential _ => Option GoError
  | .chmod _ => Option GoError
  | .savePendingFile _ => Option GoError
  | .saveCredentialFile _ => Option GoError
  | .removePendingFile => Option GoError
  | .signAssertion _ _ _ _ => Except GoError String
  | .post _ _ => Response EnrollResponse
  | .ctxDone => Bool
  | .now => Int

abbrev EnrollProg (Key : Type) :=
  Prog (EnrollOp Key) EnrollOp.Ans

/-- Programs of the package that may return an error. -/
abbrev EnrollM (Key : Type) :=
  ExceptT GoError (EnrollProg Key)

section Programs

variable {Key : Type}

/-- Issue one operation of the package. -/
abbrev perform (op : EnrollOp Key) : EnrollM Key op.Ans :=
  liftOp op

def ensureWritable (dir : String) : EnrollM Key Unit := do
  let created ← perform (.mkdirAll dir)
  failWith (.wrapf "enrollment: create %s: %w" [dir]) created
  let probe ← perform (.createProbe dir)
  failWith (.wrapf "enrollment: %s is not writable, refusing to enroll a credential that cannot be persisted: %w" [dir]) probe
  let removed ← perform .removeProbe
  failWith id removed

def tightenBeforeWrite (path : String) : EnrollM Key Unit := do
  let err ← perform (.chmod path)
  failWith (.wrapf "enrollment: chmod %s: %w" [path])
    (err.filter fun err => !err.is errNotExist)

def clearPendingKey : EnrollM Key Unit := do
  let _ ← perform .removePendingFile
  pure ()

variable (ops : KeyOps Key)

def load (dir : String) : EnrollM Key (Credential Key) := do
  let read ← perform .loadCredentialFile
  let raw ← orFail (fun err =>
    if err.is errNotExist then err
    else .wrapf "enrollment: read %s: %w" [credentialPath dir] err) read
  let c ← orFail (.wrapf "enrollment: parse %s: %w" [credentialPath dir]) raw
  orFail id (checkCredential ops dir c)

/-- `Save` fills an empty thumbprint. -/
def fillThumbprint (c : Credential Key) : Except GoError (Credential Key) :=
  if c.thumbprint = "" then do
    let key ← c.ensureKey
    let thumbprint ← keyThumbprint ops key
    pure { c with thumbprint }
  else
    pure c

def save (dir : String) (c : Credential Key) : EnrollM Key (Credential Key) := do
  let created ← perform (.mkdirAll dir)
  failWith (.wrapf "enrollment: create %s: %w" [dir]) created
  let c ← orFail id (fillThumbprint ops c)
  let marshalled ← perform (.marshalCredential c)
  failWith (.wrapf "enrollment: marshal credential: %w" []) marshalled
  tightenBeforeWrite (credentialPath dir)
  let written ← perform (.saveCredentialFile c)
  failWith (.wrapf "enrollment: write %s: %w" [credentialPath dir]) written
  pure c

/-- The second half of `pendingKey`: a fresh keypair, persisted before it is
returned. -/
def newPendingKey (dir : String) : EnrollM Key (Key × PKCS8 Key) := do
  let path := filepathJoin dir pendingKeyFile
  let generated ← perform .generateKey
  let key ← orFail (.wrapf "enrollment: generate keypair: %w" []) generated
  let marshalled ← perform (.marshalPKCS8 key)
  let pkcs8 ← orFail (.wrapf "enrollment: marshal private key: %w" []) marshalled
  tightenBeforeWrite path
  let written ← perform (.savePendingFile pkcs8)
  failWith (.wrapf "enrollment: write %s: %w" [path]) written
  pure (key, pkcs8)

def pendingKey (dir : String) : EnrollM Key (Key × PKCS8 Key) := do
  let loaded ← perform .loadPendingFile
  match loaded with
  | .ok (.p256 key) => pure (key, .p256 key)
  | _ => newPendingKey dir

/-- The switch of `Enroll` on the status of the answer. -/
def classifyStatus (r : Response EnrollResponse) : Except GoError Unit :=
  if r.code = 200 ∨ r.code = 201 then
    match r.err with
    | some err => .error (.wrapf "enrollment: POST enroll: %w" [] err)
    | none => .ok ()
  else if r.code = 401 then
    .error errInvalidEnrollment
  else if r.code = 409 then
    match r.res with
    | some parsed =>
        if parsed.error ≠ "" then
          .error (.wrapf "%w: %s" [parsed.error] errEnrollmentConflict)
        else
          .error errEnrollmentConflict
    | none => .error errEnrollmentConflict
  else
    let detail := (r.res.map EnrollResponse.error).getD ""
    match r.err with
    | some err =>
        .error (.wrapf "enrollment: enroll returned %d (error=%q): %w"
          [toString r.code, detail] err)
    | none =>
        .error (.errorf "enrollment: enroll returned %d (error=%q)"
          [toString r.code, detail])

/-- The body of an accepted answer must carry a client id. -/
def acceptedResponse (r : Response EnrollResponse) : Except GoError EnrollResponse :=
  match r.res with
  | some parsed =>
      if parsed.clientID = "" then
        .error (.new "enrollment: enroll response missing client_id")
      else
        .ok parsed
  | none => .error (.new "enrollment: enroll response missing client_id")

/-- The POST of `Enroll` with its retries. -/
def postEnroll (url : String) (req : EnrollRequest) :
    EnrollProg Key (Response EnrollResponse) :=
  retryPostRequest (Prog.op (EnrollOp.post url req)) (Prog.op EnrollOp.ctxDone)
    terminalEnrollStatuses

/-- The pending key is dropped on the two refusals that are taken to mean that
nothing was committed with it. -/
def dropRefusedKey (code : Int) : EnrollM Key Unit :=
  if code = 400 ∨ code = 409 then clearPendingKey else pure ()

/-- The part of `Enroll` after the answer to the POST. -/
def finishEnroll
    (opts : Options)
    (key : PKCS8 Key)
    (thumbprint : String)
    (r : Response EnrollResponse) : EnrollM Key (Credential Key) := do
  failIf (r.code = 0) (.wrapNilable "enrollment: POST enroll: %w" [] r.err)
  dropRefusedKey r.code
  orFail id (classifyStatus r)
  let parsed ← orFail id (acceptedResponse r)
  let now ← perform .now
  let cred ← save ops opts.dir {
    clientID := parsed.clientID
    type := parsed.type
    chainID := parsed.chainID
    thumbprint := thumbprint
    peerID := opts.peerID
    privateKey := key
    enrolledAt := now }
  clearPendingKey
  pure cred

/-- The part of `Enroll` that registers a key whose public half is `jwk`. -/
def submitKey
    (opts : Options)
    (key : Key)
    (pkcs8 : PKCS8 Key)
    (jwk : PublicJWK) : EnrollM Key (Credential Key) := do
  let thumbprint := jwk.thumbprint ops
  let url := normalizeIssuer opts.issuer ++ enrollPath
  let signed ← perform (.signAssertion key thumbprint url "")
  let assertion ← orFail (.wrapf "enrollment: sign assertion: %w" []) signed
  let r ← ExceptT.lift (postEnroll url {
    joinToken := opts.joinKey
    publicJWK := jwk
    enrollAssertion := assertion
    peerID := opts.peerID
    label := opts.label })
  finishEnroll ops opts pkcs8 thumbprint r

def enroll (opts : Options) : EnrollM Key (Credential Key) := do
  failIf (opts.joinKey = "") (.new "enrollment: join key is required")
  failIf (opts.issuer = "") (.new "enrollment: issuer is required")
  ensureWritable opts.dir
  let (key, pkcs8) ← pendingKey opts.dir
  let jwk ← orFail id (jwkFromPublic ops key)
  submitKey ops opts key pkcs8 jwk

/-- The credential was enrolled for another peer than this node. -/
def peerChanged (c : Credential Key) (opts : Options) : Prop :=
  c.peerID ≠ "" ∧ opts.peerID ≠ "" ∧ c.peerID ≠ opts.peerID

instance (c : Credential Key) (opts : Options) : Decidable (peerChanged c opts) :=
  inferInstanceAs (Decidable (_ ∧ _ ∧ _))

/-- `LoadOrEnroll`: the credential, and whether it was reused. -/
def loadOrEnroll (opts : Options) : EnrollM Key (Credential Key × Bool) := do
  let loaded ← ExceptT.lift (load ops opts.dir).run
  match loaded with
  | .ok cred =>
      failIf (peerChanged cred opts) (.errorf
        "enrollment: %s was enrolled for peer %s but this node is %s; the mumP2P identity changed"
        [credentialPath opts.dir, cred.peerID, opts.peerID])
      clearPendingKey
      pure (cred, true)
  | .error err =>
      if err.is errNotExist then
        let cred ← enroll ops opts
        pure (cred, false)
      else
        throw err

end Programs

end Enrollment
end OptimumGateway
