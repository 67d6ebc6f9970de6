import OptimumGateway.Protocol.Topics
import Mathlib.Data.Finset.Insert

/-!
# Fork digests

This module models the fork digest state of `pkg/protocol/forks/service.go`.  The
service holds the supported digests of the latest response, the current digest of
that response and the digest that was last observed from the consensus layer.  The
observed digest outlives the response that made it legal; `activeDigest` filters it
when it is read.

A history is a list of calls of the service.  `Follows` describes the state after a
history by the latest response alone, and `fork_state_machine` collects what this
means for the digest in force and for the topics.
-/

namespace OptimumGateway
namespace Protocol

open Foundation

structure ForkService where
  supportedForks : Finset String
  topicForkCache : String → Option String
  observedDigestLC : Option String
  cfgForkDigest : Option String

def sanitizeForkDigest (digest : String) : String :=
  toLower (trimSpace digest)

def aggregatedMessagesTopic : String := "mump2p_aggregated_messages"

namespace ForkService

/-- The state in which `NewService` starts. -/
def init : ForkService where
  supportedForks := ∅
  topicForkCache := fun _ => none
  observedDigestLC := none
  cfgForkDigest := none

/-- The set with the digest, unless the digest is empty. -/
def insertDigest (digest : String) (forks : Finset String) : Finset String :=
  if digest ≠ "" then insert digest forks else forks

def applyForkDigest (s : ForkService) (current future : String) : ForkService :=
  { s with
    supportedForks := insertDigest (sanitizeForkDigest future)
      (insertDigest (sanitizeForkDigest current) ∅)
    cfgForkDigest :=
      if sanitizeForkDigest current ≠ "" then some (sanitizeForkDigest current)
      else s.cfgForkDigest }

def checkForkSupported (s : ForkService) (digest : String) : Bool :=
  decide (sanitizeForkDigest digest ∈ s.supportedForks)

def activeDigest (s : ForkService) : String :=
  match s.observedDigestLC with
  | some digest =>
      if digest ≠ "" ∧ s.checkForkSupported digest = true then digest
      else s.cfgForkDigest.getD ""
  | none => s.cfgForkDigest.getD ""

/-- Whether the observation is stored, and the state after it. -/
def observeMessageDigest (s : ForkService) (digest : String) : Bool × ForkService :=
  let digest := sanitizeForkDigest digest
  let current := s.cfgForkDigest.getD ""
  if digest = "" ∨ digest = current ∨ digest = s.activeDigest ∨
      s.checkForkSupported digest = false then
    (false, s)
  else
    (true, { s with observedDigestLC := some digest })

/-- The answer for a topic, and the state with the digest of the topic cached. -/
def topicSupported (s : ForkService) (topic : String) : Bool × ForkService :=
  if topic = aggregatedMessagesTopic then
    (true, s)
  else
    match s.topicForkCache topic with
    | some digest => (s.checkForkSupported digest, s)
    | none =>
        let fork := getForkDigestFromTopic topic
        (s.checkForkSupported fork,
          { s with topicForkCache := Function.update s.topicForkCache topic (some fork) })

end ForkService

/-- Calls that change the state of the service. -/
inductive ForkCall where
  | applyForkDigest (current future : String)
  | observeMessageDigest (digest : String)
  | topicSupported (topic : String)
deriving DecidableEq

def ForkCall.run (s : ForkService) : ForkCall → ForkService
  | .applyForkDigest current future => s.applyForkDigest current future
  | .observeMessageDigest digest => (s.observeMessageDigest digest).2
  | .topicSupported topic => (s.topicSupported topic).2

def ForkService.after (s : ForkService) (calls : List ForkCall) : ForkService :=
  calls.foldl ForkCall.run s

section Digests

@[simp] theorem sanitizeForkDigest_idem
    (digest : String) :
    sanitizeForkDigest (sanitizeForkDigest digest) = sanitizeForkDigest digest := by
  simp [sanitizeForkDigest]

@[simp] theorem sanitizeForkDigest_empty :
    sanitizeForkDigest "" = "" := by
  decide

variable {digest : String}

/-- Lowering keeps the length, so only blank texts become empty. -/
theorem sanitizeForkDigest_eq_empty_iff :
    sanitizeForkDigest digest = ""
      ↔
    trimSpace digest = "" := by
  unfold sanitizeForkDigest toLower
  rw [← String.toList_inj, ← String.toList_inj]
  simp

theorem IsForkDigest.sanitize_eq
    (h : IsForkDigest digest) :
    sanitizeForkDigest digest = toLower digest := by
  have hspace : ∀ c ∈ digest.toList, isSpace c = false := by
    intro c hc
    have hhex := h.2 c hc
    simp only [isHexDigit, Bool.or_eq_true, Bool.and_eq_true, decide_eq_true_eq] at hhex
    exact isSpace_eq_false (by omega)
  have htrimmed : Trimmed digest.toList := by
    constructor
    · intro c hc
      exact hspace c (List.mem_of_mem_head? hc)
    · intro c hc
      exact hspace c (List.mem_of_mem_getLast? hc)
  rw [sanitizeForkDigest, trimSpace, trimRunes_of_trimmed htrimmed, String.ofList_toList]

theorem ForkService.mem_insertDigest
    {d : String} {forks : Finset String} :
    d ∈ insertDigest digest forks
      ↔
    (d = digest ∧ digest ≠ "") ∨ d ∈ forks := by
  unfold insertDigest
  split <;> simp_all

end Digests

section Responses

/-- The service after a response with these sanitized digests, whatever was observed
before. -/
structure ForkService.Follows
    (s : ForkService)
    (current future : String) : Prop where
  current_ne : current ≠ ""
  current_clean : sanitizeForkDigest current = current
  future_clean : sanitizeForkDigest future = future
  configured : s.cfgForkDigest = some current
  supported : ∀ d, d ∈ s.supportedForks ↔ d ≠ "" ∧ (d = current ∨ d = future)

/-- What holds of the observed digest and of the cache in every state. -/
structure ForkService.Clean (s : ForkService) : Prop where
  observed : ∀ d, s.observedDigestLC = some d → d ≠ "" ∧ sanitizeForkDigest d = d
  cached : ∀ topic d, s.topicForkCache topic = some d →
    d = getForkDigestFromTopic topic

namespace ForkService

variable {s : ForkService} {current future : String}

theorem clean_init : init.Clean := by
  constructor
  · intro d hd
    cases hd
  · intro topic d hd
    cases hd

variable (h : s.Follows current future)
include h

theorem checkForkSupported_iff
    (digest : String) :
    s.checkForkSupported digest = true
      ↔
    sanitizeForkDigest digest ≠ "" ∧
      (sanitizeForkDigest digest = current ∨ sanitizeForkDigest digest = future) := by
  rw [checkForkSupported, decide_eq_true_eq, h.supported]

theorem activeDigest_eq
    (hclean : s.Clean) :
    s.activeDigest =
      if future ≠ "" ∧ s.observedDigestLC = some future then future else current := by
  unfold activeDigest
  rw [h.configured]
  cases hobserved : s.observedDigestLC with
  | none => simp
  | some d =>
      obtain ⟨hne, hd⟩ := hclean.observed d hobserved
      simp only [checkForkSupported_iff h, hd, Option.some.injEq, Option.getD_some]
      by_cases hfuture : d = future
      · subst hfuture
        simp [hne]
      · by_cases hcurrent : d = current
        · subst hcurrent
          simp [hfuture]
        · simp [hfuture, hcurrent]

/-- An observation is stored iff it is the future digest, and that differs from the
current one and is not in force yet. -/
theorem observeMessageDigest_eq
    (hclean : s.Clean)
    (digest : String) :
    s.observeMessageDigest digest =
      if sanitizeForkDigest digest = future ∧ future ≠ "" ∧ future ≠ current ∧
          s.observedDigestLC ≠ some future then
        (true, { s with observedDigestLC := some future })
      else
        (false, s) := by
  have hcurrent := h.current_ne
  unfold observeMessageDigest
  simp only [h.configured, Option.getD_some, activeDigest_eq h hclean,
    ← Bool.not_eq_true, checkForkSupported_iff h, sanitizeForkDigest_idem]
  by_cases hfuture : sanitizeForkDigest digest = future
  · rw [hfuture]
    by_cases hempty : future = ""
    · simp [hempty]
    · by_cases hsame : future = current
      · simp [hsame]
      · by_cases hobserved : s.observedDigestLC = some future
        · simp [hempty, hsame, hobserved]
        · simp [hempty, hsame, hobserved]
  · by_cases hcur : sanitizeForkDigest digest = current
    · have hne : current ≠ future := fun heq => hfuture (hcur.trans heq)
      simp [hcur, hne]
    · simp [hcur, hfuture]

omit h in
theorem Clean.run
    (h : s.Clean)
    (call : ForkCall) :
    (call.run s).Clean := by
  cases call with
  | applyForkDigest current future =>
      simp only [ForkCall.run, applyForkDigest]
      exact ⟨h.observed, h.cached⟩
  | observeMessageDigest digest =>
      simp only [ForkCall.run, observeMessageDigest]
      split
      · exact h
      · rename_i hcond
        refine ⟨?_, h.cached⟩
        intro d hd
        obtain rfl := Option.some.inj hd
        exact ⟨fun hempty => hcond (Or.inl hempty), sanitizeForkDigest_idem digest⟩
  | topicSupported topic =>
      simp only [ForkCall.run, topicSupported]
      split
      · exact h
      · split
        · exact h
        · refine ⟨h.observed, ?_⟩
          intro topic' d hd
          change Function.update s.topicForkCache topic
            (some (getForkDigestFromTopic topic)) topic' = some d at hd
          by_cases htopic : topic' = topic
          · subst htopic
            rw [Function.update_self] at hd
            exact (Option.some.inj hd).symm
          · rw [Function.update_of_ne htopic] at hd
            exact h.cached topic' d hd

theorem Follows.run
    {call : ForkCall}
    (hcall : ∀ current' future', call ≠ .applyForkDigest current' future') :
    (call.run s).Follows current future := by
  obtain ⟨hne, hcurrent, hfuture, hconfigured, hsupported⟩ := h
  cases call with
  | applyForkDigest current' future' => exact absurd rfl (hcall current' future')
  | observeMessageDigest digest =>
      simp only [ForkCall.run, observeMessageDigest]
      split <;> exact ⟨hne, hcurrent, hfuture, hconfigured, hsupported⟩
  | topicSupported topic =>
      simp only [ForkCall.run, topicSupported]
      split
      · exact ⟨hne, hcurrent, hfuture, hconfigured, hsupported⟩
      · split <;> exact ⟨hne, hcurrent, hfuture, hconfigured, hsupported⟩

omit h in
theorem applyForkDigest_sanitized
    (s : ForkService)
    (current future : String) :
    s.applyForkDigest (sanitizeForkDigest current) future =
      s.applyForkDigest current future := by
  simp only [applyForkDigest, sanitizeForkDigest_idem]

omit h in
/-- A response with a current digest determines what the service follows. -/
theorem follows_applyForkDigest
    (s : ForkService)
    (hcurrent : trimSpace current ≠ "")
    (future : String) :
    (s.applyForkDigest current future).Follows (sanitizeForkDigest current)
      (sanitizeForkDigest future) := by
  have hne : sanitizeForkDigest current ≠ "" := by
    rwa [ne_eq, sanitizeForkDigest_eq_empty_iff]
  refine ⟨hne, sanitizeForkDigest_idem _, sanitizeForkDigest_idem _, ?_, ?_⟩
  · simp [applyForkDigest, hne]
  · intro d
    simp only [applyForkDigest, mem_insertDigest, Finset.notMem_empty, or_false]
    grind

variable (hclean : s.Clean)
include hclean

/-- The digest in force is supported and in lower case. -/
theorem Follows.activeDigest_supported :
    s.checkForkSupported s.activeDigest = true ∧
      toLower s.activeDigest = s.activeDigest := by
  have hlower : ∀ d, sanitizeForkDigest d = d → toLower d = d := by
    intro d hd
    rw [← hd, sanitizeForkDigest, toLower_idem]
  rw [checkForkSupported_iff h, activeDigest_eq h hclean]
  split
  · rename_i hfuture
    rw [h.future_clean]
    exact ⟨⟨hfuture.1, Or.inr rfl⟩, hlower future h.future_clean⟩
  · rw [h.current_clean]
    exact ⟨⟨h.current_ne, Or.inl rfl⟩, hlower current h.current_clean⟩

/-- An observation is stored exactly when it changes the digest in force, and then
puts the future digest in force. -/
theorem activeDigest_observe
    (digest : String) :
    ((s.observeMessageDigest digest).1 = false ∧
        (s.observeMessageDigest digest).2.activeDigest = s.activeDigest) ∨
      ((s.observeMessageDigest digest).1 = true ∧ s.activeDigest = current ∧
        (s.observeMessageDigest digest).2.activeDigest = future ∧
        future ≠ current) := by
  have hcall : ∀ current' future',
      ForkCall.observeMessageDigest digest ≠ .applyForkDigest current' future' := by
    simp
  have hfollows := h.run hcall
  have hclean' := hclean.run (.observeMessageDigest digest)
  simp only [ForkCall.run] at hfollows hclean'
  rw [activeDigest_eq h hclean, activeDigest_eq hfollows hclean',
    observeMessageDigest_eq h hclean]
  split
  · rename_i hcond
    obtain ⟨_, hne, hdiffer, hobserved⟩ := hcond
    simp [hne, hdiffer, hobserved]
  · exact Or.inl ⟨rfl, rfl⟩

/-- Between two responses the digest in force stays or moves on to the future one. -/
theorem activeDigest_run
    {call : ForkCall}
    (hcall : ∀ current' future', call ≠ .applyForkDigest current' future') :
    (call.run s).activeDigest = s.activeDigest ∨
      (s.activeDigest = current ∧ (call.run s).activeDigest = future ∧
        future ≠ current) := by
  cases call with
  | applyForkDigest current' future' => exact absurd rfl (hcall current' future')
  | observeMessageDigest digest =>
      rcases activeDigest_observe h hclean digest with ⟨_, hsame⟩ | ⟨_, hmoved⟩
      · exact Or.inl hsame
      · exact Or.inr hmoved
  | topicSupported topic =>
      have hfollows := h.run hcall
      have hclean' := hclean.run (.topicSupported topic)
      have hobserved : (ForkCall.run s (.topicSupported topic)).observedDigestLC =
          s.observedDigestLC := by
        simp only [ForkCall.run, topicSupported]
        split
        · rfl
        · split <;> rfl
      rw [activeDigest_eq h hclean, activeDigest_eq hfollows hclean', hobserved]
      exact Or.inl rfl

/-- The values that the digest in force takes when a call changes it. -/
def activeChanges (s : ForkService) : List ForkCall → List String
  | [] => []
  | call :: calls =>
      if (call.run s).activeDigest = s.activeDigest then
        (call.run s).activeChanges calls
      else
        (call.run s).activeDigest :: (call.run s).activeChanges calls

/-- Between two responses the digest in force changes at most once, and only to the
future digest. -/
theorem activeChanges_between
    {calls : List ForkCall}
    (hcalls : ∀ current' future', .applyForkDigest current' future' ∉ calls) :
    s.activeChanges calls = [] ∨
      (s.activeChanges calls = [future] ∧ s.activeDigest = current ∧
        future ≠ current) := by
  induction calls generalizing s with
  | nil => exact Or.inl rfl
  | cons call calls ih =>
      have hcall : ∀ current' future', call ≠ .applyForkDigest current' future' := by
        intro current' future' heq
        exact hcalls current' future' (by simp [heq])
      have hrest := ih (h.run hcall) (hclean.run call)
        (fun current' future' hmem => hcalls current' future' (by simp [hmem]))
      unfold activeChanges
      rcases activeDigest_run h hclean hcall with hsame | ⟨hold, hnew, hdiffer⟩
      · rw [if_pos hsame]
        rwa [hsame] at hrest
      · -- once the future digest is in force, nothing changes any more
        have hchanged : (call.run s).activeDigest ≠ s.activeDigest := by
          rw [hnew, hold]
          exact hdiffer
        rw [if_neg hchanged]
        rcases hrest with hnone | ⟨_, hback, _⟩
        · rw [hnone, hnew]
          exact Or.inr ⟨rfl, hold, hdiffer⟩
        · exact absurd (hnew.symm.trans hback) hdiffer

omit h

/-- The cache answers as the expression does. -/
theorem topicSupported_eq
    {topic : String}
    (htopic : topic ≠ aggregatedMessagesTopic) :
    (s.topicSupported topic).1 =
      s.checkForkSupported (getForkDigestFromTopic topic) := by
  unfold topicSupported
  rw [if_neg htopic]
  cases hcached : s.topicForkCache topic with
  | none => rfl
  | some digest => rw [hclean.cached topic digest hcached]

end ForkService

end Responses

section Histories

def ForkCall.response : ForkCall → Option (String × String)
  | .applyForkDigest current future => some (current, future)
  | _ => none

/-- The calls after the latest response, with that response. -/
def sinceResponse : List ForkCall → Option ((String × String) × List ForkCall)
  | [] => none
  | call :: calls =>
      match sinceResponse calls with
      | some found => some found
      | none => call.response.map fun response => (response, calls)

variable {calls since : List ForkCall} {current future : String}

theorem sinceResponse_eq_none_iff :
    sinceResponse calls = none
      ↔
    ∀ current future, .applyForkDigest current future ∉ calls := by
  induction calls with
  | nil => simp [sinceResponse]
  | cons call calls ih =>
      cases hsince : sinceResponse calls with
      | some found =>
          have hmem := mt ih.mpr (by simp [hsince])
          push Not at hmem
          obtain ⟨current, future, hmem⟩ := hmem
          simp only [sinceResponse, hsince, reduceCtorEq, false_iff]
          push Not
          exact ⟨current, future, List.mem_cons_of_mem _ hmem⟩
      | none =>
          have hnot := ih.mp hsince
          cases call with
          | applyForkDigest current future =>
              simp only [sinceResponse, hsince, ForkCall.response, Option.map_some,
                reduceCtorEq, false_iff]
              push Not
              exact ⟨current, future, List.mem_cons_self⟩
          | observeMessageDigest digest | topicSupported topic =>
              simp [sinceResponse, hsince, ForkCall.response, hnot]

/-- The latest response splits the history. -/
theorem eq_append_of_sinceResponse
    (h : sinceResponse calls = some ((current, future), since)) :
    (∃ before, calls = before ++ .applyForkDigest current future :: since) ∧
      ∀ current' future', .applyForkDigest current' future' ∉ since := by
  induction calls with
  | nil => cases h
  | cons call calls ih =>
      cases hsince : sinceResponse calls with
      | some found =>
          simp only [sinceResponse, hsince] at h
          obtain ⟨⟨before, hbefore⟩, hnot⟩ := ih (hsince.trans h)
          exact ⟨⟨call :: before, by rw [hbefore, List.cons_append]⟩, hnot⟩
      | none =>
          simp only [sinceResponse, hsince, Option.map_eq_some_iff, Prod.mk.injEq] at h
          obtain ⟨response, hresponse, rfl, rfl⟩ := h
          cases call with
          | applyForkDigest current' future' =>
              cases hresponse
              exact ⟨⟨[], rfl⟩, sinceResponse_eq_none_iff.mp hsince⟩
          | observeMessageDigest digest | topicSupported topic => cases hresponse

namespace ForkService

variable {s : ForkService}

theorem Clean.after
    (h : s.Clean)
    (calls : List ForkCall) :
    (s.after calls).Clean := by
  unfold ForkService.after
  induction calls generalizing s with
  | nil => exact h
  | cons call calls ih => exact ih (h.run call)

theorem checkForkSupported_empty_run
    (h : s.checkForkSupported "" = false)
    (call : ForkCall) :
    (call.run s).checkForkSupported "" = false := by
  simp only [checkForkSupported, sanitizeForkDigest_empty, decide_eq_false_iff_not] at h ⊢
  cases call with
  | applyForkDigest current future =>
      simp only [ForkCall.run, applyForkDigest, mem_insertDigest, Finset.notMem_empty]
      grind
  | observeMessageDigest digest =>
      simp only [ForkCall.run, observeMessageDigest]
      split <;> exact h
  | topicSupported topic =>
      simp only [ForkCall.run, topicSupported]
      split
      · exact h
      · split <;> exact h

/-- The empty digest does not become supported. -/
theorem checkForkSupported_empty_after
    (h : s.checkForkSupported "" = false)
    (calls : List ForkCall) :
    (s.after calls).checkForkSupported "" = false := by
  unfold ForkService.after
  induction calls generalizing s with
  | nil => exact h
  | cons call calls ih => exact ih (checkForkSupported_empty_run h call)

theorem Follows.after
    (h : s.Follows current future)
    (hcalls : ∀ current' future', .applyForkDigest current' future' ∉ calls) :
    (s.after calls).Follows current future := by
  unfold ForkService.after
  induction calls generalizing s with
  | nil => exact h
  | cons call calls ih =>
      have hcall : ∀ current' future', call ≠ .applyForkDigest current' future' := by
        intro current' future' heq
        exact hcalls current' future' (by simp [heq])
      exact ih (h.run hcall)
        (fun current' future' hmem => hcalls current' future' (by simp [hmem]))

end ForkService

/-- The fork state machine.  After a history whose latest response has the given
digests, the digest in force is one of them and supported, the empty digest is not
supported, an observation is stored exactly when it changes the digest in force,
which then is the future one, the digest in force changed at most once since the
response and never back to the current one, and a topic is supported iff its digest
is.  The topic of aggregated messages has no digest and is always supported. -/
theorem fork_state_machine
    (hcurrent : ∀ current future, .applyForkDigest current future ∈ calls →
      trimSpace current ≠ "")
    (hsince : sinceResponse calls = some ((current, future), since)) :
    let s := ForkService.init.after calls
    (s.activeDigest = sanitizeForkDigest current ∨
        s.activeDigest = sanitizeForkDigest future) ∧
      s.checkForkSupported s.activeDigest = true ∧
      s.checkForkSupported "" = false ∧
      (∀ digest, ((s.observeMessageDigest digest).1 = true
            ↔
          (s.observeMessageDigest digest).2.activeDigest ≠ s.activeDigest) ∧
        ((s.observeMessageDigest digest).1 = true →
          (s.observeMessageDigest digest).2.activeDigest =
            sanitizeForkDigest future)) ∧
      (∃ before, calls = before ++ .applyForkDigest current future :: since ∧
        let changes := ((ForkService.init.after before).applyForkDigest current
          future).activeChanges since
        changes.length ≤ 1 ∧ sanitizeForkDigest current ∉ changes) ∧
      (∀ topic, topic ≠ aggregatedMessagesTopic →
        (s.topicSupported topic).1 =
          s.checkForkSupported (getForkDigestFromTopic topic)) ∧
      (s.topicSupported aggregatedMessagesTopic).1 = true := by
  obtain ⟨⟨before, rfl⟩, hnot⟩ := eq_append_of_sinceResponse hsince
  have hresponse := ForkService.follows_applyForkDigest (ForkService.init.after before)
    (hcurrent current future (by simp)) future
  have hafter : ForkService.init.after
      (before ++ .applyForkDigest current future :: since) =
      ((ForkService.init.after before).applyForkDigest current future).after since := by
    simp [ForkService.after, ForkCall.run]
  intro s
  have hclean : s.Clean := ForkService.clean_init.after _
  have hfollows : s.Follows (sanitizeForkDigest current) (sanitizeForkDigest future) := by
    change (ForkService.init.after _).Follows _ _
    rw [hafter]
    exact hresponse.after hnot
  refine ⟨?_, ?_, ?_, ?_, ⟨before, rfl, ?_⟩, ?_, ?_⟩
  · rw [ForkService.activeDigest_eq hfollows hclean]
    split
    · exact Or.inr rfl
    · exact Or.inl rfl
  · exact (hfollows.activeDigest_supported hclean).1
  · rw [← Bool.not_eq_true, ForkService.checkForkSupported_iff hfollows]
    simp
  · intro digest
    rcases ForkService.activeDigest_observe hfollows hclean digest with
      ⟨hfalse, hsame⟩ | ⟨htrue, hold, hnew, hdiffer⟩
    · simp [hfalse, hsame]
    · simp [htrue, hold, hnew, hdiffer]
  · have hclean' : ((ForkService.init.after before).applyForkDigest current
        future).Clean :=
      (ForkService.clean_init.after before).run (.applyForkDigest current future)
    rcases ForkService.activeChanges_between hresponse hclean' hnot with
      hnone | ⟨hone, _, hdiffer⟩
    · simp [hnone]
    · simp [hone, hdiffer.symm]
  · intro topic htopic
    exact ForkService.topicSupported_eq hclean htopic
  · simp [ForkService.topicSupported]

/-- A response and an observation of its future digest. -/
def transitionHistory : List ForkCall :=
  [.applyForkDigest " C6ECB76C " "ddeeff00", .observeMessageDigest "DDEEFF00"]

theorem fork_state_machine_transition :
    let s := ForkService.init.after transitionHistory
    s.activeDigest = "ddeeff00" ∧ s.checkForkSupported s.activeDigest = true := by
  have hcurrent : ∀ current future,
      .applyForkDigest current future ∈ transitionHistory →
      trimSpace current ≠ "" := by
    intro current future hmem
    simp only [transitionHistory, List.mem_cons, ForkCall.applyForkDigest.injEq,
      reduceCtorEq, List.not_mem_nil, or_false] at hmem
    rw [hmem.1]
    decide +kernel
  exact ⟨by decide +kernel, (fork_state_machine hcurrent rfl).2.1⟩

/-- The topic of aggregated messages is supported although the digest parsed from it
is not. -/
theorem aggregated_topic_bypass :
    let s := ForkService.init.after transitionHistory
    (s.topicSupported aggregatedMessagesTopic).1 = true ∧
      s.checkForkSupported (getForkDigestFromTopic aggregatedMessagesTopic) =
        false := by
  decide +kernel

end Histories

end Protocol
end OptimumGateway
