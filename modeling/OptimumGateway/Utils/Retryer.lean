import OptimumGateway.Foundation.CrashSafety
import OptimumGateway.Foundation.GoError

/-!
# Retried requests

This module models `pkg/utils/retryer.go`.  A request is a program that answers
with a `Response`; between two attempts the loop waits, and the wait reports
whether the context ended first.
-/

namespace OptimumGateway
namespace Utils

open Foundation Foundation.Prog

/-- Result triple of a request: the parsed body, the status and the error. -/
structure Response (T : Type) where
  res : Option T
  code : Int
  err : Option GoError
deriving DecidableEq

def retryAttempts : Nat := 3

/-- `IsPostSuccess`. -/
def isPostSuccess (code : Int) : Bool :=
  code = 200 ∨ code = 201

section Retry

variable {Op : Type} {Ans : Op → Type} {T : Type}

/-- The loop of `retryRequest` with `n` attempts left after the next one. -/
def retryLoop
    (fn : Prog Op Ans (Response T))
    (ok : Int → Bool)
    (ctxDone : Prog Op Ans Bool) : Nat → Prog Op Ans (Response T)
  | 0 => fn
  | n + 1 => do
      let r ← fn
      if ok r.code then
        pure r
      else
        let done ← ctxDone
        if done then pure r else retryLoop fn ok ctxDone n

def retryRequest
    (fn : Prog Op Ans (Response T))
    (ok : Int → Bool)
    (ctxDone : Prog Op Ans Bool) : Prog Op Ans (Response T) :=
  retryLoop fn ok ctxDone (retryAttempts - 1)

/-- `RetryPostRequest`: a success or one of the given codes ends the loop. -/
def retryPostRequest
    (post : Prog Op Ans (Response T))
    (ctxDone : Prog Op Ans Bool)
    (codes : List Int) : Prog Op Ans (Response T) :=
  retryRequest post (fun i => isPostSuccess i || codes.contains i) ctxDone

variable {fn : Prog Op Ans (Response T)} {ok : Int → Bool} {ctxDone : Prog Op Ans Bool}
variable {l : List (Call Op Ans)} {r : Response T}

theorem forall_retryLoop
    {P : Op → Prop}
    (hfn : fn.Forall P)
    (hwait : ctxDone.Forall P)
    (n : Nat) :
    (retryLoop fn ok ctxDone n).Forall P := by
  induction n with
  | zero => exact hfn
  | succ n ih =>
      refine Forall.bind hfn ?_
      intro r
      split
      · trivial
      · refine Forall.bind hwait ?_
        intro done
        split
        · trivial
        · exact ih

/-- The answer of the loop is that of its last attempt, after which it waited at most. -/
theorem path_retryLoop
    {n : Nat}
    (h : Path (retryLoop fn ok ctxDone n) l (ret r)) :
    ∃ before last after, l = before ++ (last ++ after) ∧ Path fn last (ret r) ∧
      (after = [] ∨ Path ctxDone after (ret true)) := by
  induction n generalizing l with
  | zero => exact ⟨[], l, [], by simp, h, Or.inl rfl⟩
  | succ n ih =>
      obtain ⟨r', l₁, l₂, rfl, hfn, hrest⟩ := path_bind_ret h
      split at hrest
      · obtain ⟨rfl, hret⟩ := path_ret_iff.mp hrest
        cases hret
        exact ⟨[], l₁, [], rfl, hfn, Or.inl rfl⟩
      · obtain ⟨done, l₃, l₄, rfl, hwait, hrest⟩ := path_bind_ret hrest
        cases done with
        | true =>
            obtain ⟨rfl, hret⟩ := path_ret_iff.mp hrest
            cases hret
            exact ⟨[], l₁, l₃, by simp, hfn, Or.inr hwait⟩
        | false =>
            obtain ⟨before, last, after, rfl, hlast, hafter⟩ := ih hrest
            exact ⟨l₁ ++ l₃ ++ before, last, after, by simp, hlast, hafter⟩

variable {codes : List Int}

theorem forall_retryPostRequest
    {P : Op → Prop}
    (hpost : fn.Forall P)
    (hwait : ctxDone.Forall P) :
    (retryPostRequest fn ctxDone codes).Forall P :=
  forall_retryLoop hpost hwait _

theorem path_retryPostRequest_first
    (h : Path fn l (ret r))
    (hok : isPostSuccess r.code = true) :
    Path (retryPostRequest fn ctxDone codes) l (ret r) := by
  have hrest : Path (if isPostSuccess r.code || codes.contains r.code then pure r else do
      let done ← ctxDone
      if done then pure r else
        retryLoop fn (fun i => isPostSuccess i || codes.contains i) ctxDone 1) [] (ret r) := by
    rw [hok, Bool.true_or, if_pos rfl]
    exact Path.nil _
  rw [← List.append_nil l]
  exact h.bind hrest

theorem path_retryPostRequest
    (h : Path (retryPostRequest fn ctxDone codes) l (ret r)) :
    ∃ before last after, l = before ++ (last ++ after) ∧ Path fn last (ret r) ∧
      (after = [] ∨ Path ctxDone after (ret true)) :=
  path_retryLoop h

variable {σ : Type} {sem : Sem Op Ans σ} {I : σ → Prop}

/-- If every attempt and every wait keeps `J`, and a wait does not change what is
known of the answer before it, then the last answer is known in the end. -/
theorem safe_retryLoop
    {J : σ → Prop} {Q : Response T → σ → Prop}
    (hfn : ∀ s, J s → Safe sem I (fun r t => J t ∧ Q r t) fn s)
    (hwait : ∀ r s, J s → Q r s →
      Safe sem I (fun _ t => J t ∧ Q r t) ctxDone s)
    (n : Nat) {s : σ}
    (hs : J s) :
    Safe sem I (fun r t => J t ∧ Q r t) (retryLoop fn ok ctxDone n) s := by
  induction n generalizing s with
  | zero =>
      exact hfn s hs
  | succ n ih =>
      refine (hfn s hs).bind ?_
      rintro r t hI ⟨hJ, hQ⟩
      by_cases hok : ok r.code = true
      · rw [if_pos hok]
        exact ⟨hI, hJ, hQ⟩
      · rw [if_neg hok]
        refine (hwait r t hJ hQ).bind ?_
        rintro done u hI' ⟨hJ', hQ'⟩
        cases done with
        | true => exact ⟨hI', hJ', hQ'⟩
        | false => exact ih hJ'

end Retry

end Utils
end OptimumGateway
