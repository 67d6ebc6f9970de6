import OptimumGateway.Foundation.AtomicProgram

/-!
# Crash safety of sequential programs

A program over durable memory can be stopped after any operation.  `Safe`
is the weakest precondition of a program for a crash invariant `I` and a
postcondition `Q`: whatever the operations answer, `I` holds in every memory the
program can be stopped in, and `Q` holds of its result.

A process that is restarted any number of times, each time with another
argument, is the relation `Restarts`.  The rule `Restarts.invariant` reduces a
fact about all its histories to the safety of one boot.  A system whose handlers
run to their end one after another is the relation `Handled`, which also keeps
the calls made; with the semantics `Sem.traced` the invariants may speak of them.
-/

namespace OptimumGateway
namespace Foundation

open Prog

section CrashSafety

variable {Op : Type} {Ans : Op → Type} {α β σ : Type} {s t : σ} {l : List (Call Op Ans)}
variable {Q : α → σ → Prop} {p : Prog Op Ans α}

/-- Restrict the answers of the operations. -/
def Sem.restrict
    (sem : Sem Op Ans σ)
    (R : (op : Op) → σ → Ans op → Prop) : Sem Op Ans σ :=
  fun op s r t => sem op s r t ∧ R op s r

theorem Exec.restrict
    {sem : Sem Op Ans σ} {R : (op : Op) → σ → Ans op → Prop}
    (h : Exec sem s l t)
    (hR : ∀ c ∈ l, ∀ u, R c.1 u c.2) :
    Exec (sem.restrict R) s l t := by
  induction h with
  | nil s => exact Exec.nil s
  | cons head _ ih =>
      refine Exec.cons ⟨head, hR _ List.mem_cons_self _⟩ (ih ?_)
      intro c hc
      exact hR c (List.mem_cons_of_mem _ hc)

/-- Crash invariant `I` at every point of the program, result in `Q`. -/
def Safe
    (sem : Sem Op Ans σ)
    (I : σ → Prop)
    (Q : α → σ → Prop) :
    Prog Op Ans α → σ → Prop
  | .ret a, s => I s ∧ Q a s
  | .call o k, s => I s ∧ ∀ r t, sem o s r t → Safe sem I Q (k r) t

variable {sem : Sem Op Ans σ} {I : σ → Prop}

theorem safe_call_iff
    {o : Op} {k : Ans o → Prog Op Ans α} :
    Safe sem I Q (.call o k) s
      ↔
    I s ∧ ∀ r t, sem o s r t → Safe sem I Q (k r) t := by
  rfl

theorem Safe.inv
    (h : Safe sem I Q p s) :
    I s := by
  cases p with
  | ret a | call o k => exact h.1

theorem Safe.bind
    {R : β → σ → Prop}
    {f : α → Prog Op Ans β}
    (hp : Safe sem I Q p s)
    (hf : ∀ a t, I t → Q a t → Safe sem I R (f a) t) :
    Safe sem I R (p >>= f) s := by
  induction p generalizing s with
  | ret a =>
      exact hf a s hp.1 hp.2
  | call o k ih =>
      rw [call_bind, safe_call_iff]
      refine ⟨hp.1, ?_⟩
      intro r t hsem
      exact ih r (hp.2 r t hsem)

theorem Safe.mono
    {R : α → σ → Prop}
    (h : Safe sem I Q p s)
    (hQR : ∀ a t, Q a t → R a t) :
    Safe sem I R p s := by
  induction p generalizing s with
  | ret a =>
      exact ⟨h.1, hQR a s h.2⟩
  | call o k ih =>
      refine ⟨h.1, ?_⟩
      intro r t hsem
      exact ih r (h.2 r t hsem)

/-- Wherever the program is stopped, the crash invariant holds. -/
theorem Safe.sound
    {q : Prog Op Ans α}
    (h : Safe sem I Q p s)
    (hpath : Path p l q)
    (hexec : Exec sem s l t) :
    I t := by
  induction hpath generalizing s with
  | nil =>
      rw [exec_nil_iff] at hexec
      subst hexec
      exact h.inv
  | cons tail ih =>
      obtain ⟨u, hsem, hrest⟩ := exec_cons_iff.mp hexec
      exact ih (h.2 _ u hsem) hrest

/-- The result of a program satisfies the postcondition. -/
theorem Safe.result
    {a : α}
    (h : Safe sem I Q p s)
    (hpath : Path p l (ret a))
    (hexec : Exec sem s l t) :
    Q a t := by
  generalize hq : (ret a : Prog Op Ans α) = q at hpath
  induction hpath generalizing s with
  | nil =>
      subst hq
      rw [exec_nil_iff] at hexec
      subst hexec
      exact h.2
  | cons tail ih =>
      obtain ⟨u, hsem, hrest⟩ := exec_cons_iff.mp hexec
      exact ih (h.2 _ u hsem) hrest hq

/-- Histories of a process that is booted again and again, each boot with its own
argument and stopped after any of its operations. -/
inductive Restarts
    (sem : Sem Op Ans σ)
    (boot : β → Prog Op Ans α) : σ → σ → Prop
  | nil (s : σ) : Restarts sem boot s s
  | snoc
      {s t u : σ} {b : β} {q : Prog Op Ans α} {l : List (Call Op Ans)}
      (front : Restarts sem boot s t)
      (path : Path (boot b) l q)
      (exec : Exec sem t l u) :
      Restarts sem boot s u

/-- If every boot is safe for `I`, then `I` holds after every history. -/
theorem Restarts.invariant
    {boot : β → Prog Op Ans α}
    (h : Restarts sem boot s t)
    (hboot : ∀ b u, I u → Safe sem I (fun _ _ => True) (boot b) u)
    (hs : I s) :
    I t := by
  induction h with
  | nil => exact hs
  | snoc _ path exec ih => exact (hboot _ _ ih).sound path exec

section Handlers

/-- The semantics on memories paired with the calls made so far. -/
def Sem.traced
    (sem : Sem Op Ans σ) : Sem Op Ans (List (Call Op Ans) × σ) :=
  fun op s r t => sem op s.2 r t.2 ∧ t.1 = s.1 ++ [⟨op, r⟩]

theorem Exec.traced
    {s t : σ} {l : List (Call Op Ans)}
    (h : Exec sem s l t)
    (before : List (Call Op Ans)) :
    Exec sem.traced (before, s) l (before ++ l, t) := by
  induction h generalizing before with
  | nil s =>
      rw [List.append_nil]
      exact Exec.nil _
  | @cons s t u o r l head _ ih =>
      have htail := ih (before ++ [⟨o, r⟩])
      rw [List.append_assoc] at htail
      exact Exec.cons (t := (before ++ [⟨o, r⟩], t)) ⟨head, rfl⟩ htail

/-- Histories of a system whose handlers are executed one after another, each to
its end, with the calls they make. -/
inductive Handled
    (sem : Sem Op Ans σ)
    (handler : β → Prog Op Ans α) : σ → List (Call Op Ans) → σ → Prop
  | nil (s : σ) : Handled sem handler s [] s
  | snoc
      {s t u : σ} {b : β} {a : α} {tr l : List (Call Op Ans)}
      (front : Handled sem handler s tr t)
      (path : Path (handler b) l (ret a))
      (exec : Exec sem t l u) :
      Handled sem handler s (tr ++ l) u

/-- What holds between handlers: an invariant `J` of the calls and the memory that
every handler restores. -/
theorem Handled.invariant
    {I J : List (Call Op Ans) × σ → Prop}
    {handler : β → Prog Op Ans α}
    {s t : σ} {tr : List (Call Op Ans)}
    (h : Handled sem handler s tr t)
    (hhandler : ∀ b x, J x → Safe sem.traced I (fun _ => J) (handler b) x)
    (hs : J ([], s)) :
    J (tr, t) := by
  induction h with
  | nil => exact hs
  | snoc _ path exec ih => exact (hhandler _ _ ih).result path (exec.traced _)

end Handlers

section Fallible

variable {ε : Type} {Q : α → σ → Prop} {s : σ} {wrap : ε → ε}

/-- Safety of a program that may fail: `I` at every point, and `Q` of its result
when there is one. -/
def SafeOk
    (sem : Sem Op Ans σ)
    (I : σ → Prop)
    (Q : α → σ → Prop)
    (p : ExceptT ε (Prog Op Ans) α)
    (s : σ) : Prop :=
  Safe sem I (fun r t => ∀ a, r = .ok a → Q a t) p.run s

/-- Issue one operation in a program that may fail. -/
def liftOp (o : Op) : ExceptT ε (Prog Op Ans) (Ans o) :=
  ExceptT.lift (Prog.op o)

/-- Fail with a wrapped error where there is one. -/
def failWith
    (wrap : ε → ε) : Option ε → ExceptT ε (Prog Op Ans) Unit
  | some err => throw (wrap err)
  | none => pure ()

/-- Continue with a value, or fail with the wrapped error. -/
def orFail
    (wrap : ε → ε) : Except ε α → ExceptT ε (Prog Op Ans) α
  | .ok a => pure a
  | .error err => throw (wrap err)

/-- Fail with the given error under a condition. -/
def failIf
    (cond : Prop) [Decidable cond]
    (err : ε) : ExceptT ε (Prog Op Ans) Unit :=
  if cond then throw err else pure ()

theorem SafeOk.bind
    {R : β → σ → Prop}
    {p : ExceptT ε (Prog Op Ans) α} {f : α → ExceptT ε (Prog Op Ans) β}
    (hp : SafeOk sem I Q p s)
    (hf : ∀ a t, I t → Q a t → SafeOk sem I R (f a) t) :
    SafeOk sem I R (p >>= f) s := by
  refine Safe.bind hp ?_
  intro r t hI hQ
  cases r with
  | ok a => exact hf a t hI (hQ a rfl)
  | error err => exact ⟨hI, fun a h => nomatch h⟩

variable (hI : I s)
include hI

theorem SafeOk.pure
    {a : α}
    (hQ : Q a s) :
    SafeOk sem I Q (pure a : ExceptT ε (Prog Op Ans) α) s := by
  refine ⟨hI, ?_⟩
  intro b hb
  cases hb
  exact hQ

theorem SafeOk.throw
    {err : ε} :
    SafeOk sem I Q (throw err : ExceptT ε (Prog Op Ans) α) s := by
  exact ⟨hI, fun a h => nomatch h⟩

omit hI in
/-- A program that cannot fail, used where failure is possible. -/
theorem SafeOk.lift
    {p : Prog Op Ans α}
    (hp : Safe sem I Q p s) :
    SafeOk sem I Q (ExceptT.lift p : ExceptT ε (Prog Op Ans) α) s := by
  refine Safe.bind hp ?_
  intro a t hI hQ
  refine ⟨hI, ?_⟩
  intro b hb
  cases hb
  exact hQ

theorem SafeOk.liftOp
    {o : Op} {Q : Ans o → σ → Prop}
    (hop : ∀ r t, sem o s r t → I t ∧ Q r t) :
    SafeOk sem I Q (liftOp o : ExceptT ε (Prog Op Ans) (Ans o)) s := by
  exact SafeOk.lift ⟨hI, hop⟩

theorem SafeOk.failWith
    {Q : Unit → σ → Prop} {err : Option ε}
    (hQ : err = none → Q () s) :
    SafeOk sem I Q (failWith wrap err : ExceptT ε (Prog Op Ans) Unit) s := by
  cases err with
  | none => exact SafeOk.pure hI (hQ rfl)
  | some err => exact SafeOk.throw hI

theorem SafeOk.failWith_bind
    {err : Option ε}
    {f : Unit → ExceptT ε (Prog Op Ans) α}
    (hf : err = none → SafeOk sem I Q (f ()) s) :
    SafeOk sem I Q (Foundation.failWith wrap err >>= f) s := by
  cases err with
  | none => exact hf rfl
  | some err => exact SafeOk.throw hI

theorem SafeOk.orFail_bind
    {Q : β → σ → Prop} {r : Except ε α}
    {f : α → ExceptT ε (Prog Op Ans) β}
    (hf : ∀ a, r = .ok a → SafeOk sem I Q (f a) s) :
    SafeOk sem I Q (Foundation.orFail wrap r >>= f) s := by
  cases r with
  | ok a => exact hf a rfl
  | error err => exact SafeOk.throw hI

theorem SafeOk.failIf_bind
    {Q : α → σ → Prop} {cond : Prop} [Decidable cond] {err : ε}
    {f : Unit → ExceptT ε (Prog Op Ans) α}
    (hf : ¬ cond → SafeOk sem I Q (f ()) s) :
    SafeOk sem I Q (failIf cond err >>= f) s := by
  unfold failIf
  by_cases h : cond
  · rw [if_pos h]
    exact SafeOk.throw hI
  · rw [if_neg h]
    exact hf h

end Fallible

end CrashSafety

end Foundation
end OptimumGateway
