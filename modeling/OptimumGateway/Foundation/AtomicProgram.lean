import Mathlib.Algebra.BigOperators.Group.Finset.Piecewise
import Mathlib.Algebra.Order.BigOperators.Group.Finset
import Mathlib.Data.List.Basic
import Mathlib.Data.List.Induction
import Mathlib.Logic.Function.Basic
import Mathlib.Tactic.Common

/-!
# Sequential programs over atomic operations, and their interleavings

A goroutine is a sequential program that issues atomic operations on shared
memory.  It is represented by `Prog`: a program either returns, or calls one
operation and continues with its answer.  The meaning of the operations is a
relation `Sem`, so that an operation may be deterministic, may depend on a
choice of the environment, or may be blocked.

Three views of an execution are used:

* `Path p l q`: the program `p` issues the calls `l` and is left with `q`;
* `Exec sem s l t`: the memory goes from `s` to `t` by the calls `l`;
* `Run sem G c tr d`: a pool of programs is executed one operation at a time,
  in any order, and every step meets the guard `G`.

A run of a pool is a shuffle of paths of its programs (`Run.path`) that the
memory can execute (`Run.exec`).  Facts about all interleavings are derived from
these two, or from the invariant rule `Run.invariant`.
-/

namespace OptimumGateway
namespace Foundation

/-- A sequential program over the operations `Op` with answers `Ans`. -/
inductive Prog (Op : Type) (Ans : Op → Type) (α : Type) : Type where
  | ret (a : α)
  | call (op : Op) (k : Ans op → Prog Op Ans α)

namespace Prog

variable {Op : Type} {Ans : Op → Type} {α β : Type}

/-- Sequential composition. -/
def bind : Prog Op Ans α → (α → Prog Op Ans β) → Prog Op Ans β
  | ret a, f => f a
  | call op k, f => call op fun r => (k r).bind f

instance : Monad (Prog Op Ans) where
  pure := ret
  bind := bind

/-- The program that issues one operation and returns its answer. -/
def op (o : Op) : Prog Op Ans (Ans o) :=
  call o ret

@[simp] theorem pure_eq
    (a : α) :
    (pure a : Prog Op Ans α) = ret a := by
  rfl

@[simp] theorem ret_bind
    (a : α)
    (f : α → Prog Op Ans β) :
    (ret a >>= f) = f a := by
  rfl

@[simp] theorem call_bind
    (o : Op)
    (k : Ans o → Prog Op Ans α)
    (f : α → Prog Op Ans β) :
    (call o k >>= f) = call o fun r => k r >>= f := by
  rfl

@[simp] theorem op_bind
    (o : Op)
    (f : Ans o → Prog Op Ans β) :
    (op o >>= f) = call o f := by
  rfl

theorem bind_assoc
    {γ : Type}
    (p : Prog Op Ans α)
    (f : α → Prog Op Ans β)
    (g : β → Prog Op Ans γ) :
    (p >>= f >>= g) = (p >>= fun a => f a >>= g) := by
  induction p with
  | ret a => rfl
  | call o k ih => exact congrArg (call o) (funext ih)

/-- One call together with its answer. -/
abbrev Call (Op : Type) (Ans : Op → Type) :=
  Σ op : Op, Ans op

/-- `Path p l q`: the program `p` issues the calls `l` and continues as `q`. -/
inductive Path :
    Prog Op Ans α → List (Call Op Ans) → Prog Op Ans α → Prop
  | nil (p : Prog Op Ans α) : Path p [] p
  | cons
      {o : Op} {k : Ans o → Prog Op Ans α} {r : Ans o}
      {l : List (Call Op Ans)} {q : Prog Op Ans α}
      (tail : Path (k r) l q) :
      Path (call o k) (⟨o, r⟩ :: l) q

variable {p q : Prog Op Ans α} {f : α → Prog Op Ans β} {l h : List (Call Op Ans)}
variable {P : Op → Prop} {J : List (Call Op Ans) → Op → Prop}
variable {Q : List (Call Op Ans) → α → Prop} {o : Op}

theorem path_nil_iff :
    Path p [] q ↔ q = p := by
  constructor
  · intro h
    cases h
    rfl
  · rintro rfl
    exact Path.nil q

theorem path_ret_iff
    {a : α} :
    Path (ret a) l q ↔ l = [] ∧ q = ret a := by
  constructor
  · intro h
    cases h
    exact ⟨rfl, rfl⟩
  · rintro ⟨rfl, rfl⟩
    exact Path.nil _

theorem path_call_iff
    {k : Ans o → Prog Op Ans α} :
    Path (call o k) l q
      ↔
    (l = [] ∧ q = call o k) ∨
      ∃ r l', l = ⟨o, r⟩ :: l' ∧ Path (k r) l' q := by
  constructor
  · intro h
    cases h with
    | nil => exact Or.inl ⟨rfl, rfl⟩
    | @cons _ _ r l' _ tail => exact Or.inr ⟨r, l', rfl, tail⟩
  · rintro (⟨rfl, rfl⟩ | ⟨r, l', rfl, tail⟩)
    · exact Path.nil _
    · exact Path.cons tail

theorem path_call_ret_iff
    {k : Ans o → Prog Op Ans α}
    {a : α} :
    Path (call o k) l (ret a)
      ↔
    ∃ r l', l = ⟨o, r⟩ :: l' ∧ Path (k r) l' (ret a) := by
  rw [path_call_iff]
  simp

theorem path_op_ret_iff
    {r : Ans o} :
    Path (op o) l (ret r) ↔ l = [⟨o, r⟩] := by
  unfold op
  rw [path_call_ret_iff]
  constructor
  · intro h
    obtain ⟨r', l', rfl, htail⟩ := h
    obtain ⟨rfl, hret⟩ := path_ret_iff.mp htail
    cases hret
    rfl
  · intro h
    exact ⟨r, [], h, Path.nil _⟩

theorem Path.append
    {t : Prog Op Ans α} {m : List (Call Op Ans)}
    (h : Path p l q)
    (h' : Path q m t) :
    Path p (l ++ m) t := by
  induction h with
  | nil => exact h'
  | cons tail ih => exact Path.cons (ih h')

theorem Path.bind
    {a : α}
    {m : List (Call Op Ans)} {q : Prog Op Ans β}
    (hp : Path p l (ret a))
    (hf : Path (f a) m q) :
    Path (p >>= f) (l ++ m) q := by
  induction l generalizing p with
  | nil =>
      cases hp
      exact hf
  | cons c l ih =>
      cases hp with
      | cons tail => exact Path.cons (ih tail)

/-- A path of a composition either stays in its first part or passes through
the value that part returns. -/
theorem path_bind
    {q : Prog Op Ans β}
    (h : Path (p >>= f) l q) :
    (∃ p', Path p l p' ∧ q = (p' >>= f)) ∨
      ∃ a l₁ l₂, l = l₁ ++ l₂ ∧ Path p l₁ (ret a) ∧ Path (f a) l₂ q := by
  induction p generalizing l with
  | ret a =>
      exact Or.inr ⟨a, [], l, rfl, Path.nil _, h⟩
  | call o k ih =>
      rw [call_bind, path_call_iff] at h
      rcases h with ⟨rfl, rfl⟩ | ⟨r, l', rfl, htail⟩
      · exact Or.inl ⟨call o k, Path.nil _, rfl⟩
      · rcases ih r htail with ⟨p', hp', hq⟩ | ⟨a, l₁, l₂, rfl, h₁, h₂⟩
        · exact Or.inl ⟨p', Path.cons hp', hq⟩
        · exact Or.inr ⟨a, ⟨o, r⟩ :: l₁, l₂, rfl, Path.cons h₁, h₂⟩

/-- A finished path of a composition passes through the value of its first part. -/
theorem path_bind_ret
    {b : β}
    (h : Path (p >>= f) l (ret b)) :
    ∃ a l₁ l₂, l = l₁ ++ l₂ ∧ Path p l₁ (ret a) ∧ Path (f a) l₂ (ret b) := by
  rcases path_bind h with ⟨p', hp', hret⟩ | hsplit
  · cases p' with
    | ret a =>
        refine ⟨a, l, [], by simp, hp', ?_⟩
        rw [hret]
        exact Path.nil _
    | call o k => exact nomatch hret
  · exact hsplit

theorem exists_path_ret
    (hanswers : ∀ o, Nonempty (Ans o))
    (p : Prog Op Ans α) :
    ∃ l a, Path p l (ret a) := by
  induction p with
  | ret a => exact ⟨[], a, Path.nil _⟩
  | call o k ih =>
      obtain ⟨r⟩ := hanswers o
      obtain ⟨l, a, hpath⟩ := ih r
      exact ⟨⟨o, r⟩ :: l, a, Path.cons hpath⟩

/-- Every operation that the program can issue satisfies `P`. -/
def Forall (P : Op → Prop) : Prog Op Ans α → Prop
  | ret _ => True
  | call o k => P o ∧ ∀ r, (k r).Forall P

theorem forall_op
    (h : P o) :
    (op o : Prog Op Ans (Ans o)).Forall P :=
  ⟨h, fun _ => trivial⟩

theorem Forall.bind
    (hp : p.Forall P)
    (hf : ∀ a, (f a).Forall P) :
    (p >>= f).Forall P := by
  induction p with
  | ret a => exact hf a
  | call o k ih => exact ⟨hp.1, fun r => ih r (hp.2 r)⟩

theorem Forall.mono
    {Q : Op → Prop}
    (hp : p.Forall P)
    (hPQ : ∀ o, P o → Q o) :
    p.Forall Q := by
  induction p with
  | ret a => exact trivial
  | call o k ih => exact ⟨hPQ o hp.1, fun r => ih r (hp.2 r)⟩

theorem Forall.forM
    {body : β → Prog Op Ans PUnit} {xs : List β}
    (hbody : ∀ x ∈ xs, (body x).Forall P) :
    (xs.forM body).Forall P := by
  induction xs with
  | nil => exact trivial
  | cons x xs ih =>
      refine (hbody x List.mem_cons_self).bind fun _ => ih ?_
      intro y hy
      exact hbody y (List.mem_cons_of_mem x hy)

theorem Path.forall_mem
    (h : Path p l q)
    (hp : p.Forall P) :
    ∀ c ∈ l, P c.1 := by
  induction h with
  | nil => simp
  | cons tail ih =>
      intro c hc
      rcases List.mem_cons.mp hc with rfl | hc
      · exact hp.1
      · exact ih (hp.2 _) c hc

/-- Every operation of the program meets the obligation `J` on the calls made
before it, and its result meets `Q`. -/
def Along
    (J : List (Call Op Ans) → Op → Prop)
    (Q : List (Call Op Ans) → α → Prop) :
    List (Call Op Ans) → Prog Op Ans α → Prop
  | h, ret a => Q h a
  | h, call o k => J h o ∧ ∀ r, (k r).Along J Q (h ++ [⟨o, r⟩])

theorem Along.bind
    {R : List (Call Op Ans) → β → Prop}
    (hp : p.Along J Q h)
    (hf : ∀ h' a, Q h' a → (f a).Along J R h') :
    (p >>= f).Along J R h := by
  induction p generalizing h with
  | ret a => exact hf h a hp
  | call o k ih => exact ⟨hp.1, fun r => ih r (hp.2 r)⟩

theorem Along.mono
    {R : List (Call Op Ans) → α → Prop}
    (hp : p.Along J Q h)
    (hQR : ∀ h' a, Q h' a → R h' a) :
    p.Along J R h := by
  induction p generalizing h with
  | ret a => exact hQR h a hp
  | call o k ih => exact ⟨hp.1, fun r => ih r (hp.2 r)⟩

theorem Along.subset
    {known : List (Call Op Ans)}
    (hp : p.Along J Q h)
    (hknown : known ⊆ h) :
    p.Along J (fun h' a => known ⊆ h' ∧ Q h' a) h := by
  induction p generalizing h with
  | ret a => exact ⟨hknown, hp⟩
  | call o k ih => exact ⟨hp.1, fun r => ih r (hp.2 r) (List.Subset.trans hknown (by simp))⟩

/-- Operations that meet their obligation under a condition and keep the condition. -/
theorem Forall.along_invariant
    {K : List (Call Op Ans) → Prop}
    (hp : p.Forall P)
    (hstart : K h)
    (hPJ : ∀ h o, K h → P o → J h o)
    (hkeep : ∀ h o r, K h → P o → K (h ++ [⟨o, r⟩])) :
    p.Along J (fun h' _ => K h') h := by
  induction p generalizing h with
  | ret a => exact hstart
  | call o k ih =>
      exact ⟨hPJ h o hstart hp.1, fun r => ih r (hp.2 r) (hkeep h o r hstart hp.1)⟩

/-- A program without obligations keeps what later calls do not undo. -/
theorem Forall.along
    (hp : p.Forall P)
    (hPJ : ∀ h o, P o → J h o) :
    p.Along J (fun _ _ => True) h := by
  exact hp.along_invariant (K := fun _ => True) trivial (fun h o _ => hPJ h o)
    fun _ _ _ _ _ => trivial

/-- The promise of a program comes with the path it has taken. -/
theorem Forall.along_path
    (hp : p.Forall P)
    (hPJ : ∀ h o, P o → J h o)
    (h : List (Call Op Ans)) :
    p.Along J (fun h' a => ∃ l, h' = h ++ l ∧ Path p l (ret a)) h := by
  induction p generalizing h with
  | ret a => exact ⟨[], by simp, Path.nil _⟩
  | call o k ih =>
      refine ⟨hPJ h o hp.1, fun r => (ih r (hp.2 r) _).mono ?_⟩
      rintro h' a ⟨l, rfl, hpath⟩
      exact ⟨⟨o, r⟩ :: l, by simp, Path.cons hpath⟩

theorem Along.imp
    {K : List (Call Op Ans) → Op → Prop}
    (hp : p.Along J Q h)
    (hJK : ∀ h o, J h o → K h o) :
    p.Along K Q h := by
  induction p generalizing h with
  | ret a => exact hp
  | call o k ih => exact ⟨hJK h o hp.1, fun r => ih r (hp.2 r)⟩

/-- Operations that keep a function of the history keep it along a program. -/
theorem Forall.along_keeps
    {γ : Type} {f : List (Call Op Ans) → γ} {z : γ}
    (hp : p.Forall P)
    (hPJ : ∀ h o, P o → J h o)
    (hkeep : ∀ h o r, P o → f (h ++ [⟨o, r⟩]) = f h)
    (hz : f h = z) :
    p.Along J (fun h' _ => f h' = z) h := by
  exact hp.along_invariant hz (fun h o _ => hPJ h o) fun h o r hz hP =>
    (hkeep h o r hP).trans hz

/-- Operations that meet their obligation once some calls were made. -/
theorem Forall.along_known
    {known : List (Call Op Ans)}
    (hp : p.Forall P)
    (hknown : known ⊆ h)
    (hPJ : ∀ h o, known ⊆ h → P o → J h o) :
    p.Along J (fun _ _ => True) h := by
  refine (hp.along_invariant hknown hPJ ?_).mono fun _ _ _ => trivial
  intro h o r hknown _
  exact List.Subset.trans hknown (List.subset_append_left h _)

theorem Path.along
    {before after : List (Call Op Ans)}
    {r : Ans o}
    (hpath : Path p (before ++ ⟨o, r⟩ :: after) q)
    (hp : p.Along J Q h) :
    J (h ++ before) o := by
  induction before generalizing p h with
  | nil =>
      cases hpath with
      | cons tail =>
          rw [List.append_nil]
          exact hp.1
  | cons c before ih =>
      cases hpath with
      | @cons _ _ r' _ _ tail =>
          have hrest := ih tail (hp.2 r')
          rw [List.append_assoc] at hrest
          exact hrest

/-- What a program promises about all its calls, it promises after some of them. -/
theorem Along.rest
    (hp : p.Along J Q h)
    (hpath : Path p l q) :
    q.Along J Q (h ++ l) := by
  induction hpath generalizing h with
  | nil =>
      rw [List.append_nil]
      exact hp
  | @cons _ _ r _ _ tail ih =>
      have hrest := ih (hp.2 r)
      rw [List.append_assoc] at hrest
      exact hrest

/-- What every obligation and the result entail holds at every point of a program. -/
theorem Along.here
    {K : List (Call Op Ans) → Prop}
    (hp : p.Along J Q h)
    (hJ : ∀ o, J h o → K h)
    (hQ : ∀ a, Q h a → K h) :
    K h := by
  cases p with
  | ret a => exact hQ a hp
  | call o k => exact hJ o hp.1

/-- What remains of the program after exactly these calls. -/
def rest [DecidableEq Op] :
    Prog Op Ans α → List (Call Op Ans) → Option (Prog Op Ans α)
  | p, [] => some p
  | ret _, _ :: _ => none
  | call o k, c :: l => if h : c.1 = o then (k (h ▸ c.2)).rest l else none

theorem path_of_rest
    [DecidableEq Op]
    (h : p.rest l = some q) :
    Path p l q := by
  induction l generalizing p with
  | nil =>
      simp only [rest, Option.some.injEq] at h
      exact h ▸ Path.nil p
  | cons c l ih =>
      cases p with
      | ret b => cases h
      | call o k =>
          obtain ⟨o', r⟩ := c
          unfold rest at h
          by_cases ho : o' = o
          · subst ho
            rw [dif_pos rfl] at h
            exact Path.cons (ih h)
          · rw [dif_neg ho] at h
            cases h

/-- The result of a program that has returned. -/
def result : Prog Op Ans α → Option α
  | ret a => some a
  | call _ _ => none

theorem path_of_result
    [DecidableEq Op]
    {a : α}
    (h : (p.rest l).bind result = some a) :
    Path p l (ret a) := by
  obtain ⟨q, hq, ha⟩ := Option.bind_eq_some_iff.mp h
  cases q with
  | ret b =>
      cases ha
      exact path_of_rest hq
  | call o k => cases ha

end Prog

open Prog

section Execution

variable {Op : Type} {Ans : Op → Type} {α σ : Type}

/-- Meaning of the operations on a memory `σ`: `sem op s r t` when `op` may turn
`s` into `t` with answer `r`. -/
abbrev Sem (Op : Type) (Ans : Op → Type) (σ : Type) :=
  (op : Op) → σ → Ans op → σ → Prop

/-- The meaning given by a function. -/
def Sem.ofFun
    (f : (op : Op) → σ → Ans op × σ) : Sem Op Ans σ :=
  fun op s r t => f op s = (r, t)

variable (sem : Sem Op Ans σ)

/-- A memory executes a list of calls. -/
inductive Exec : σ → List (Call Op Ans) → σ → Prop
  | nil (s : σ) : Exec s [] s
  | cons
      {s t u : σ} {o : Op} {r : Ans o} {l : List (Call Op Ans)}
      (head : sem o s r t)
      (tail : Exec t l u) :
      Exec s (⟨o, r⟩ :: l) u

variable {sem} {s t u : σ} {l : List (Call Op Ans)} {p : Prog Op Ans α} {o : Op} {β : Type}
variable {a : α}

theorem exec_nil_iff :
    Exec sem s [] t ↔ t = s := by
  constructor
  · intro h
    cases h
    rfl
  · rintro rfl
    exact Exec.nil t

theorem exec_cons_iff
    {r : Ans o} :
    Exec sem s (⟨o, r⟩ :: l) u
      ↔
    ∃ t, sem o s r t ∧ Exec sem t l u := by
  constructor
  · intro h
    cases h with
    | cons head tail => exact ⟨_, head, tail⟩
  · rintro ⟨t, head, tail⟩
    exact Exec.cons head tail

theorem exec_append_iff
    {m : List (Call Op Ans)} :
    Exec sem s (l ++ m) u
      ↔
    ∃ t, Exec sem s l t ∧ Exec sem t m u := by
  induction l generalizing s with
  | nil =>
      simp [exec_nil_iff]
  | cons c l ih =>
      obtain ⟨o, r⟩ := c
      rw [List.cons_append, exec_cons_iff]
      constructor
      · rintro ⟨t, head, tail⟩
        obtain ⟨v, hl, hm⟩ := ih.mp tail
        exact ⟨v, Exec.cons head hl, hm⟩
      · rintro ⟨v, hl, hm⟩
        obtain ⟨t, head, tail⟩ := exec_cons_iff.mp hl
        exact ⟨t, head, ih.mpr ⟨v, tail, hm⟩⟩

theorem Exec.append
    {m : List (Call Op Ans)}
    (hl : Exec sem s l t)
    (hm : Exec sem t m u) :
    Exec sem s (l ++ m) u :=
  exec_append_iff.mpr ⟨t, hl, hm⟩

theorem exec_concat_iff
    {r : Ans o} :
    Exec sem s (l ++ [⟨o, r⟩]) u
      ↔
    ∃ t, Exec sem s l t ∧ sem o t r u := by
  rw [exec_append_iff]
  simp [exec_cons_iff, exec_nil_iff]

/-- The answers determine the memory, if those of each operation do. -/
theorem Exec.unique
    (ht : Exec sem s l t)
    (hu : Exec sem s l u)
    (hsem : ∀ o s r t u, sem o s r t → sem o s r u → t = u) :
    t = u := by
  induction ht with
  | nil => exact (exec_nil_iff.mp hu).symm
  | cons head _ ih =>
      obtain ⟨v, hv, hrest⟩ := exec_cons_iff.mp hu
      obtain rfl := hsem _ _ _ _ _ head hv
      exact ih hrest

theorem Exec.sem_of_mem
    {c : Call Op Ans}
    (h : Exec sem s l t)
    (hc : c ∈ l) :
    ∃ u v, sem c.1 u c.2 v := by
  induction h with
  | nil s => cases hc
  | cons head tail ih =>
      rcases List.mem_cons.mp hc with rfl | hc
      · exact ⟨_, _, head⟩
      · exact ih hc

/-- The result of a program that runs alone on a deterministic memory. -/
def eval (f : (op : Op) → σ → Ans op × σ) : Prog Op Ans α → σ → α × σ
  | ret a, s => (a, s)
  | call o k, s => eval f (k (f o s).1) (f o s).2

@[simp] theorem eval_ret
    (f : (op : Op) → σ → Ans op × σ)
    (a : α)
    (s : σ) :
    eval f (ret a) s = (a, s) := by
  rfl

@[simp] theorem eval_call
    (f : (op : Op) → σ → Ans op × σ)
    (o : Op)
    (k : Ans o → Prog Op Ans α)
    (s : σ) :
    eval f (call o k) s = eval f (k (f o s).1) (f o s).2 := by
  rfl

theorem eval_bind
    (f : (op : Op) → σ → Ans op × σ)
    (p : Prog Op Ans α)
    (g : α → Prog Op Ans β)
    (s : σ) :
    eval f (p >>= g) s = eval f (g (eval f p s).1) (eval f p s).2 := by
  induction p generalizing s with
  | ret a => rfl
  | call o k ih => exact ih _ _

/-- A program that runs alone returns a value and leaves a memory. -/
def Returns (sem : Sem Op Ans σ) : Prog Op Ans α → σ → α → σ → Prop
  | ret a, s, b, t => b = a ∧ t = s
  | call o k, s, b, t => ∃ r u, sem o s r u ∧ Returns sem (k r) u b t

theorem returns_pure_iff
    {b : α} :
    Returns sem (pure a) s b t ↔ b = a ∧ t = s := by
  rfl

@[simp] theorem returns_ret_iff
    {a b : α} {s t : σ} :
    Returns sem (ret a) s b t ↔ b = a ∧ t = s := by
  rfl

theorem returns_call_iff
    {k : Ans o → Prog Op Ans α} {b : α} :
    Returns sem (call o k) s b t ↔ ∃ r u, sem o s r u ∧ Returns sem (k r) u b t := by
  rfl

theorem returns_op_iff
    {r : Ans o} :
    Returns sem (op o) s r t ↔ sem o s r t := by
  constructor
  · intro h
    obtain ⟨r', u, hsem, rfl, rfl⟩ := h
    exact hsem
  · intro h
    exact ⟨r, t, h, rfl, rfl⟩

theorem returns_op_bind_iff
    {f : Ans o → Prog Op Ans β} {b : β} :
    Returns sem (op o >>= f) s b t ↔ ∃ r u, sem o s r u ∧ Returns sem (f r) u b t := by
  rfl

theorem returns_bind_iff
    {f : α → Prog Op Ans β} {b : β} :
    Returns sem (p >>= f) s b t
      ↔
    ∃ a u, Returns sem p s a u ∧ Returns sem (f a) u b t := by
  induction p generalizing s with
  | ret a =>
      constructor
      · intro h
        exact ⟨a, s, ⟨rfl, rfl⟩, h⟩
      · intro h
        obtain ⟨a', u, ⟨rfl, rfl⟩, h⟩ := h
        exact h
  | call o k ih =>
      rw [call_bind, returns_call_iff]
      constructor
      · intro h
        obtain ⟨r, v, hsem, hrest⟩ := h
        obtain ⟨a, u, hp, hf⟩ := (ih r).mp hrest
        exact ⟨a, u, ⟨r, v, hsem, hp⟩, hf⟩
      · intro h
        obtain ⟨a, u, ⟨r, v, hsem, hp⟩, hf⟩ := h
        exact ⟨r, v, hsem, (ih r).mpr ⟨a, u, hp, hf⟩⟩

theorem returns_iff_path :
    Returns sem p s a t ↔ ∃ l, Path p l (ret a) ∧ Exec sem s l t := by
  induction p generalizing s with
  | ret b =>
      constructor
      · intro h
        obtain ⟨rfl, rfl⟩ := h
        exact ⟨[], Path.nil _, Exec.nil _⟩
      · intro h
        obtain ⟨l, hpath, hexec⟩ := h
        obtain ⟨rfl, hret⟩ := path_ret_iff.mp hpath
        cases hret
        exact ⟨rfl, exec_nil_iff.mp hexec⟩
  | call o k ih =>
      rw [returns_call_iff]
      constructor
      · intro h
        obtain ⟨r, u, hsem, hrest⟩ := h
        obtain ⟨l, hpath, hexec⟩ := (ih r).mp hrest
        exact ⟨⟨o, r⟩ :: l, Path.cons hpath, Exec.cons hsem hexec⟩
      · intro h
        obtain ⟨l, hpath, hexec⟩ := h
        obtain ⟨r, l', rfl, hrest⟩ := path_call_ret_iff.mp hpath
        obtain ⟨u, hsem, htail⟩ := exec_cons_iff.mp hexec
        exact ⟨r, u, hsem, (ih r).mpr ⟨l', hrest, htail⟩⟩

/-- A program with one outcome is executed. -/
theorem returns_bind_of_iff
    {f : α → Prog Op Ans β} {b : β}
    (h : ∀ r v, Returns sem p s r v ↔ r = a ∧ v = u) :
    Returns sem (p >>= f) s b t ↔ Returns sem (f a) u b t := by
  rw [returns_bind_iff]
  constructor
  · intro hreturns
    obtain ⟨r, v, hp, hrest⟩ := hreturns
    obtain ⟨rfl, rfl⟩ := (h r v).mp hp
    exact hrest
  · intro hrest
    exact ⟨a, u, (h a u).mpr ⟨rfl, rfl⟩, hrest⟩

theorem exists_returns
    (htotal : ∀ o s, ∃ r t, sem o s r t)
    (p : Prog Op Ans α)
    (s : σ) :
    ∃ a t, Returns sem p s a t := by
  induction p generalizing s with
  | ret a => exact ⟨a, s, rfl, rfl⟩
  | call o k ih =>
      obtain ⟨r, u, hsem⟩ := htotal o s
      obtain ⟨a, t, hrest⟩ := ih r u
      exact ⟨a, t, r, u, hsem, hrest⟩

/-- A program returns as it does on a memory that allows more. -/
theorem Returns.mono
    {sem' : Sem Op Ans σ}
    (h : Returns sem p s a t)
    (hsem : ∀ o s r t, sem o s r t → sem' o s r t) :
    Returns sem' p s a t := by
  induction p generalizing s with
  | ret b => exact h
  | call o k ih =>
      obtain ⟨r, u, hcall, hrest⟩ := h
      exact ⟨r, u, hsem o s r u hcall, ih r hrest⟩

/-- Frame rule: what the operations of a program keep, the program keeps. -/
theorem Returns.frame
    {P : Op → Prop} {I : σ → Prop}
    (h : Returns sem p s a t)
    (hp : p.Forall P)
    (hsem : ∀ o u r v, P o → sem o u r v → I u → I v)
    (hs : I s) :
    I t := by
  induction p generalizing s with
  | ret b =>
      obtain ⟨-, rfl⟩ := returns_pure_iff.mp h
      exact hs
  | call o k ih =>
      obtain ⟨r, u, hcall, hrest⟩ := returns_call_iff.mp h
      exact ih r hrest (hp.2 r) (hsem o s r u hp.1 hcall hs)

/-- Invariant rule for a loop over a list. -/
theorem Returns.forM_invariant
    {body : β → Prog Op Ans PUnit} {xs : List β} {a : PUnit}
    {I : List β → σ → Prop}
    (h : Returns sem (xs.forM body) s a t)
    (hinit : I [] s)
    (hstep : ∀ done x u v, I done u → Returns sem (body x) u ⟨⟩ v → I (done ++ [x]) v) :
    I xs t := by
  have hrest : ∀ (done : List β) (u : σ), I done u → Returns sem (xs.forM body) u a t →
      I (done ++ xs) t := by
    clear h hinit
    induction xs with
    | nil =>
        intro done u hdone hreturns
        obtain ⟨-, rfl⟩ := hreturns
        rw [List.append_nil]
        exact hdone
    | cons x xs ih =>
        intro done u hdone hreturns
        obtain ⟨⟨⟩, v, hbody, hreturns⟩ := returns_bind_iff.mp hreturns
        have hall := ih (done ++ [x]) v (hstep done x u v hdone hbody) hreturns
        rwa [List.append_assoc] at hall
  exact hrest [] s hinit h

-- a program is run by the rules above, not by unfolding it
attribute [irreducible] Returns

end Execution

section Pool

variable {ι Op : Type} {Ans : Op → Type} {α : ι → Type} {σ : Type}
variable [DecidableEq ι]

/-- One step of a pool: the thread, the operation and the answer. -/
structure Event (ι Op : Type) (Ans : Op → Type) where
  thread : ι
  op : Op
  ans : Ans op

/-- The call made by an event. -/
def Event.call (e : Event ι Op Ans) : Call Op Ans :=
  ⟨e.op, e.ans⟩

/-- The thread and the operation of an event, without the answer. -/
def Event.label (e : Event ι Op Ans) : ι × Op :=
  (e.thread, e.op)

/-- A pool of programs over one shared memory.  Thread `i` returns a value of
type `α i`. -/
structure Config
    (ι Op : Type) (Ans : Op → Type) (α : ι → Type) (σ : Type) where
  progs : (i : ι) → Prog Op Ans (α i)
  state : σ

/-- One thread of the pool executes its next operation. -/
inductive Step
    (sem : Sem Op Ans σ) :
    Config ι Op Ans α σ → Event ι Op Ans → Config ι Op Ans α σ → Prop
  | thread
      {c : Config ι Op Ans α σ} {i : ι} {o : Op}
      {k : Ans o → Prog Op Ans (α i)} {r : Ans o} {t : σ}
      (hprog : c.progs i = Prog.call o k)
      (hsem : sem o c.state r t) :
      Step sem c ⟨i, o, r⟩ ⟨Function.update c.progs i (k r), t⟩

/-- Runs of the pool whose every step meets the guard `G` in the configuration
before it. -/
inductive Run
    (sem : Sem Op Ans σ)
    (G : Config ι Op Ans α σ → Event ι Op Ans → Prop) :
    Config ι Op Ans α σ → List (Event ι Op Ans) →
      Config ι Op Ans α σ → Prop
  | nil (c : Config ι Op Ans α σ) : Run sem G c [] c
  | snoc
      {c d d' : Config ι Op Ans α σ}
      {tr : List (Event ι Op Ans)} {e : Event ι Op Ans}
      (front : Run sem G c tr d)
      (guard : G d e)
      (last : Step sem d e d') :
      Run sem G c (tr ++ [e]) d'

/-- The guard that every step meets. -/
def anyStep : Config ι Op Ans α σ → Event ι Op Ans → Prop :=
  fun _ _ => True

variable {sem : Sem Op Ans σ}
variable {G : Config ι Op Ans α σ → Event ι Op Ans → Prop} {c d : Config ι Op Ans α σ}
variable {tr a b : List (Event ι Op Ans)} {e : Event ι Op Ans} {i : ι} {o : Op} {r : Ans o}

/-- Invariant rule: what holds at the start and is kept by every step, together
with the history, holds at the end of every run. -/
theorem Run.invariant
    {I : List (Event ι Op Ans) → Config ι Op Ans α σ → Prop}
    (h : Run sem G c tr d)
    (hinit : I [] c)
    (hstep : ∀ tr d e d', I tr d → G d e → Step sem d e d' →
      I (tr ++ [e]) d') :
    I tr d := by
  induction h with
  | nil => exact hinit
  | snoc _ guard last ih => exact hstep _ _ _ _ ih guard last

theorem Run.before
    {before : List (Event ι Op Ans)}
    (h : Run sem G c tr d)
    (hbefore : before <+: tr) :
    ∃ d', Run sem G c before d' := by
  induction h with
  | nil =>
      rw [List.prefix_nil.mp hbefore]
      exact ⟨c, Run.nil c⟩
  | snoc front guard last ih =>
      rcases List.prefix_concat_iff.mp hbefore with rfl | hfront
      · exact ⟨_, Run.snoc front guard last⟩
      · exact ih hfront

theorem Run.of_snoc
    {d' : Config ι Op Ans α σ}
    (h : Run sem G c (tr ++ [e]) d') :
    ∃ d, Run sem G c tr d ∧ G d e ∧ Step sem d e d' := by
  generalize htr : tr ++ [e] = tr' at h
  cases h with
  | nil => simp at htr
  | @snoc d _ tr'' e' front guard last =>
      obtain ⟨rfl, he⟩ := List.append_inj' htr rfl
      cases he
      exact ⟨d, front, guard, last⟩

theorem Run.eq_of_nil
    (h : Run sem G c [] d) :
    d = c := by
  generalize htr : ([] : List (Event ι Op Ans)) = tr at h
  cases h with
  | nil => rfl
  | snoc => simp at htr

/-- A run can be extended at its beginning. -/
theorem Run.cons
    {c' : Config ι Op Ans α σ}
    (guard : G c e)
    (head : Step sem c e c')
    (tail : Run sem G c' tr d) :
    Run sem G c (e :: tr) d := by
  induction tail with
  | nil =>
      exact Run.snoc (Run.nil c) guard head
  | snoc _ guard' last ih =>
      rw [← List.cons_append]
      exact Run.snoc ih guard' last

/-- A thread issues an operation, and the run goes on from there. -/
theorem Run.next
    {i : ι} {o : Op} {k : Ans o → Prog Op Ans (α i)} {r : Ans o} {t : σ}
    (hprog : c.progs i = Prog.call o k)
    (hsem : sem o c.state r t)
    (tail : Run sem anyStep ⟨Function.update c.progs i (k r), t⟩ tr d) :
    Run sem anyStep c (⟨i, o, r⟩ :: tr) d :=
  Run.cons trivial (Step.thread hprog hsem) tail

/-- The calls of one thread in a trace. -/
def callsOf (i : ι) (tr : List (Event ι Op Ans)) : List (Call Op Ans) :=
  (tr.filter fun e => e.thread = i).map Event.call

@[simp] theorem callsOf_nil
    (i : ι) :
    callsOf i ([] : List (Event ι Op Ans)) = [] := by
  rfl

theorem callsOf_append
    (i : ι)
    (tr tr' : List (Event ι Op Ans)) :
    callsOf i (tr ++ tr') = callsOf i tr ++ callsOf i tr' := by
  simp [callsOf]

theorem callsOf_singleton
    (i : ι)
    (e : Event ι Op Ans) :
    callsOf i [e] = if e.thread = i then [e.call] else [] := by
  by_cases h : e.thread = i <;> simp [callsOf, h]

theorem callsOf_cons
    (i : ι)
    (e : Event ι Op Ans)
    (tr : List (Event ι Op Ans)) :
    callsOf i (e :: tr) = (if e.thread = i then [e.call] else []) ++ callsOf i tr := by
  rw [← List.singleton_append, callsOf_append, callsOf_singleton]

theorem callsOf_cons_self
    (i : ι)
    (o : Op)
    (r : Ans o)
    (tr : List (Event ι Op Ans)) :
    callsOf i (⟨i, o, r⟩ :: tr) = ⟨o, r⟩ :: callsOf i tr := by
  rw [callsOf_cons, if_pos rfl]
  rfl

theorem callsOf_append_cons_ne
    {j : ι}
    (a b : List (Event ι Op Ans))
    (h : j ≠ i) :
    callsOf i (a ++ ⟨j, o, r⟩ :: b) = callsOf i a ++ callsOf i b := by
  rw [callsOf_append, callsOf_cons, if_neg h, List.nil_append]

/-- The calls of a segment that one thread ran alone. -/
theorem callsOf_map
    (i j : ι)
    (l : List (Call Op Ans)) :
    callsOf i (l.map fun x => (⟨j, x.1, x.2⟩ : Event ι Op Ans)) = if j = i then l else [] := by
  induction l with
  | nil => simp [callsOf]
  | cons x l ih =>
      rw [List.map_cons, callsOf_cons, ih]
      by_cases h : j = i
      · simp [h, Event.call]
      · simp [h]

omit [DecidableEq ι] in
theorem calls_map
    (i : ι)
    (l : List (Call Op Ans)) :
    (l.map fun x => (⟨i, x.1, x.2⟩ : Event ι Op Ans)).map Event.call = l := by
  simp [Function.comp_def, Event.call]

theorem call_mem_callsOf
    (h : e ∈ tr) :
    e.call ∈ callsOf e.thread tr := by
  unfold callsOf
  exact List.mem_map_of_mem (List.mem_filter.mpr ⟨h, by simp⟩)

theorem mem_of_mem_callsOf
    (h : ⟨o, r⟩ ∈ callsOf i tr) :
    ⟨i, o, r⟩ ∈ tr := by
  unfold callsOf at h
  obtain ⟨e, he, hcall⟩ := List.mem_map.mp h
  obtain ⟨hmem, hthread⟩ := List.mem_filter.mp he
  obtain ⟨j, o', r'⟩ := e
  obtain ⟨rfl, hr⟩ := Sigma.mk.inj hcall
  cases hr
  cases of_decide_eq_true hthread
  exact hmem

omit [DecidableEq ι] in
/-- What never happens twice happens at most once. -/
theorem countP_calls_le_one
    {P : Call Op Ans → Bool}
    (h : ∀ a m b e e', tr = a ++ e :: (m ++ e' :: b) → P e.call = true →
      P e'.call = true → False) :
    (tr.map Event.call).countP P ≤ 1 := by
  induction tr with
  | nil => simp
  | cons e tr ih =>
      rw [List.map_cons, List.countP_cons]
      by_cases he : P e.call = true
      · have hrest : (tr.map Event.call).countP P = 0 := by
          rw [List.countP_eq_zero]
          intro c hc hP
          obtain ⟨e', he', rfl⟩ := List.mem_map.mp hc
          obtain ⟨m, b, rfl⟩ := List.append_of_mem he'
          exact h [] m b e e' rfl he hP
        rw [hrest, if_pos he]
      · rw [if_neg he]
        refine ih ?_
        intro a m b e₁ e₂ htr
        exact h (e :: a) m b e₁ e₂ (by rw [htr, List.cons_append])

/-- The calls of a trace are counted thread by thread. -/
theorem countP_calls
    [Fintype ι]
    (P : Call Op Ans → Bool)
    (tr : List (Event ι Op Ans)) :
    (tr.map Event.call).countP P = ∑ i, (callsOf i tr).countP P := by
  induction tr with
  | nil => simp
  | cons e tr ih =>
      have hcons : ∀ i, (callsOf i (e :: tr)).countP P =
          (if e.thread = i then [e.call].countP P else 0) + (callsOf i tr).countP P := by
        intro i
        rw [callsOf_cons, List.countP_append]
        split <;> simp
      simp only [hcons, Finset.sum_add_distrib, Finset.sum_ite_eq, Finset.mem_univ, if_true]
      rw [← ih, ← List.singleton_append, List.map_append, List.countP_append]
      rfl

theorem countP_calls_le
    [Fintype ι]
    {P Q : Call Op Ans → Bool}
    (h : ∀ i, (callsOf i tr).countP P ≤ (callsOf i tr).countP Q) :
    (tr.map Event.call).countP P ≤ (tr.map Event.call).countP Q := by
  rw [countP_calls, countP_calls]
  exact Finset.sum_le_sum fun i _ => h i

variable (h : Run sem G c tr d)
include h

theorem Run.path
    (i : ι) :
    Path (c.progs i) (callsOf i tr) (d.progs i) := by
  induction h with
  | nil =>
      exact Path.nil _
  | @snoc d d' tr e _ _ last ih =>
      cases last with
      | @thread j o k r t hprog hsem =>
          rw [callsOf_append, callsOf_singleton]
          by_cases hj : j = i
          · subst hj
            rw [if_pos rfl]
            refine ih.append ?_
            rw [hprog]
            simp only [Function.update_self]
            exact Path.cons (Path.nil _)
          · rw [if_neg hj, List.append_nil]
            simpa [Function.update_of_ne (Ne.symm hj)] using ih

omit h in
/-- A run that makes the calls of two traces passes through a configuration between them. -/
theorem Run.split
    {tr' : List (Event ι Op Ans)}
    (h : Run sem G c (tr ++ tr') d) :
    ∃ m, Run sem G c tr m ∧ Run sem G m tr' d := by
  induction tr' using List.reverseRecOn generalizing d with
  | nil =>
      rw [List.append_nil] at h
      exact ⟨d, h, Run.nil d⟩
  | append_singleton tr' e ih =>
      rw [← List.append_assoc] at h
      obtain ⟨d', front, guard, last⟩ := h.of_snoc
      obtain ⟨m, hleft, hright⟩ := ih front
      exact ⟨m, hleft, Run.snoc hright guard last⟩

omit h in
theorem Run.of_cons
    (h : Run sem G c (e :: tr) d) :
    ∃ m, G c e ∧ Step sem c e m ∧ Run sem G m tr d := by
  rw [← List.singleton_append, ← List.nil_append [e]] at h
  obtain ⟨m, hfirst, hrest⟩ := h.split
  obtain ⟨c', hempty, guard, hstep⟩ := hfirst.of_snoc
  rw [hempty.eq_of_nil] at guard hstep
  exact ⟨m, guard, hstep, hrest⟩

/-- The guard of a run may be replaced by one that its steps meet. -/
theorem Run.guarded
    {G' : Config ι Op Ans α σ → Event ι Op Ans → Prop}
    (hguard : ∀ a e b m, tr = a ++ e :: b → Run sem G c a m → G' m e) :
    Run sem G' c tr d := by
  induction h with
  | nil => exact Run.nil c
  | @snoc m m' tr e front _ last ih =>
      refine Run.snoc (ih ?_) (hguard tr e [] m rfl front) last
      intro a e' b m htr hrun
      exact hguard a e' (b ++ [e]) m (by rw [htr]; simp) hrun

/-- The promises of the programs hold at every point of a run. -/
theorem Run.along
    {J : List (Call Op Ans) → Op → Prop} {Q : List (Call Op Ans) → α i → Prop}
    (hprog : (c.progs i).Along J Q []) :
    (d.progs i).Along J Q (callsOf i tr) := by
  have hrest := hprog.rest (h.path i)
  rwa [List.nil_append] at hrest

/-- Invariant rule for the memory of a guarded run: every step may use its guard and what
the program of its thread promises about the operation. -/
theorem Run.guarded_invariant
    {J : ι → List (Call Op Ans) → Op → Prop}
    {Q : (i : ι) → List (Call Op Ans) → α i → Prop}
    {I : List (Event ι Op Ans) → σ → Prop}
    (hprog : ∀ i, (c.progs i).Along (J i) (Q i) [])
    (hinit : I [] c.state)
    (hstep : ∀ tr d i o r t, I tr d.state → G d ⟨i, o, r⟩ → J i (callsOf i tr) o →
      sem o d.state r t → I (tr ++ [⟨i, o, r⟩]) t) :
    I tr d.state := by
  induction h with
  | nil => exact hinit
  | snoc front guard last ih =>
      cases last with
      | @thread i o k r t hnext hsem =>
          have halong := front.along (hprog i)
          rw [hnext] at halong
          exact hstep _ _ _ _ _ _ ih guard halong.1 hsem

/-- Invariant rule for the memory: every step may use what the program of its thread
promises about the operation. -/
theorem Run.memory_invariant
    {J : ι → List (Call Op Ans) → Op → Prop}
    {Q : (i : ι) → List (Call Op Ans) → α i → Prop}
    {I : List (Event ι Op Ans) → σ → Prop}
    (hprog : ∀ i, (c.progs i).Along (J i) (Q i) [])
    (hinit : I [] c.state)
    (hstep : ∀ tr s i o r t, I tr s → J i (callsOf i tr) o → sem o s r t →
      I (tr ++ [⟨i, o, r⟩]) t) :
    I tr d.state := by
  refine h.guarded_invariant hprog hinit ?_
  intro tr d i o r t hI _ hJ hsem
  exact hstep tr d.state i o r t hI hJ hsem

/-- The memory of a run executes the calls of its trace. -/
theorem Run.exec :
    Exec sem c.state (tr.map Event.call) d.state := by
  induction h with
  | nil =>
      exact Exec.nil _
  | @snoc d d' tr e _ _ last ih =>
      rw [List.map_append, exec_append_iff]
      refine ⟨d.state, ih, ?_⟩
      cases last with
      | thread hprog hsem => exact Exec.cons hsem (Exec.nil _)

theorem Run.trans
    {d' : Config ι Op Ans α σ} {tr' : List (Event ι Op Ans)}
    (h' : Run sem G d tr' d') :
    Run sem G c (tr ++ tr') d' := by
  induction h' with
  | nil =>
      rw [List.append_nil]
      exact h
  | snoc _ guard last ih =>
      rw [← List.append_assoc]
      exact Run.snoc ih guard last

omit h

/-- A run passes through a memory with the property. -/
def Passes
    (sem : Sem Op Ans σ)
    (c : Config ι Op Ans α σ)
    (tr : List (Event ι Op Ans))
    (d : Config ι Op Ans α σ)
    (P : σ → Prop) : Prop :=
  ∃ a b m, tr = a ++ b ∧ Run sem anyStep c a m ∧ Run sem anyStep m b d ∧ P m.state

theorem Passes.mono
    {P Q : σ → Prop}
    (h : Passes sem c tr d P)
    (hPQ : ∀ s, P s → Q s) :
    Passes sem c tr d Q := by
  obtain ⟨a, b, m, htr, hleft, hright, hP⟩ := h
  exact ⟨a, b, m, htr, hleft, hright, hPQ _ hP⟩

/-- A call is answered by a memory through which the run passes. -/
theorem Run.passes
    (h : Run sem anyStep c tr d)
    (he : ⟨i, o, r⟩ ∈ tr) :
    Passes sem c tr d fun s => ∃ t, sem o s r t := by
  obtain ⟨a, b, rfl⟩ := List.append_of_mem he
  obtain ⟨m, hleft, hright⟩ := h.split
  refine ⟨a, ⟨i, o, r⟩ :: b, m, rfl, hleft, hright, ?_⟩
  obtain ⟨m', -, hstep, -⟩ := hright.of_cons
  cases hstep with
  | @thread _ _ _ _ t hprog hsem => exact ⟨t, hsem⟩

theorem run_of_path
    {l : List (Call Op Ans)}
    {q : Prog Op Ans (α i)} {t : σ}
    (hpath : Path (c.progs i) l q)
    (hexec : Exec sem c.state l t)
    (hguard : ∀ p m o r, G ⟨Function.update c.progs i p, m⟩ ⟨i, o, r⟩) :
    Run sem G c (l.map fun x => ⟨i, x.1, x.2⟩) ⟨Function.update c.progs i q, t⟩ := by
  induction l generalizing c with
  | nil =>
      cases hexec
      generalize hp : c.progs i = p at hpath
      cases hpath
      rw [← hp, Function.update_eq_self]
      exact Run.nil c
  | cons x l ih =>
      generalize hp : c.progs i = p at hpath
      cases hpath with
      | @cons o k r _ _ tail =>
          obtain ⟨t', hhead, htail⟩ := exec_cons_iff.mp hexec
          have hfirst : G c ⟨i, o, r⟩ := by
            have hstart := hguard (c.progs i) c.state o r
            rwa [Function.update_eq_self] at hstart
          refine Run.cons hfirst (Step.thread hp hhead) ?_
          have hrest := ih (c := ⟨Function.update c.progs i (k r), t'⟩)
            (by simpa using tail) htail
            (by
              intro p m o r
              simpa using hguard p m o r)
          simpa using hrest

/-- A shuffle of paths that the memory can execute is a run. -/
theorem run_of_paths
    {q : (i : ι) → Prog Op Ans (α i)} {t : σ}
    (hpath : ∀ i, Path (c.progs i) (callsOf i tr) (q i))
    (hexec : Exec sem c.state (tr.map Event.call) t) :
    Run sem anyStep c tr ⟨q, t⟩ := by
  induction tr generalizing c with
  | nil =>
      cases hexec
      have hq : q = c.progs := by
        funext i
        exact path_nil_iff.mp (hpath i)
      rw [hq]
      exact Run.nil c
  | cons e tr ih =>
      obtain ⟨i, o, r⟩ := e
      obtain ⟨t', hhead, htail⟩ := exec_cons_iff.mp hexec
      have hi := hpath i
      rw [callsOf_cons_self] at hi
      generalize hp : c.progs i = p at hi
      cases hi with
      | @cons _ k _ _ _ tail =>
          refine Run.cons trivial (Step.thread hp hhead) (ih ?_ htail)
          intro j
          by_cases hj : j = i
          · subst hj
            simpa using tail
          · have hother := hpath j
            rw [callsOf_cons, if_neg (Ne.symm hj)] at hother
            simpa [Function.update_of_ne hj] using hother

/-- In the trace, some step labelled `x` comes before some step labelled `y`. -/
def Precedes
    (tr : List (Event ι Op Ans))
    (x y : ι × Op) : Prop :=
  [x, y].Sublist (tr.map Event.label)

omit [DecidableEq ι] in
theorem precedes_iff
    {x y : ι × Op} :
    Precedes tr x y
      ↔
    ∃ a b, tr = a ++ b ∧ x ∈ a.map Event.label ∧ y ∈ b.map Event.label := by
  unfold Precedes
  rw [List.cons_sublist_iff]
  constructor
  · rintro ⟨r₁, r₂, hsplit, hx, hy⟩
    obtain ⟨a, b, rfl, rfl, rfl⟩ := List.map_eq_append_iff.mp hsplit
    exact ⟨a, b, rfl, hx, List.singleton_sublist.mp hy⟩
  · rintro ⟨a, b, rfl, hx, hy⟩
    exact ⟨a.map Event.label, b.map Event.label, List.map_append, hx,
      List.singleton_sublist.mpr hy⟩

theorem label_mem_iff :
    (i, o) ∈ tr.map Event.label ↔ o ∈ (callsOf i tr).map Sigma.fst := by
  unfold callsOf
  rw [List.map_map, List.mem_map, List.mem_map]
  constructor
  · rintro ⟨e, he, hlabel⟩
    obtain ⟨hi, ho⟩ := Prod.mk.inj hlabel
    exact ⟨e, List.mem_filter.mpr ⟨he, by simp [hi]⟩, ho⟩
  · rintro ⟨e, he, ho⟩
    obtain ⟨he, hi⟩ := List.mem_filter.mp he
    exact ⟨e, he, Prod.ext (of_decide_eq_true hi) ho⟩

theorem op_mem_iff :
    o ∈ (tr.map Event.call).map Sigma.fst
      ↔
    ∃ i, o ∈ (callsOf i tr).map Sigma.fst := by
  simp only [← label_mem_iff]
  rw [List.map_map, List.mem_map]
  constructor
  · rintro ⟨e, he, ho⟩
    exact ⟨e.thread, List.mem_map.mpr ⟨e, he, Prod.ext rfl ho⟩⟩
  · rintro ⟨i, hi⟩
    obtain ⟨e, he, hlabel⟩ := List.mem_map.mp hi
    exact ⟨e, he, (Prod.mk.inj hlabel).2⟩

omit [DecidableEq ι] in
/-- An element of a list that grew at its end is the new one or was there before. -/
theorem concat_eq_append_cons
    {β : Type} {l a b : List β} {x y : β}
    (h : l ++ [x] = a ++ y :: b) :
    (l = a ∧ x = y ∧ b = []) ∨ ∃ b', b = b' ++ [x] ∧ l = a ++ y :: b' := by
  rcases List.eq_nil_or_concat b with rfl | ⟨b', z, rfl⟩
  · obtain ⟨hl, hx⟩ := List.append_inj' h rfl
    exact Or.inl ⟨hl, (List.cons.inj hx).1, rfl⟩
  · rw [List.concat_eq_append, ← List.cons_append, ← List.append_assoc] at h
    obtain ⟨hl, hx⟩ := List.append_inj' h rfl
    rw [(List.cons.inj hx).1]
    exact Or.inr ⟨b', by simp, hl⟩

/-- Every call of a thread splits the trace. -/
theorem callsOf_eq_append_cons
    {l m : List (Call Op Ans)}
    (h : callsOf i tr = l ++ ⟨o, r⟩ :: m) :
    ∃ a b, tr = a ++ ⟨i, o, r⟩ :: b ∧ callsOf i a = l ∧ callsOf i b = m := by
  unfold callsOf at h
  obtain ⟨l', rest, hfilter, hl, hrest⟩ := List.map_eq_append_iff.mp h
  obtain ⟨e, m', rfl, hcall, hm⟩ := List.map_eq_cons_iff.mp hrest
  obtain ⟨a, b', rfl, ha, hb'⟩ := List.filter_eq_append_iff.mp hfilter
  obtain ⟨b₁, b₂, rfl, hb₁, he, hb₂⟩ := List.filter_eq_cons_iff.mp hb'
  have hthread : e.thread = i := by
    simpa using he
  refine ⟨a ++ b₁, b₂, ?_, ?_, ?_⟩
  · have hev : e = ⟨i, o, r⟩ := by
      obtain ⟨j, o', r'⟩ := e
      obtain ⟨rfl, hr⟩ := Sigma.mk.inj hcall
      cases hthread
      cases hr
      rfl
    rw [hev, List.append_assoc]
  · have hb₁' : b₁.filter (fun e => decide (e.thread = i)) = [] := by
      rw [List.filter_eq_nil_iff]
      exact hb₁
    unfold callsOf
    rw [List.filter_append, hb₁', ha, List.append_nil, hl]
  · unfold callsOf
    rw [hb₂, hm]

/-- What precedes the last call of its kind is what stands before it. -/
theorem precedes_middle_iff
    {x : ι × Op}
    (hb : o ∉ (callsOf i b).map Sigma.fst) :
    Precedes (a ++ ⟨i, o, r⟩ :: b) x (i, o) ↔ x ∈ a.map Event.label := by
  rw [precedes_iff]
  constructor
  · rintro ⟨l, m, hsplit, hxl, hym⟩
    rcases List.append_eq_append_iff.mp hsplit with ⟨c, rfl, hc⟩ | ⟨c, rfl, hc⟩
    · cases c with
      | nil =>
          simpa using hxl
      | cons f c =>
          have hb' : b = c ++ m := (List.cons_eq_cons.mp hc).2
          rw [← label_mem_iff, hb', List.map_append, List.mem_append] at hb
          exact absurd (Or.inr hym) hb
    · rw [List.map_append, List.mem_append]
      exact Or.inl hxl
  · intro hxa
    exact ⟨a, ⟨i, o, r⟩ :: b, rfl, hxa, by simp [Event.label]⟩

/-- The memory before and after one event of a run. -/
theorem Run.split_at
    (h : Run sem G c (a ++ ⟨i, o, r⟩ :: b) d) :
    ∃ u v, Exec sem c.state (a.map Event.call) u ∧ sem o u r v ∧
      Exec sem v (b.map Event.call) d.state := by
  have hexec := h.exec
  rw [List.map_append, exec_append_iff] at hexec
  obtain ⟨u, hpre, hpost⟩ := hexec
  obtain ⟨v, hhead, htail⟩ := exec_cons_iff.mp hpost
  exact ⟨u, v, hpre, hhead, htail⟩

/-- What follows the only call of its kind is what stands after it. -/
theorem precedes_from_iff
    {y : ι × Op}
    (ha : o ∉ (callsOf i a).map Sigma.fst) :
    Precedes (a ++ ⟨i, o, r⟩ :: b) (i, o) y ↔ y ∈ b.map Event.label := by
  rw [precedes_iff]
  constructor
  · rintro ⟨l, m, hsplit, hxl, hym⟩
    rcases List.append_eq_append_iff.mp hsplit with ⟨c, rfl, hc⟩ | ⟨c, rfl, hc⟩
    · cases c with
      | nil =>
          rw [List.append_nil] at hxl
          exact absurd (label_mem_iff.mp hxl) ha
      | cons f c =>
          have hb : b = c ++ m := (List.cons_eq_cons.mp hc).2
          rw [hb, List.map_append, List.mem_append]
          exact Or.inr hym
    · have hxa : (i, o) ∈ (l ++ c).map Event.label := by
        rw [List.map_append, List.mem_append]
        exact Or.inl hxl
      exact absurd (label_mem_iff.mp hxa) ha
  · intro hyb
    exact ⟨a ++ [⟨i, o, r⟩], b, by simp, by simp [Event.label], hyb⟩

section Cells

variable {V : Type} {w : Call Op Ans → Option V} {l : List (Call Op Ans)} {v : V}
variable {m : List (Call Op Ans)}

/-- The part `cell` of the memory changes only as `w` says: a call writes a value
to it or leaves it. -/
def Writes
    (sem : Sem Op Ans σ)
    (cell : σ → V)
    (w : Call Op Ans → Option V) : Prop :=
  ∀ o s r t, sem o s r t → cell t = (w ⟨o, r⟩).getD (cell s)

/-- The last value that a list of calls writes. -/
def lastWrite
    (w : Call Op Ans → Option V)
    (l : List (Call Op Ans)) : Option V :=
  (l.filterMap w).getLast?

omit [DecidableEq ι] in
theorem Exec.cell
    {cell : σ → V}
    (hw : Writes sem cell w)
    {s t : σ}
    (h : Exec sem s l t) :
    cell t = (lastWrite w l).getD (cell s) := by
  induction h with
  | nil s => rfl
  | @cons s t u o r l head _ ih =>
      rw [ih, hw o s r t head]
      unfold lastWrite
      cases ho : w ⟨o, r⟩ with
      | none => simp [ho]
      | some v =>
          cases hl : (l.filterMap w).getLast? with
          | none =>
              rw [List.getLast?_eq_none_iff] at hl
              simp [ho, hl]
          | some v' => simp [ho, List.getLast?_cons, hl]

omit [DecidableEq ι] in
theorem lastWrite_eq_some
    (h : lastWrite w l = some v) :
    ∃ c ∈ l, w c = some v := by
  exact List.mem_filterMap.mp (List.mem_of_getLast? h)

omit [DecidableEq ι] in
/-- What the first part of a list of calls writes is among what the list writes. -/
theorem mem_filterMap_of_part
    {whole : List (Call Op Ans)}
    (hwhole : l ++ m = whole)
    (hlast : lastWrite w l = some v) :
    v ∈ whole.filterMap w := by
  obtain ⟨c, hc, hv⟩ := lastWrite_eq_some hlast
  rw [← hwhole]
  exact List.mem_filterMap.mpr ⟨c, List.mem_append_left m hc, hv⟩

omit [DecidableEq ι] in
/-- The last value that is written, with the call that writes it. -/
theorem lastWrite_eq_some_iff :
    lastWrite w l = some v
      ↔
    ∃ before c after, l = before ++ c :: after ∧ w c = some v ∧ ∀ c' ∈ after, w c' = none := by
  constructor
  · intro h
    induction l using List.reverseRecOn with
    | nil => cases h
    | append_singleton l c ih =>
        cases hc : w c with
        | some v' =>
            have hlast : lastWrite w (l ++ [c]) = some v' := by
              simp [lastWrite, hc]
            rw [hlast] at h
            exact ⟨l, c, [], rfl, hc.trans h, by simp⟩
        | none =>
            have hlast : lastWrite w (l ++ [c]) = lastWrite w l := by
              simp [lastWrite, hc]
            rw [hlast] at h
            obtain ⟨before, c', after, rfl, hc', hafter⟩ := ih h
            refine ⟨before, c', after ++ [c], by simp, hc', ?_⟩
            intro x hx
            rcases List.mem_append.mp hx with hx | hx
            · exact hafter x hx
            · rw [List.mem_singleton.mp hx]
              exact hc
  · rintro ⟨before, c, after, rfl, hc, hafter⟩
    simp [lastWrite, hc, List.filterMap_eq_nil_iff.mpr hafter]

omit [DecidableEq ι] in
theorem lastWrite_eq_none_iff :
    lastWrite w l = none ↔ ∀ c ∈ l, w c = none := by
  unfold lastWrite
  rw [List.getLast?_eq_none_iff, List.filterMap_eq_nil_iff]

omit [DecidableEq ι] in
theorem lastWrite_concat
    {c : Call Op Ans}
    (h : w c = some v) :
    lastWrite w (l ++ [c]) = some v := by
  simp [lastWrite, h]

omit [DecidableEq ι] in
theorem lastWrite_append :
    lastWrite w (l ++ m) = (lastWrite w m).or (lastWrite w l) := by
  simp [lastWrite]

omit [DecidableEq ι] in
theorem lastWrite_cons
    {c : Call Op Ans} :
    lastWrite w (c :: l) = (lastWrite w l).or (w c) := by
  rw [← List.singleton_append, lastWrite_append]
  cases hc : w c with
  | none | some v => simp [lastWrite, hc]

omit [DecidableEq ι] in
theorem lastWrite_append_of_none
    (h : ∀ c ∈ m, w c = none) :
    lastWrite w (l ++ m) = lastWrite w l := by
  unfold lastWrite
  rw [List.filterMap_append, List.filterMap_eq_nil_iff.mpr h, List.append_nil]

/-- Where only one thread writes the cell, the writes are those of its calls. -/
theorem lastWrite_of_thread
    {i : ι} {tr : List (Event ι Op Ans)}
    (hothers : ∀ j, j ≠ i → ∀ c ∈ callsOf j tr, w c = none) :
    lastWrite w (tr.map Event.call) = lastWrite w (callsOf i tr) := by
  have hfilter : (tr.map Event.call).filterMap w =
      (callsOf i tr).filterMap w := by
    induction tr with
    | nil => rfl
    | cons e tr ih =>
        have hrest : ∀ j, j ≠ i → ∀ c ∈ callsOf j tr, w c = none := by
          intro j hj c hc
          refine hothers j hj c ?_
          rw [← List.singleton_append, callsOf_append, List.mem_append]
          exact Or.inr hc
        rw [← List.singleton_append, List.map_append, callsOf_append,
          List.filterMap_append, List.filterMap_append, ih hrest,
          callsOf_singleton]
        by_cases he : e.thread = i
        · rw [if_pos he]
          rfl
        · have hnone : w e.call = none := by
            refine hothers e.thread he e.call ?_
            rw [← List.singleton_append, callsOf_append, callsOf_singleton]
            simp
          rw [if_neg he]
          simp [hnone]
  unfold lastWrite
  rw [hfilter]

end Cells

end Pool

end Foundation
end OptimumGateway
