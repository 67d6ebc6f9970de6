import OptimumGateway.Foundation.AtomicProgram
import Mathlib.Logic.Relation

/-!
# Rely and guarantee

A thread of a pool can be verified on its own.  `Guaranteed` is the weakest
precondition of its program for a relation `rely`, which bounds what the other
threads do between two of its operations, a relation `guar` that each of its own
operations has to meet, and a postcondition.

If what each thread guarantees is what the others rely on, then in every run of
the pool every step meets the guarantee of its thread (`Run.guaranteed_step`).
-/

namespace OptimumGateway
namespace Foundation

open Prog Relation

section Threads

variable {Op : Type} {Ans : Op → Type} {α β σ : Type}

/-- Every operation of the program meets `guar`, after any interference in `rely`,
and its result is in `Q`. -/
def Guaranteed
    (sem : Sem Op Ans σ)
    (rely : σ → σ → Prop)
    (guar : (o : Op) → σ → Ans o → σ → Prop)
    (Q : α → σ → Prop) :
    Prog Op Ans α → σ → Prop
  | .ret a, s => Q a s
  | .call o k, s => ∀ t, ReflTransGen rely s t → ∀ r u, sem o t r u →
      guar o t r u ∧ Guaranteed sem rely guar Q (k r) u

/-- The assertion survives the interference. -/
def StableUnder (rely : σ → σ → Prop) (P : σ → Prop) : Prop :=
  ∀ s t, P s → rely s t → P t

variable {sem : Sem Op Ans σ} {rely : σ → σ → Prop}
variable {guar : (o : Op) → σ → Ans o → σ → Prop} {Q : α → σ → Prop} {s : σ} {p : Prog Op Ans α}

theorem StableUnder.reflTransGen
    {P : σ → Prop} {t : σ}
    (h : StableUnder rely P)
    (hs : P s)
    (hst : ReflTransGen rely s t) :
    P t := by
  induction hst with
  | refl => exact hs
  | tail _ hlast ih => exact h _ _ ih hlast

theorem guaranteed_ret_iff
    {a : α} :
    Guaranteed sem rely guar Q (.ret a) s ↔ Q a s := by
  rfl

theorem guaranteed_call_iff
    {o : Op} {k : Ans o → Prog Op Ans α} :
    Guaranteed sem rely guar Q (.call o k) s
      ↔
    ∀ t, ReflTransGen rely s t → ∀ r u, sem o t r u →
      guar o t r u ∧ Guaranteed sem rely guar Q (k r) u := by
  rfl

theorem Guaranteed.pure
    {a : α}
    (h : Q a s) :
    Guaranteed sem rely guar Q (pure a : Prog Op Ans α) s := by
  exact h

theorem Guaranteed.op
    (o : Op) {P : σ → Prop} {Q : Ans o → σ → Prop} {s : σ}
    (hstable : StableUnder rely P)
    (hs : P s)
    (hop : ∀ t r u, P t → sem o t r u → guar o t r u ∧ Q r u) :
    Guaranteed sem rely guar Q (Prog.op o) s := by
  intro t ht r u hsem
  exact hop t r u (hstable.reflTransGen hs ht) hsem

theorem Guaranteed.bind
    {R : β → σ → Prop}
    {f : α → Prog Op Ans β}
    (hp : Guaranteed sem rely guar Q p s)
    (hf : ∀ a t, Q a t → Guaranteed sem rely guar R (f a) t) :
    Guaranteed sem rely guar R (p >>= f) s := by
  induction p generalizing s with
  | ret a => exact hf a s hp
  | call o k ih =>
      rw [call_bind]
      intro t ht r u hsem
      obtain ⟨hguar, hrest⟩ := hp t ht r u hsem
      exact ⟨hguar, ih r hrest⟩

theorem Guaranteed.mono
    {R : α → σ → Prop}
    (h : Guaranteed sem rely guar Q p s)
    (hQR : ∀ a t, Q a t → R a t) :
    Guaranteed sem rely guar R p s := by
  induction p generalizing s with
  | ret a => exact hQR a s h
  | call o k ih =>
      intro t ht r u hsem
      obtain ⟨hguar, hrest⟩ := h t ht r u hsem
      exact ⟨hguar, ih r hrest⟩

theorem Guaranteed.forM
    {body : β → Prog Op Ans PUnit} {P : σ → Prop}
    (hbody : ∀ x t, P t → Guaranteed sem rely guar (fun _ => P) (body x) t)
    (hs : P s)
    (xs : List β) :
    Guaranteed sem rely guar (fun _ => P) (xs.forM body) s := by
  induction xs generalizing s with
  | nil => exact hs
  | cons x xs ih =>
      refine (hbody x s hs).bind ?_
      intro _ t ht
      exact ih ht

/-- A program stays guaranteed while the others interfere. -/
theorem Guaranteed.interfere
    {t : σ}
    (h : Guaranteed sem rely guar (fun _ _ => True) p s)
    (hst : rely s t) :
    Guaranteed sem rely guar (fun _ _ => True) p t := by
  cases p with
  | ret a => exact trivial
  | call o k =>
      intro u hu r v hsem
      exact h u (ReflTransGen.head hst hu) r v hsem

-- a program is walked through by the rules above, not by unfolding it
attribute [irreducible] Guaranteed

end Threads

section Pool

variable {ι Op : Type} {Ans : Op → Type} {α : ι → Type} {σ : Type}
variable [DecidableEq ι]
variable {sem guarded : Sem Op Ans σ}
variable {G : Config ι Op Ans α σ → Event ι Op Ans → Prop}
variable {rely : ι → σ → σ → Prop}
variable {guar : ι → (o : Op) → σ → Ans o → σ → Prop}
variable {c d d' : Config ι Op Ans α σ} {tr : List (Event ι Op Ans)}

/-- A step of one thread keeps every thread guaranteed. -/
theorem Step.guaranteed
    {e : Event ι Op Ans}
    (hstep : Step sem d e d')
    (hguard : ∀ t, sem e.op d.state e.ans t → guarded e.op d.state e.ans t)
    (hcompat : ∀ i j o s r t, i ≠ j → guar i o s r t → rely j s t)
    (hthreads : ∀ i, Guaranteed guarded (rely i) (guar i) (fun _ _ => True)
      (d.progs i) d.state) :
    guar e.thread e.op d.state e.ans d'.state ∧
      ∀ i, Guaranteed guarded (rely i) (guar i) (fun _ _ => True)
        (d'.progs i) d'.state := by
  cases hstep with
  | @thread j o k r t hprog hsem =>
      have hown := hthreads j
      rw [hprog] at hown
      obtain ⟨hguar, hrest⟩ :=
        guaranteed_call_iff.mp hown d.state ReflTransGen.refl r t (hguard t hsem)
      refine ⟨hguar, ?_⟩
      intro i
      by_cases hi : i = j
      · subst hi
        simpa using hrest
      · have hother := (hthreads i).interfere
          (hcompat j i o _ r _ (Ne.symm hi) hguar)
        simpa [Function.update_of_ne hi] using hother

theorem Run.guaranteed
    (hrun : Run sem G c tr d)
    (hguard : ∀ d e t, G d e → sem e.op d.state e.ans t →
      guarded e.op d.state e.ans t)
    (hcompat : ∀ i j o s r t, i ≠ j → guar i o s r t → rely j s t)
    (hinit : ∀ i, Guaranteed guarded (rely i) (guar i) (fun _ _ => True)
      (c.progs i) c.state) :
    ∀ i, Guaranteed guarded (rely i) (guar i) (fun _ _ => True)
      (d.progs i) d.state := by
  induction hrun with
  | nil => exact hinit
  | snoc _ guard last ih =>
      exact (last.guaranteed (fun t => hguard _ _ t guard) hcompat ih).2

/-- Every step of a run meets the guarantee of its thread. -/
theorem Run.guaranteed_step
    {e : Event ι Op Ans}
    (hrun : Run sem G c tr d)
    (hguard : ∀ d e t, G d e → sem e.op d.state e.ans t →
      guarded e.op d.state e.ans t)
    (hcompat : ∀ i j o s r t, i ≠ j → guar i o s r t → rely j s t)
    (hinit : ∀ i, Guaranteed guarded (rely i) (guar i) (fun _ _ => True)
      (c.progs i) c.state)
    (hnext : G d e)
    (hstep : Step sem d e d') :
    guar e.thread e.op d.state e.ans d'.state :=
  (hstep.guaranteed (fun t => hguard _ _ t hnext) hcompat
    (hrun.guaranteed hguard hcompat hinit)).1

end Pool

end Foundation
end OptimumGateway
