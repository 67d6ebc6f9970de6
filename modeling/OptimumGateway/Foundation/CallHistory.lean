import Mathlib.Data.List.Basic
import Mathlib.Data.List.Induction

/-!
# Histories of calls

A component that is used through calls has a step relation `step s k t`: the call `k`, made
in the state `s`, can leave the state `t`.  `Calls step s ks t` says that the calls `ks`, one
after another, lead from `s` to `t`.

`Calls.invariant_iff` is for components that keep an invariant only under a condition on
their calls.  If a call keeps the invariant `I` under the condition and breaks the part `J`
of it otherwise, then `J` holds throughout a history exactly when every call of the history
meets the condition.  `foldl_invariant_iff` is the rule for calls of a function.
-/

namespace OptimumGateway
namespace Foundation

variable {σ κ : Type} {step : σ → κ → σ → Prop} {s t u : σ} {k : κ} {ks ls : List κ}

def Calls (step : σ → κ → σ → Prop) : σ → List κ → σ → Prop
  | s, [], t => t = s
  | s, k :: ks, t => ∃ u, step s k u ∧ Calls step u ks t

theorem Calls.nil_iff :
    Calls step s [] t ↔ t = s := by
  rfl

theorem Calls.append_iff :
    Calls step s (ks ++ ls) t
      ↔
    ∃ u, Calls step s ks u ∧ Calls step u ls t := by
  induction ks generalizing s with
  | nil => simp [Calls]
  | cons k ks ih =>
      simp only [List.cons_append, Calls, ih]
      constructor
      · intro h
        obtain ⟨v, hstep, u, hks, hls⟩ := h
        exact ⟨u, ⟨v, hstep, hks⟩, hls⟩
      · intro h
        obtain ⟨u, ⟨v, hstep, hks⟩, hls⟩ := h
        exact ⟨v, hstep, u, hks, hls⟩

theorem Calls.snoc_iff :
    Calls step s (ks ++ [k]) t
      ↔
    ∃ u, Calls step s ks u ∧ step u k t := by
  rw [Calls.append_iff]
  simp [Calls]

theorem Calls.invariant
    {I : σ → Prop}
    (h : Calls step s ks t)
    (hinit : I s)
    (hstep : ∀ u k v, I u → step u k v → I v) :
    I t := by
  induction ks generalizing s with
  | nil =>
      obtain rfl := Calls.nil_iff.mp h
      exact hinit
  | cons k ks ih =>
      obtain ⟨u, hk, hks⟩ := h
      exact ih hks (hstep s k u hinit hk)

theorem Calls.exists
    (htotal : ∀ u k, ∃ v, step u k v)
    (s : σ)
    (ks : List κ) :
    ∃ t, Calls step s ks t := by
  induction ks generalizing s with
  | nil => exact ⟨s, rfl⟩
  | cons k ks ih =>
      obtain ⟨u, hk⟩ := htotal s k
      obtain ⟨t, hks⟩ := ih u
      exact ⟨t, u, hk, hks⟩

variable {I J : σ → Prop} {C : σ → κ → Prop}

/-- Calls that all meet a condition keep what each of them keeps under it. -/
theorem Calls.invariant_of
    (hinit : I s)
    (hkeep : ∀ u k v, I u → step u k v → C u k → I v)
    (hC : ∀ done k rest u, ks = done ++ k :: rest → Calls step s done u → C u k)
    {done rest : List κ}
    (hks : ks = done ++ rest)
    (hdone : Calls step s done u) :
    I u := by
  induction done using List.reverseRecOn generalizing rest u with
  | nil =>
      obtain rfl := Calls.nil_iff.mp hdone
      exact hinit
  | append_singleton done k ih =>
      obtain ⟨v, hdone, hk⟩ := Calls.snoc_iff.mp hdone
      have hsplit : ks = done ++ k :: rest := by
        simp [hks]
      exact hkeep v k u (ih hsplit hdone) hk (hC done k rest v hsplit hdone)

/-- If a call that does not meet the condition shows, then nothing shows throughout a
history exactly when all its calls meet the condition. -/
theorem Calls.invariant_iff
    (htotal : ∀ u k, ∃ v, step u k v)
    (hinit : I s)
    (hshown : ∀ u, I u → J u)
    (hkeep : ∀ u k v, I u → step u k v → C u k → I v)
    (hbreak : ∀ u k v, I u → step u k v → J v → C u k) :
    (∀ done rest u, ks = done ++ rest → Calls step s done u → J u)
      ↔
    ∀ done k rest u, ks = done ++ k :: rest → Calls step s done u → C u k := by
  constructor
  · intro h
    -- the calls before one that is looked at are shorter, so they meet the condition
    have hI : ∀ done rest u, ks = done ++ rest → Calls step s done u → I u := by
      intro done
      induction done using List.reverseRecOn with
      | nil =>
          intro rest u _ hnil
          obtain rfl := Calls.nil_iff.mp hnil
          exact hinit
      | append_singleton done k ih =>
          intro rest v hks hall
          obtain ⟨u, hdone, hk⟩ := Calls.snoc_iff.mp hall
          have hu := ih (k :: rest) u (by simp [hks]) hdone
          exact hkeep u k v hu hk (hbreak u k v hu hk (h (done ++ [k]) rest v hks hall))
    intro done k rest u hks hdone
    obtain ⟨v, hk⟩ := htotal u k
    have hv := h (done ++ [k]) rest v (by simp [hks]) (Calls.snoc_iff.mpr ⟨u, hdone, hk⟩)
    exact hbreak u k v (hI done (k :: rest) u hks hdone) hk hv
  · intro h done rest u hks hdone
    exact hshown u (Calls.invariant_of hinit hkeep h hks hdone)

/-- The rule for an invariant that shows itself: a call keeps it iff it meets the condition. -/
theorem Calls.invariant_iff_of_step
    (htotal : ∀ u k, ∃ v, step u k v)
    (hinit : I s)
    (hstep : ∀ u k v, I u → step u k v → (I v ↔ C u k)) :
    (∀ done rest u, ks = done ++ rest → Calls step s done u → I u)
      ↔
    ∀ done k rest u, ks = done ++ k :: rest → Calls step s done u → C u k :=
  Calls.invariant_iff htotal hinit (fun _ hu => hu)
    (fun u k v hu hk => (hstep u k v hu hk).mpr)
    (fun u k v hu hk => (hstep u k v hu hk).mp)

variable {f : σ → κ → σ}

/-- The calls of a function. -/
theorem calls_foldl_iff :
    Calls (fun u k v => v = f u k) s ks t ↔ t = ks.foldl f s := by
  induction ks generalizing s with
  | nil => rfl
  | cons k ks ih => simp [Calls, ih]

/-- The same rule for a function. -/
theorem foldl_invariant_iff
    (hinit : I s)
    (hstep : ∀ u k, I u → (I (f u k) ↔ C u k)) :
    (∀ done rest, ks = done ++ rest → I (done.foldl f s))
      ↔
    ∀ done k rest, ks = done ++ k :: rest → C (done.foldl f s) k := by
  have h : _ ↔ ∀ done k rest u, ks = done ++ k :: rest →
      Calls (fun u k v => v = f u k) s done u → C u k :=
    Calls.invariant_iff_of_step (fun u k => ⟨f u k, rfl⟩) hinit
      (fun u k v hu hk => hk ▸ hstep u k hu)
  simpa only [calls_foldl_iff, forall_eq_apply_imp_iff, forall_eq, imp.swap] using h

end Foundation
end OptimumGateway
