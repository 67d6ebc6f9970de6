import OptimumGateway.Foundation.AtomicProgram

/-!
# Operations implemented by programs

A program over some operations becomes a program over finer ones when each operation is
replaced by a program that computes its answer.  `implement f p` is the program so
obtained, and `Implements f h l` says that the calls `l` of finer operations carry out the
calls `h`, one after the other.

Facts about the calls of `p` are carried over to its implementation by two inversions:
whenever the implementation issues an operation, it does so on behalf of an operation of
`p` (`path_implement_call`), and a call that was carried out has left the calls of its
implementation in the trace (`Implements.mem`).

When every operation is one operation of a larger system, `rename` is the implementation;
paths and promises of the program carry over under the new names.
-/

namespace OptimumGateway
namespace Foundation

namespace Prog

variable {Op Op' : Type} {Ans : Op → Type} {Ans' : Op' → Type} {α : Type} {p : Prog Op Ans α}

/-- The calls determine where a program is. -/
theorem Path.unique
    {q q' : Prog Op Ans α} {l : List (Call Op Ans)}
    (h : Path p l q)
    (h' : Path p l q') :
    q = q' := by
  induction h with
  | nil => exact (path_nil_iff.mp h').symm
  | cons tail ih =>
      cases h' with
      | cons tail' => exact ih tail'

theorem path_op_call
    {o o' : Op} {l : List (Call Op Ans)} {k : Ans o' → Prog Op Ans (Ans o)}
    (hpath : Path (op o) l (call o' k)) :
    l = [] ∧ call o' k = op o := by
  rcases path_call_iff.mp hpath with hstart | ⟨r, l', -, hret⟩
  · exact hstart
  · obtain ⟨-, hret⟩ := path_ret_iff.mp hret
    cases hret

variable (f : (o : Op) → Prog Op' Ans' (Ans o))

/-- Replace every operation by a program. -/
def implement : Prog Op Ans α → Prog Op' Ans' α
  | ret a => ret a
  | call o k => f o >>= fun r => (k r).implement

/-- The second calls carry out the first ones. -/
inductive Implements : List (Call Op Ans) → List (Call Op' Ans') → Prop
  | nil : Implements [] []
  | cons
      {o : Op} {r : Ans o} {h : List (Call Op Ans)} {l l' : List (Call Op' Ans')}
      (head : Path (f o) l (ret r))
      (tail : Implements h l') :
      Implements (⟨o, r⟩ :: h) (l ++ l')

variable {f} {l : List (Call Op' Ans')}

/-- A path whose calls are carried out is a path of the implementation. -/
theorem Path.implement
    {q : Prog Op Ans α} {h : List (Call Op Ans)}
    (hpath : Path p h q)
    (hcalls : Implements f h l) :
    Path (p.implement f) l (q.implement f) := by
  induction hpath generalizing l with
  | nil =>
      cases hcalls
      exact Path.nil _
  | cons tail ih =>
      cases hcalls with
      | cons head htail => exact head.bind (ih htail)

/-- An operation of the implementation belongs to the implementation of an operation. -/
theorem path_implement_call
    {o' : Op'}
    {k' : Ans' o' → Prog Op' Ans' α}
    (hpath : Path (p.implement f) l (call o' k')) :
    ∃ h l₁ l₂ o k b, l = l₁ ++ l₂ ∧ Implements f h l₁ ∧ Path p h (call o k) ∧
      Path (f o) l₂ (call o' b) ∧ k' = fun r => b r >>= fun a => (k a).implement f := by
  induction p generalizing l with
  | ret a =>
      obtain ⟨-, hret⟩ := path_ret_iff.mp hpath
      cases hret
  | call o k ih =>
      -- once the operation is carried out, the rest of the program is implemented
      have hrest : ∀ r l₁ l₂, Path (f o) l₁ (ret r) →
          Path ((k r).implement f) l₂ (call o' k') →
          ∃ h m₁ m₂ o₁ k₁ b, l₁ ++ l₂ = m₁ ++ m₂ ∧ Implements f h m₁ ∧
            Path (call o k) h (call o₁ k₁) ∧ Path (f o₁) m₂ (call o' b) ∧
              k' = fun r => b r >>= fun a => (k₁ a).implement f := by
        intro r l₁ l₂ hhead htail
        obtain ⟨h, m₁, m₂, o₁, k₁, b, rfl, hcalls, hp, hb, hk⟩ := ih r htail
        exact ⟨⟨o, r⟩ :: h, l₁ ++ m₁, m₂, o₁, k₁, b, (List.append_assoc ..).symm,
          Implements.cons hhead hcalls, Path.cons hp, hb, hk⟩
      rcases path_bind hpath with ⟨b, hb, hcall⟩ | ⟨r, l₁, l₂, rfl, hhead, htail⟩
      · cases b with
        | ret r =>
            have hsplit := hrest r l [] hb (by rw [hcall]; exact Path.nil _)
            rwa [List.append_nil] at hsplit
        | call o₁ k₁ =>
            cases hcall
            exact ⟨[], [], l, o, k, k₁, rfl, Implements.nil, Path.nil _, hb, rfl⟩
      · exact hrest r l₁ l₂ hhead htail

theorem path_implement_ret
    {a : α}
    (hpath : Path (p.implement f) l (ret a)) :
    ∃ h, Implements f h l ∧ Path p h (ret a) := by
  induction p generalizing l with
  | ret b =>
      obtain ⟨rfl, hret⟩ := path_ret_iff.mp hpath
      cases hret
      exact ⟨[], Implements.nil, Path.nil _⟩
  | call o k ih =>
      obtain ⟨r, l₁, l₂, rfl, hhead, htail⟩ := path_bind_ret hpath
      obtain ⟨h, hcalls, hp⟩ := ih r htail
      exact ⟨⟨o, r⟩ :: h, Implements.cons hhead hcalls, Path.cons hp⟩

theorem Implements.of_append
    {h₁ h₂ : List (Call Op Ans)}
    (hcalls : Implements f (h₁ ++ h₂) l) :
    ∃ l₁ l₂, l = l₁ ++ l₂ ∧ Implements f h₁ l₁ ∧ Implements f h₂ l₂ := by
  induction h₁ generalizing l with
  | nil => exact ⟨[], l, rfl, Implements.nil, hcalls⟩
  | cons c h₁ ih =>
      cases hcalls with
      | @cons _ _ _ m _ head tail =>
          obtain ⟨l₁, l₂, rfl, hleft, hright⟩ := ih tail
          exact ⟨m ++ l₁, l₂, (List.append_assoc ..).symm, Implements.cons head hleft, hright⟩

theorem Implements.append
    {h₁ h₂ : List (Call Op Ans)} {l₁ l₂ : List (Call Op' Ans')}
    (hleft : Implements f h₁ l₁)
    (hright : Implements f h₂ l₂) :
    Implements f (h₁ ++ h₂) (l₁ ++ l₂) := by
  induction hleft with
  | nil => exact hright
  | cons head tail ih =>
      rw [List.append_assoc]
      exact Implements.cons head ih

/-- The calls that carry out a call are in the trace. -/
theorem Implements.mem
    {h : List (Call Op Ans)} {o : Op} {r : Ans o}
    (hcalls : Implements f h l)
    (hmem : ⟨o, r⟩ ∈ h) :
    ∃ m, m ⊆ l ∧ Path (f o) m (ret r) := by
  obtain ⟨h₁, h₂, rfl⟩ := List.append_of_mem hmem
  obtain ⟨l₁, l₂, rfl, -, hright⟩ := hcalls.of_append
  cases hright with
  | @cons _ _ _ m m' head tail =>
      exact ⟨m, fun c hc => List.mem_append_right _ (List.mem_append_left _ hc), head⟩

section Renaming

variable {lift : Op → Op'}

/-- Every operation is an operation of a larger system. -/
def rename (lift : Op → Op') (p : Prog Op (fun o => Ans' (lift o)) α) : Prog Op' Ans' α :=
  p.implement fun o => op (lift o)

def Call.rename (lift : Op → Op') (c : Call Op fun o => Ans' (lift o)) : Call Op' Ans' :=
  ⟨lift c.1, c.2⟩

variable {p q : Prog Op (fun o => Ans' (lift o)) α} {h : List (Call Op fun o => Ans' (lift o))}

theorem Path.rename
    (hpath : Path p h q) :
    Path (p.rename lift) (h.map (Call.rename lift)) (q.rename lift) := by
  induction hpath with
  | nil => exact Path.nil _
  | cons tail ih => exact Path.cons ih

theorem Forall.rename
    {P : Op' → Prop}
    (hp : p.Forall fun o => P (lift o)) :
    (p.rename lift).Forall P := by
  induction p with
  | ret a => exact trivial
  | call o k ih => exact ⟨hp.1, fun r => ih r (hp.2 r)⟩

theorem Along.rename
    {J : List (Call Op' Ans') → Op' → Prop} {Q : List (Call Op' Ans') → α → Prop}
    (hp : p.Along (fun h o => J (h.map (Call.rename lift)) (lift o))
      (fun h a => Q (h.map (Call.rename lift)) a) h) :
    (p.rename lift).Along J Q (h.map (Call.rename lift)) := by
  induction p generalizing h with
  | ret a => exact hp
  | call o k ih =>
      refine ⟨hp.1, ?_⟩
      intro r
      have hrest := ih r (hp.2 r)
      rwa [List.map_append] at hrest

end Renaming

end Prog

end Foundation
end OptimumGateway
