import OptimumGateway.Foundation.AtomicProgram

/-!
# Sections that do not overlap

Each thread of a pool ends with a section of its calls, which starts with an `enter` and
ends with a `leave`.  If no thread enters while another is inside, the sections do not
overlap, and the last one to be entered is run without a step in between until the end of
the run (`Run.last_section`).
-/

namespace OptimumGateway
namespace Foundation

open Prog

section Lists

variable {β : Type} {P : β → Prop} {l m p q : List β} {x y : β}

theorem exists_last_of_mem
    (hx : x ∈ l)
    (hP : P x) :
    ∃ a z b, l = a ++ z :: b ∧ P z ∧ ∀ w ∈ b, ¬ P w := by
  induction l using List.reverseRecOn with
  | nil => cases hx
  | append_singleton l z ih =>
      by_cases hz : P z
      · exact ⟨l, z, [], rfl, hz, by simp⟩
      · have hmem : x ∈ l := by
          rcases List.mem_append.mp hx with hx | hx
          · exact hx
          · rw [List.mem_singleton.mp hx] at hP
            exact absurd hP hz
        obtain ⟨a, w, b, rfl, hw, hb⟩ := ih hmem
        refine ⟨a, w, b ++ [z], by simp, hw, ?_⟩
        intro v hv
        rcases List.mem_append.mp hv with hv | hv
        · exact hb v hv
        · rw [List.mem_singleton.mp hv]
          exact hz

theorem last_split_unique
    (h : l ++ x :: m = p ++ y :: q)
    (hx : P x)
    (hy : P y)
    (hm : ∀ w ∈ m, ¬ P w)
    (hq : ∀ w ∈ q, ¬ P w) :
    l = p ∧ x = y ∧ m = q := by
  rcases List.append_eq_append_iff.mp h with ⟨c, rfl, hc⟩ | ⟨c, rfl, hc⟩
  · cases c with
    | nil =>
        obtain ⟨rfl, rfl⟩ := List.cons.inj hc
        exact ⟨by simp, rfl, rfl⟩
    | cons w c =>
        obtain ⟨rfl, rfl⟩ := List.cons.inj hc
        exact absurd hy (hm y (by simp))
  · cases c with
    | nil =>
        obtain ⟨rfl, rfl⟩ := List.cons.inj hc
        exact ⟨by simp, rfl, rfl⟩
    | cons w c =>
        obtain ⟨rfl, rfl⟩ := List.cons.inj hc
        exact absurd hx (hq x (by simp))

end Lists

section Sections

variable {ι Op : Type} {Ans : Op → Type} {α : ι → Type} {σ : Type}
variable [DecidableEq ι]
variable {sem : Sem Op Ans σ} {G : Config ι Op Ans α σ → Event ι Op Ans → Prop}
variable {enter leave : Call Op Ans → Prop}

/-- The calls of a thread: some that are outside, and a section with the only `enter` at
its start and the only `leave` at its end. -/
structure Bracketed
    (enter leave : Call Op Ans → Prop)
    (outside inside : List (Call Op Ans)) : Prop where
  outside_enter : ∀ c ∈ outside, ¬ enter c
  outside_leave : ∀ c ∈ outside, ¬ leave c
  inside : ∃ x m y, inside = x :: (m ++ [y]) ∧ enter x ∧ leave y ∧
    (∀ c ∈ m ++ [y], ¬ enter c) ∧ ∀ c ∈ x :: m, ¬ leave c

/-- No thread enters while another is inside. -/
def EntersAlone
    (enter leave : Call Op Ans → Prop)
    (tr : List (Event ι Op Ans)) : Prop :=
  ∀ a e b, tr = a ++ e :: b → enter e.call → ∀ j, j ≠ e.thread →
    (∃ c ∈ callsOf j a, enter c) → ∃ c ∈ callsOf j a, leave c

theorem entersAlone_map
    (i : ι)
    (l : List (Call Op Ans)) :
    EntersAlone enter leave (l.map fun x => (⟨i, x.1, x.2⟩ : Event ι Op Ans)) := by
  intro a e b htr _ j hj hentered
  obtain ⟨⟨o, r⟩, hc, -⟩ := hentered
  have hthread : ∀ f ∈ a ++ e :: b, f.thread = i := by
    intro f hf
    rw [← htr] at hf
    obtain ⟨x, -, rfl⟩ := List.mem_map.mp hf
    rfl
  have hi : j = i := hthread _ (List.mem_append_left _ (mem_of_mem_callsOf hc))
  exact absurd (hi.trans (hthread e (by simp)).symm) hj

/-- Threads enter alone after all others have left. -/
theorem EntersAlone.append
    {tr tr' : List (Event ι Op Ans)}
    (h : EntersAlone enter leave tr)
    (h' : EntersAlone enter leave tr')
    (hleft : ∀ j, (∃ c ∈ callsOf j tr, enter c) → ∃ c ∈ callsOf j tr, leave c) :
    EntersAlone enter leave (tr ++ tr') := by
  intro a e b htr he j hj hentered
  rcases List.append_eq_append_iff.mp htr with ⟨m, rfl, hm⟩ | ⟨m, rfl, hm⟩
  · -- the event is in the second part
    rw [callsOf_append] at hentered ⊢
    obtain ⟨c, hc, henter⟩ := hentered
    rcases List.mem_append.mp hc with hc | hc
    · obtain ⟨x, hx, hleave⟩ := hleft j ⟨c, hc, henter⟩
      exact ⟨x, List.mem_append_left _ hx, hleave⟩
    · obtain ⟨x, hx, hleave⟩ := h' m e b hm he j hj ⟨c, hc, henter⟩
      exact ⟨x, List.mem_append_right _ hx, hleave⟩
  · cases m with
    | nil =>
        rw [List.append_nil] at hleft
        exact hleft j hentered
    | cons f m =>
        obtain ⟨rfl, -⟩ := List.cons.inj hm
        exact h a e m rfl he j hj hentered

/-- A thread that has left makes no more calls. -/
theorem Bracketed.left
    {outside inside l m : List (Call Op Ans)}
    (h : Bracketed enter leave outside inside)
    (hcalls : outside ++ inside = l ++ m)
    (hleft : ∃ c ∈ l, leave c) :
    m = [] := by
  obtain ⟨x, mid, y, rfl, -, -, -, hmid⟩ := h.inside
  obtain ⟨c, hc, hleave⟩ := hleft
  rcases List.eq_nil_or_concat m with rfl | ⟨m', z, rfl⟩
  · rfl
  · have hsplit : (outside ++ x :: mid) ++ [y] = (l ++ m') ++ [z] := by
      simpa using hcalls
    obtain ⟨hfront, -⟩ := List.append_inj' hsplit rfl
    have hmem : c ∈ outside ++ x :: mid := by
      rw [hfront]
      exact List.mem_append_left _ hc
    rcases List.mem_append.mp hmem with hmem | hmem
    · exact absurd hleave (h.outside_leave c hmem)
    · exact absurd hleave (hmid c hmem)

/-- The last section to be entered is run alone until the end. -/
theorem Run.last_section
    {c d : Config ι Op Ans α σ} {tr : List (Event ι Op Ans)}
    {outside inside : ι → List (Call Op Ans)}
    (hrun : Run sem G c tr d)
    (hcalls : ∀ i, callsOf i tr = outside i ++ inside i)
    (hbracketed : ∀ i, Bracketed enter leave (outside i) (inside i))
    (halone : EntersAlone enter leave tr)
    (i₀ : ι) :
    ∃ i s, Exec sem s (inside i) d.state := by
  have hentered : ∀ i, ∃ x ∈ inside i, enter x := by
    intro i
    obtain ⟨x, m, y, hinside, hx, -⟩ := (hbracketed i).inside
    exact ⟨x, by simp [hinside], hx⟩
  -- the last event that enters a section
  obtain ⟨a, e, b, htr, he, hlast⟩ : ∃ a e b, tr = a ++ e :: b ∧ enter e.call ∧
      ∀ f ∈ b, ¬ enter f.call := by
    obtain ⟨⟨o, r⟩, hx, henter⟩ := hentered i₀
    have hmem : (⟨o, r⟩ : Call Op Ans) ∈ callsOf i₀ tr := by
      rw [hcalls]
      exact List.mem_append_right _ hx
    exact exists_last_of_mem (P := fun f : Event ι Op Ans => enter f.call)
      (mem_of_mem_callsOf hmem) henter
  obtain ⟨i, o, r⟩ := e
  have hlast' : ∀ j, ∀ x ∈ callsOf j b, ¬ enter x := by
    intro j x hx
    obtain ⟨o, r⟩ := x
    exact hlast _ (mem_of_mem_callsOf hx)
  -- the others have left by then
  have hothers : ∀ j, j ≠ i → callsOf j b = [] := by
    intro j hj
    have hsplit : outside j ++ inside j = callsOf j a ++ callsOf j b := by
      rw [← hcalls, htr, callsOf_append, callsOf_cons, if_neg (Ne.symm hj), List.nil_append]
    refine (hbracketed j).left hsplit (halone a _ b htr he j hj ?_)
    obtain ⟨x, hx, henter⟩ := hentered j
    have hmem : x ∈ callsOf j a ++ callsOf j b := by
      rw [← hsplit]
      exact List.mem_append_right _ hx
    rcases List.mem_append.mp hmem with hmem | hmem
    · exact ⟨x, hmem, henter⟩
    · exact absurd henter (hlast' j x hmem)
  have hb : b.map Event.call = callsOf i b := by
    have hall : ∀ f ∈ b, f.thread = i := by
      intro f hf
      by_contra hne
      have hmem := call_mem_callsOf hf
      rw [hothers f.thread hne] at hmem
      cases hmem
    unfold callsOf
    rw [List.filter_eq_self.mpr fun f hf => by simp [hall f hf]]
  -- what it does from then on is its section
  obtain ⟨x, m, y, hinside, hx, -, henter, -⟩ := (hbracketed i).inside
  have hcallsi : callsOf i a ++ ⟨o, r⟩ :: callsOf i b = outside i ++ x :: (m ++ [y]) := by
    rw [← hinside, ← hcalls, htr, callsOf_append, callsOf_cons_self]
  obtain ⟨-, hcall, hrest⟩ := last_split_unique hcallsi he hx (hlast' i) henter
  have hexec := hrun.exec
  rw [htr, List.map_append, List.map_cons, hb] at hexec
  obtain ⟨s, -, hsection⟩ := exec_append_iff.mp hexec
  refine ⟨i, s, ?_⟩
  rw [hinside, ← hrest, ← hcall]
  exact hsection

end Sections

end Foundation
end OptimumGateway
