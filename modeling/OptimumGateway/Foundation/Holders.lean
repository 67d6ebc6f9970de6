import OptimumGateway.Foundation.AtomicProgram

/-!
# What the threads of a pool hold

Each thread holds at most one item.  `holdings hold threads` lists the items that are held,
and `holdings_update_perm` says how the list changes when one thread takes an item or gives
it back.
-/

namespace OptimumGateway
namespace Foundation

section Holdings

variable {ι β : Type}

/-- The items that the threads hold. -/
def holdings (hold : ι → Option β) (threads : List ι) : List β :=
  threads.filterMap hold

variable {hold hold' : ι → Option β} {threads : List ι}

theorem mem_holdings_iff
    {b : β} :
    b ∈ holdings hold threads ↔ ∃ i ∈ threads, hold i = some b := by
  exact List.mem_filterMap

theorem holdings_congr
    (h : ∀ i ∈ threads, hold' i = hold i) :
    holdings hold' threads = holdings hold threads := by
  exact List.filterMap_congr h

theorem holdings_eq_nil
    (h : ∀ i ∈ threads, hold i = none) :
    holdings hold threads = [] := by
  exact List.filterMap_eq_nil_iff.mpr h

/-- One thread changes what it holds. -/
theorem holdings_update_perm
    {i : ι}
    (hnodup : threads.Nodup)
    (hi : i ∈ threads)
    (hother : ∀ j, j ≠ i → hold' j = hold j) :
    ((hold i).toList ++ holdings hold' threads).Perm
      ((hold' i).toList ++ holdings hold threads) := by
  obtain ⟨a, b, rfl⟩ := List.append_of_mem hi
  have ha : ∀ j ∈ a, hold' j = hold j := by
    intro j hj
    refine hother j ?_
    rintro rfl
    exact (List.nodup_append.mp hnodup).2.2 j hj j List.mem_cons_self rfl
  have hb : ∀ j ∈ b, hold' j = hold j := by
    intro j hj
    refine hother j ?_
    rintro rfl
    exact (List.nodup_cons.mp (List.nodup_append.mp hnodup).2.1).1 hj
  have hsplit : ∀ f : ι → Option β, (holdings f (a ++ i :: b)).Perm
      ((f i).toList ++ (holdings f a ++ holdings f b)) := by
    intro f
    cases hfi : f i with
    | none => simp [holdings, hfi]
    | some x =>
        simp only [holdings, List.filterMap_append, List.filterMap_cons, hfi,
          Option.toList_some, List.singleton_append]
        exact List.perm_middle
  have hsame : holdings hold' a ++ holdings hold' b = holdings hold a ++ holdings hold b := by
    rw [holdings_congr ha, holdings_congr hb]
  have hswap := (@List.perm_append_comm _ (hold i).toList (hold' i).toList).append_right
    (holdings hold a ++ holdings hold b)
  rw [List.append_assoc, List.append_assoc] at hswap
  refine ((hsplit hold').append_left _).trans ?_
  rw [hsame]
  exact hswap.trans ((hsplit hold).append_left _).symm

end Holdings

section Traces

variable {ι Op : Type} {Ans : Op → Type} [DecidableEq ι]

theorem callsOf_concat_self
    (tr : List (Event ι Op Ans))
    (i : ι)
    (o : Op)
    (r : Ans o) :
    callsOf i (tr ++ [⟨i, o, r⟩]) = callsOf i tr ++ [⟨o, r⟩] := by
  rw [callsOf_append, callsOf_singleton, if_pos rfl]
  rfl

theorem callsOf_concat_ne
    (tr : List (Event ι Op Ans))
    {i j : ι}
    (o : Op)
    (r : Ans o)
    (h : j ≠ i) :
    callsOf i (tr ++ [⟨j, o, r⟩]) = callsOf i tr := by
  rw [callsOf_append, callsOf_singleton, if_neg h, List.append_nil]

end Traces

end Foundation
end OptimumGateway
