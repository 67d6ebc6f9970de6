import Mathlib.Algebra.BigOperators.Group.List.Basic
import Mathlib.Algebra.Order.Group.Multiset
import Mathlib.Data.List.AList

/-!
# Maps with slices as values

A Go map is an association list without repeated keys.  The order in which `range`
visits it is not part of the map: a loop over a map takes a list of keys that is a
permutation of the map's.

A map from keys to slices is read as the multiset of its pairs.  Appending to the slice
of a key adds pairs (`pairs_appendAt`), deleting a key removes its pairs
(`pairs_erase`), and a loop that appends one value for each item of a list collects the
items by their keys (`getAll_collect`).
-/

namespace OptimumGateway
namespace Foundation

abbrev GoMap (K V : Type) := AList (fun _ : K => V)

section Sums

variable {K M : Type} [DecidableEq K] [AddCommMonoid M]

/-- A sum over the keys of a map after one key was written to: the summands of the other
keys are the same, and that of the written key has grown by `x`. -/
theorem sum_map_touch
    {ks ks' : List K} {k : K} {f g : K → M} {x : M}
    (hnodup : ks.Nodup)
    (hkeys : ks'.Perm (k :: ks.erase k))
    (hother : ∀ j ∈ ks, j ≠ k → g j = f j)
    (hnew : k ∉ ks → f k = 0)
    (hk : g k = f k + x) :
    (ks'.map g).sum = (ks.map f).sum + x := by
  have hrest : (ks.erase k).map g = (ks.erase k).map f := by
    refine List.map_congr_left ?_
    intro j hj
    have hmem := hnodup.mem_erase_iff.mp hj
    exact hother j hmem.2 hmem.1
  have hold : f k + ((ks.erase k).map f).sum = (ks.map f).sum := by
    by_cases hmem : k ∈ ks
    · rw [((List.perm_cons_erase hmem).map f).sum_eq, List.map_cons, List.sum_cons]
    · rw [List.erase_of_not_mem hmem, hnew hmem, zero_add]
  rw [(hkeys.map g).sum_eq, List.map_cons, List.sum_cons, hrest, hk, ← hold,
    add_right_comm]

end Sums

namespace GoMap

variable {K V : Type} [DecidableEq K] {m : GoMap K (List V)} {j k : K}

/-- The value of a key, or nil. -/
def getAll (m : GoMap K (List V)) (k : K) : List V :=
  (m.lookup k).getD []

/-- `m[k] = append(m[k], vs...)`. -/
def appendAt (m : GoMap K (List V)) (k : K) (vs : List V) : GoMap K (List V) :=
  m.insert k (getAll m k ++ vs)

/-- The values of one key, each with the key. -/
def pairsAt (k : K) (vs : List V) : Multiset (K × V) :=
  (vs.map (Prod.mk k) : List (K × V))

def pairs (m : GoMap K (List V)) : Multiset (K × V) :=
  (m.keys.map fun k => pairsAt k (getAll m k)).sum

omit [DecidableEq K] in
@[simp] theorem pairsAt_nil
    (k : K) :
    pairsAt k ([] : List V) = 0 := by
  rfl

omit [DecidableEq K] in
theorem pairsAt_append
    (k : K)
    (vs ws : List V) :
    pairsAt k (vs ++ ws) = pairsAt k vs + pairsAt k ws := by
  simp [pairsAt]

@[simp] theorem getAll_empty
    (k : K) :
    getAll (∅ : GoMap K (List V)) k = [] := by
  simp [getAll]

@[simp] theorem pairs_empty :
    pairs (∅ : GoMap K (List V)) = 0 := by
  simp [pairs]

@[simp] theorem getAll_appendAt
    (m : GoMap K (List V))
    (k : K)
    (vs : List V) :
    getAll (appendAt m k vs) k = getAll m k ++ vs := by
  simp [getAll, appendAt]

theorem getAll_appendAt_of_ne
    (m : GoMap K (List V))
    (vs : List V)
    (h : j ≠ k) :
    getAll (appendAt m k vs) j = getAll m j := by
  simp [getAll, appendAt, AList.lookup_insert_ne h]

theorem mem_getAll_appendAt
    {vs : List V} {v : V}
    (h : v ∈ getAll (appendAt m k vs) j) :
    v ∈ getAll m j ∨ j = k ∧ v ∈ vs := by
  by_cases hj : j = k
  · subst hj
    rw [getAll_appendAt] at h
    exact (List.mem_append.mp h).imp_right fun hnew => ⟨rfl, hnew⟩
  · rw [getAll_appendAt_of_ne m vs hj] at h
    exact Or.inl h

theorem getAll_of_notMem
    (h : k ∉ m.keys) :
    getAll m k = [] := by
  simp [getAll, AList.lookup_eq_none.mpr h]

theorem keys_appendAt
    (m : GoMap K (List V))
    (k : K)
    (vs : List V) :
    (appendAt m k vs).keys = k :: m.keys.erase k := by
  exact AList.keys_insert m

theorem pairs_appendAt
    (m : GoMap K (List V))
    (k : K)
    (vs : List V) :
    pairs (appendAt m k vs) = pairs m + pairsAt k vs := by
  refine sum_map_touch m.keys_nodup (List.Perm.of_eq (keys_appendAt m k vs)) ?_ ?_ ?_
  · intro j _ hj
    rw [getAll_appendAt_of_ne m vs hj]
  · intro hk
    rw [getAll_of_notMem hk, pairsAt_nil]
  · rw [getAll_appendAt, pairsAt_append]

theorem getAll_erase_of_ne
    (m : GoMap K (List V))
    (h : j ≠ k) :
    getAll (m.erase k) j = getAll m j := by
  simp [getAll, AList.lookup_erase_ne h]

theorem pairs_erase
    (m : GoMap K (List V))
    (k : K) :
    pairs (m.erase k) + pairsAt k (getAll m k) = pairs m := by
  have hrest : (m.keys.erase k).map (fun j => pairsAt j (getAll (m.erase k) j)) =
      (m.keys.erase k).map fun j => pairsAt j (getAll m j) := by
    refine List.map_congr_left ?_
    intro j hj
    rw [getAll_erase_of_ne m (m.keys_nodup.mem_erase_iff.mp hj).1]
  unfold pairs
  rw [AList.keys_erase, hrest]
  by_cases hmem : k ∈ m.keys
  · rw [((List.perm_cons_erase hmem).map _).sum_eq, List.map_cons, List.sum_cons, add_comm]
  · rw [List.erase_of_not_mem hmem, getAll_of_notMem hmem, pairsAt_nil, add_zero]

theorem mem_pairs_iff
    {v : V} :
    (k, v) ∈ pairs m ↔ v ∈ getAll m k := by
  have hsum : ∀ ks : List K, (k, v) ∈ (ks.map fun j => pairsAt j (getAll m j)).sum ↔
      k ∈ ks ∧ v ∈ getAll m k := by
    intro ks
    induction ks with
    | nil => simp
    | cons j ks ih =>
        rw [List.map_cons, List.sum_cons, Multiset.mem_add, ih]
        by_cases hj : j = k
        · subst hj
          simp [pairsAt]
        · simp [pairsAt, hj, Ne.symm hj]
  rw [pairs, hsum]
  refine ⟨fun h => h.2, fun h => ⟨?_, h⟩⟩
  by_contra hk
  rw [getAll_of_notMem hk] at h
  cases h

section Collect

variable {α : Type}

/-- Append the value of every item at the key of the item. -/
def collect
    (key : α → K)
    (value : α → V)
    (m : GoMap K (List V))
    (items : List α) : GoMap K (List V) :=
  items.foldl (fun m x => appendAt m (key x) [value x]) m

variable (key : α → K) (value : α → V) (m : GoMap K (List V)) (items : List α)

theorem collect_cons
    (x : α) :
    collect key value m (x :: items) =
      collect key value (appendAt m (key x) [value x]) items :=
  rfl

/-- A key gets the values of its items, in their order. -/
theorem getAll_collect
    (k : K) :
    getAll (collect key value m items) k =
      getAll m k ++ (items.filter fun x => key x = k).map value := by
  induction items generalizing m with
  | nil => simp [collect]
  | cons x items ih =>
      rw [collect_cons, ih]
      by_cases hk : key x = k
      · subst hk
        simp
      · rw [getAll_appendAt_of_ne m _ (Ne.symm hk)]
        simp [hk]

theorem mem_keys_collect
    (k : K) :
    k ∈ (collect key value m items).keys
      ↔
    k ∈ m.keys ∨ ∃ x ∈ items, key x = k := by
  induction items generalizing m with
  | nil => simp [collect]
  | cons x items ih =>
      have hkeys : k ∈ (appendAt m (key x) [value x]).keys ↔ k ∈ m.keys ∨ key x = k := by
        rw [keys_appendAt, List.mem_cons]
        by_cases hk : k = key x
        · simp [hk]
        · simp [List.mem_erase_of_ne hk, hk, Ne.symm hk]
      rw [collect_cons, ih, hkeys]
      simp [or_assoc]

theorem pairs_collect :
    pairs (collect key value m items) =
      pairs m + (items.map fun x => (key x, value x) : List (K × V)) := by
  induction items generalizing m with
  | nil => simp [collect]
  | cons x items ih =>
      rw [collect_cons, ih, pairs_appendAt, add_assoc]
      rfl

end Collect

end GoMap

end Foundation
end OptimumGateway
