import Mathlib.Data.List.DropRight
import Mathlib.Data.List.Nodup
import Mathlib.Tactic.Common

/-!
# Slices in pieces

A slice is cut into consecutive pieces of one length with a shorter last piece
(`IsChunking`), and a bounded buffer keeps the last elements of what is appended to it
(`keepLast`).  The functions are those of a library (`SliceLibrary`), known by what they
return (`SliceLibrary.Lawful`), and `plainSlices` is one such library.

Every piece is non-empty, so there are at most as many pieces as elements
(`IsChunking.length_le`).
-/

namespace OptimumGateway
namespace Foundation

variable {α : Type}

section Pieces

/-- The pieces are consecutive and of length `n`, but for a shorter last one. -/
structure IsChunking (n : Nat) (l : List α) (pieces : List (List α)) : Prop where
  flatten_eq : pieces.flatten = l
  ne_nil : ∀ piece ∈ pieces, piece ≠ []
  length_piece_le : ∀ piece ∈ pieces, piece.length ≤ n
  full : ∀ piece ∈ pieces.dropLast, piece.length = n

variable {n : Nat} {l : List α} {pieces : List (List α)}

theorem length_le_length_flatten
    (h : ∀ piece ∈ pieces, piece ≠ []) :
    pieces.length ≤ pieces.flatten.length := by
  induction pieces with
  | nil => exact Nat.le_refl _
  | cons piece pieces ih =>
      have hpiece := List.length_pos_iff.mpr (h piece (List.mem_cons_self ..))
      have hrest := ih fun other hother => h other (List.mem_cons_of_mem _ hother)
      rw [List.length_cons, List.flatten_cons, List.length_append]
      omega

theorem IsChunking.length_le
    (h : IsChunking n l pieces) :
    pieces.length ≤ l.length := by
  have hle := length_le_length_flatten h.ne_nil
  rwa [h.flatten_eq] at hle

end Pieces

section Bounded

/-- The last `n` elements. -/
def keepLast (n : Nat) (l : List α) : List α :=
  l.rtake n

theorem keepLast_eq_drop
    (n : Nat)
    (l : List α) :
    keepLast n l = l.drop (l.length - n) := by
  rfl

theorem keepLast_of_length_le
    {n : Nat} {l : List α}
    (h : l.length ≤ n) :
    keepLast n l = l := by
  rw [keepLast_eq_drop, Nat.sub_eq_zero_of_le h, List.drop_zero]

theorem keepLast_concat_of_full
    {n : Nat} {x y : α} {l : List α}
    (h : (x :: l).length = n) :
    keepLast n (x :: l ++ [y]) = l ++ [y] := by
  have hdrop : (x :: l ++ [y]).length - n = 1 := by
    rw [List.length_append, h, List.length_singleton]
    omega
  rw [keepLast_eq_drop, hdrop, List.cons_append, List.drop_one, List.tail_cons]

end Bounded

section Library

/-- `ChunkSlice`, `AppendBounded` and `ConcatKeepLast`. -/
structure SliceLibrary (α : Type) where
  chunkSlice : List α → Nat → List (List α)
  appendBounded : List α → α → Nat → List α
  concatKeepLast : List (List α) → Nat → List α

structure SliceLibrary.Lawful (lib : SliceLibrary α) : Prop where
  chunkSlice_isChunking : ∀ l n, 0 < n → IsChunking n l (lib.chunkSlice l n)
  appendBounded_eq : ∀ l x n, lib.appendBounded l x n = keepLast n (l ++ [x])
  concatKeepLast_eq : ∀ ls n, lib.concatKeepLast ls n = keepLast n ls.flatten

/-- At most `fuel` pieces of length `n`. -/
def cutPieces (n : Nat) : Nat → List α → List (List α)
  | 0, _ => []
  | _ + 1, [] => []
  | fuel + 1, x :: l => (x :: l).take n :: cutPieces n fuel ((x :: l).drop n)

theorem cutPieces_eq_nil
    {n fuel : Nat} {l : List α}
    (h : l = []) :
    cutPieces n fuel l = [] := by
  subst h
  cases fuel <;> rfl

theorem cutPieces_isChunking
    {n : Nat}
    (hn : 0 < n)
    {fuel : Nat} {l : List α}
    (hfuel : l.length ≤ fuel) :
    IsChunking n l (cutPieces n fuel l) := by
  induction fuel generalizing l with
  | zero =>
      obtain rfl := List.length_eq_zero_iff.mp (Nat.le_zero.mp hfuel)
      exact ⟨rfl, nofun, nofun, nofun⟩
  | succ fuel ih =>
      cases l with
      | nil => exact ⟨rfl, nofun, nofun, nofun⟩
      | cons x l =>
          have hdrop : ((x :: l).drop n).length ≤ fuel := by
            rw [List.length_drop, List.length_cons]
            rw [List.length_cons] at hfuel
            omega
          have hrest := ih hdrop
          refine ⟨?_, ?_, ?_, ?_⟩
          · rw [cutPieces, List.flatten_cons, hrest.flatten_eq, List.take_append_drop]
          · refine List.forall_mem_cons.mpr ⟨?_, hrest.ne_nil⟩
            exact List.ne_nil_of_length_pos (by rw [List.length_take, List.length_cons]; omega)
          · refine List.forall_mem_cons.mpr ⟨?_, hrest.length_piece_le⟩
            exact List.length_take_le ..
          · by_cases hlast : (x :: l).drop n = []
            · rw [cutPieces, cutPieces_eq_nil hlast]
              nofun
            · have hne : cutPieces n fuel ((x :: l).drop n) ≠ [] := by
                intro hnil
                have hflat := hrest.flatten_eq
                rw [hnil] at hflat
                exact hlast hflat.symm
              rw [cutPieces, List.dropLast_cons_of_ne_nil hne]
              refine List.forall_mem_cons.mpr ⟨?_, hrest.full⟩
              have hlong := List.length_pos_iff.mpr hlast
              rw [List.length_drop] at hlong
              rw [List.length_take]
              omega

/-- The library as its documentation states it. -/
def plainSlices : SliceLibrary α where
  chunkSlice l n := cutPieces n l.length l
  appendBounded l x n := keepLast n (l ++ [x])
  concatKeepLast ls n := keepLast n ls.flatten

theorem plainSlices_lawful : (plainSlices : SliceLibrary α).Lawful where
  chunkSlice_isChunking _ _ hn := cutPieces_isChunking hn (Nat.le_refl _)
  appendBounded_eq _ _ _ := rfl
  concatKeepLast_eq _ _ := rfl

end Library

end Foundation
end OptimumGateway
