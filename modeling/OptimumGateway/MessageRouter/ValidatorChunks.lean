import Mathlib.Data.Set.Card
import Mathlib.Data.UInt
import OptimumGateway.Foundation.GoMap
import OptimumGateway.Foundation.Slices

/-!
# The chunks of the known validators

This module models `SetKnownValidators` of `pkg/service/message_router/bg_sync.go` and
`ResolveValidatorChunk` of `pkg/service/message_router/service.go`.

The indexes are sorted and cut into pieces, and each index is stored with the number and
the length of its piece.  The loop writes piece after piece, so an index that occurs in
several pieces has the last one (`lookup_replacementChunks_iff`).  Nothing removes
repetitions before the cut: a piece with a repetition reports more validators than it has,
and a piece whose indexes all occur in later ones is not used at all.  The chunks are
consistent exactly when no index repeats (`chunks_consistent_iff`).
-/

namespace OptimumGateway
namespace MessageRouter

open Foundation

section Assignment

def defaultAttestationSyncChunkSize : Nat := 64

/-- A validator with the number of its chunk and the size of the chunk. -/
abbrev KnownValidators := GoMap UInt64 (UInt64 × UInt64)

/-- The inner loop: every index of a piece is stored with the piece's number and length. -/
def storeChunk (m : KnownValidators) (chunk : List UInt64 × Nat) : KnownValidators :=
  chunk.1.foldl
    (fun m validator => m.insert validator (UInt64.ofNat chunk.2, UInt64.ofNat chunk.1.length)) m

def replacementChunks (chunkedValidators : List (List UInt64)) : KnownValidators :=
  chunkedValidators.zipIdx.foldl storeChunk ∅

/-- The pieces of the sorted indexes. -/
def chunkedValidators (lib : SliceLibrary UInt64) (knownValidators : List UInt64) :
    List (List UInt64) :=
  lib.chunkSlice (knownValidators.mergeSort (· ≤ ·)) defaultAttestationSyncChunkSize

/-- The map that replaces the one in use. -/
def setKnownValidators (lib : SliceLibrary UInt64) (knownValidators : List UInt64) :
    KnownValidators :=
  replacementChunks (chunkedValidators lib knownValidators)

/-- The chunk, its size, and whether the validator is known. -/
def resolveValidatorChunk (m : KnownValidators) (attesterIndex : UInt64) :
    UInt64 × UInt64 × Bool :=
  match m.lookup attesterIndex with
  | none => (0, 0, false)
  | some chunk => (chunk.1, chunk.2, true)

theorem resolveValidatorChunk_eq_iff
    {m : KnownValidators} {validator chunkID chunkSize : UInt64} :
    resolveValidatorChunk m validator = (chunkID, chunkSize, true)
      ↔
    m.lookup validator = some (chunkID, chunkSize) := by
  unfold resolveValidatorChunk
  cases m.lookup validator <;> simp [Prod.ext_iff]

end Assignment

section LastPiece

/-- The last piece that holds a validator, with its number. -/
structure LastPiece (pieces : List (List UInt64)) (validator : UInt64) (i : Nat)
    (piece : List UInt64) : Prop where
  get : pieces[i]? = some piece
  mem : validator ∈ piece
  last : ∀ j later, i < j → pieces[j]? = some later → validator ∉ later

variable {pieces : List (List UInt64)} {piece later : List UInt64}
  {validator : UInt64} {i j : Nat}

variable (h : LastPiece pieces validator i piece)
include h

theorem LastPiece.le
    (hget : pieces[j]? = some later)
    (hmem : validator ∈ later) :
    j ≤ i := by
  by_contra hlt
  exact h.last j later (Nat.lt_of_not_le hlt) hget hmem

theorem LastPiece.lt_length :
    i < pieces.length := by
  exact (List.getElem?_eq_some_iff.mp h.get).1

theorem LastPiece.mem_pieces :
    piece ∈ pieces := by
  exact List.mem_of_getElem? h.get

omit h

theorem lastPiece_concat_of_mem
    (hmem : validator ∈ later) :
    LastPiece (pieces ++ [later]) validator i piece
      ↔
    i = pieces.length ∧ piece = later := by
  constructor
  · intro h
    have hge := h.le (List.getElem?_concat_length ..) hmem
    have hlt := h.lt_length
    rw [List.length_append, List.length_singleton] at hlt
    obtain rfl : i = pieces.length := by omega
    have hget := h.get
    rw [List.getElem?_concat_length] at hget
    exact ⟨rfl, (Option.some.inj hget).symm⟩
  · rintro ⟨rfl, rfl⟩
    refine ⟨List.getElem?_concat_length .., hmem, ?_⟩
    intro j other hj hget
    have hlt := (List.getElem?_eq_some_iff.mp hget).1
    rw [List.length_append, List.length_singleton] at hlt
    omega

theorem lastPiece_concat_of_notMem
    (hmem : validator ∉ later) :
    LastPiece (pieces ++ [later]) validator i piece
      ↔
    LastPiece pieces validator i piece := by
  constructor
  · intro h
    have hlt : i < pieces.length := by
      have hle := h.lt_length
      rw [List.length_append, List.length_singleton] at hle
      by_contra hge
      obtain rfl : i = pieces.length := by omega
      have hget := h.get
      rw [List.getElem?_concat_length] at hget
      exact hmem (Option.some.inj hget ▸ h.mem)
    refine ⟨?_, h.mem, ?_⟩
    · rw [← List.getElem?_append_left hlt]
      exact h.get
    · intro j other hj hget
      refine h.last j other hj ?_
      rw [List.getElem?_append_left (List.getElem?_eq_some_iff.mp hget).1]
      exact hget
  · intro h
    refine ⟨?_, h.mem, ?_⟩
    · rw [List.getElem?_append_left h.lt_length]
      exact h.get
    · intro j other hj hget
      by_cases hjlt : j < pieces.length
      · rw [List.getElem?_append_left hjlt] at hget
        exact h.last j other hj hget
      · have hlt := (List.getElem?_eq_some_iff.mp hget).1
        rw [List.length_append, List.length_singleton] at hlt
        obtain rfl : j = pieces.length := by omega
        rw [List.getElem?_concat_length] at hget
        exact Option.some.inj hget ▸ hmem

theorem exists_lastPiece
    (hmem : validator ∈ pieces.flatten) :
    ∃ i piece, LastPiece pieces validator i piece := by
  induction pieces using List.reverseRecOn with
  | nil => cases hmem
  | append_singleton pieces later ih =>
      by_cases hlater : validator ∈ later
      · exact ⟨_, _, (lastPiece_concat_of_mem hlater).mpr ⟨rfl, rfl⟩⟩
      · rw [List.flatten_append, List.mem_append, List.flatten_singleton] at hmem
        obtain ⟨i, piece, h⟩ := ih (hmem.resolve_right hlater)
        exact ⟨i, piece, (lastPiece_concat_of_notMem hlater).mpr h⟩

theorem lookup_storeChunk
    (m : KnownValidators)
    (chunk : List UInt64 × Nat)
    (validator : UInt64) :
    (storeChunk m chunk).lookup validator =
      if validator ∈ chunk.1 then
        some (UInt64.ofNat chunk.2, UInt64.ofNat chunk.1.length)
      else
        m.lookup validator := by
  obtain ⟨ids, i⟩ := chunk
  have hloop : ∀ (x : UInt64 × UInt64) (m : KnownValidators),
      (ids.foldl (fun m v => m.insert v x) m).lookup validator =
        if validator ∈ ids then some x else m.lookup validator := by
    intro x
    induction ids with
    | nil =>
        intro m
        rfl
    | cons v ids ih =>
        intro m
        rw [List.foldl_cons, ih]
        by_cases hv : validator = v
        · subst hv
          simp
        · simp [hv, AList.lookup_insert_ne hv]
  exact hloop _ m

theorem replacementChunks_concat
    (pieces : List (List UInt64))
    (later : List UInt64) :
    replacementChunks (pieces ++ [later]) =
      storeChunk (replacementChunks pieces) (later, pieces.length) := by
  unfold replacementChunks
  rw [List.zipIdx_append, List.foldl_append, Nat.zero_add]
  rfl

/-- A validator is stored with the last piece that holds it. -/
theorem lookup_replacementChunks_iff
    {chunk : UInt64 × UInt64} :
    (replacementChunks pieces).lookup validator = some chunk
      ↔
    ∃ i piece, LastPiece pieces validator i piece ∧
      chunk = (UInt64.ofNat i, UInt64.ofNat piece.length) := by
  induction pieces using List.reverseRecOn with
  | nil =>
      constructor
      · intro h
        cases h
      · rintro ⟨i, piece, h, -⟩
        cases h.get
  | append_singleton pieces later ih =>
      rw [replacementChunks_concat, lookup_storeChunk]
      by_cases hlater : validator ∈ later
      · rw [if_pos hlater]
        simp only [lastPiece_concat_of_mem hlater]
        constructor
        · intro h
          exact ⟨_, _, ⟨rfl, rfl⟩, (Option.some.inj h).symm⟩
        · rintro ⟨i, piece, ⟨rfl, rfl⟩, rfl⟩
          rfl
      · rw [if_neg hlater, ih]
        simp only [lastPiece_concat_of_notMem hlater]

end LastPiece

section Consistency

variable {lib : SliceLibrary UInt64} {l : List UInt64}

/-- A validator is in a chunk. -/
def InChunk (m : KnownValidators) (chunkID validator : UInt64) : Prop :=
  ∃ chunkSize, resolveValidatorChunk m validator = (chunkID, chunkSize, true)

/-- What the chunks of a list of validators are meant to be. -/
structure ConsistentChunks (lib : SliceLibrary UInt64) (l : List UInt64) : Prop where
  perm : ∀ l', l'.Perm l → setKnownValidators lib l' = setKnownValidators lib l
  known : ∀ v, (resolveValidatorChunk (setKnownValidators lib l) v).2.2 = true ↔ v ∈ l
  gapless : ∃ k : Nat, ∀ c,
    (∃ v, InChunk (setKnownValidators lib l) c v) ↔ c.toNat < k
  mono : ∀ v w c d, InChunk (setKnownValidators lib l) c v →
    InChunk (setKnownValidators lib l) d w → v ≤ w → c ≤ d
  sizes : ∀ v c size,
    resolveValidatorChunk (setKnownValidators lib l) v = (c, size, true) →
      {u | InChunk (setKnownValidators lib l) c u}.ncard = size.toNat

/-- Sorting forgets the order. -/
theorem setKnownValidators_perm
    {l' : List UInt64}
    (h : l'.Perm l) :
    setKnownValidators lib l' = setKnownValidators lib l := by
  have hsort : l'.mergeSort (· ≤ ·) = l.mergeSort (· ≤ ·) := by
    refine List.Perm.eq_of_pairwise' (List.pairwise_mergeSort' (· ≤ ·) l')
      (List.pairwise_mergeSort' (· ≤ ·) l) ?_
    exact ((List.mergeSort_perm l' _).trans h).trans (List.mergeSort_perm l _).symm
  unfold setKnownValidators chunkedValidators
  rw [hsort]

variable (hlib : lib.Lawful)
include hlib

theorem isChunking_chunkedValidators
    (l : List UInt64) :
    IsChunking defaultAttestationSyncChunkSize (l.mergeSort (· ≤ ·))
      (chunkedValidators lib l) := by
  exact hlib.chunkSlice_isChunking _ _ (by decide)

theorem perm_flatten_chunkedValidators
    (l : List UInt64) :
    (chunkedValidators lib l).flatten.Perm l := by
  rw [(isChunking_chunkedValidators hlib l).flatten_eq]
  exact List.mergeSort_perm l _

theorem length_chunkedValidators_le
    (l : List UInt64) :
    (chunkedValidators lib l).length ≤ l.length := by
  have hle := (isChunking_chunkedValidators hlib l).length_le
  rwa [List.length_mergeSort] at hle

theorem known_iff
    (v : UInt64) :
    (resolveValidatorChunk (setKnownValidators lib l) v).2.2 = true
      ↔
    v ∈ l := by
  rw [← (perm_flatten_chunkedValidators hlib l).mem_iff]
  unfold resolveValidatorChunk setKnownValidators
  cases hlookup : (replacementChunks (chunkedValidators lib l)).lookup v with
  | none =>
      refine iff_of_false Bool.false_ne_true ?_
      intro hmem
      obtain ⟨i, piece, h⟩ := exists_lastPiece hmem
      rw [lookup_replacementChunks_iff.mpr ⟨i, piece, h, rfl⟩] at hlookup
      cases hlookup
  | some chunk =>
      refine iff_of_true rfl ?_
      obtain ⟨i, piece, h, -⟩ := lookup_replacementChunks_iff.mp hlookup
      exact List.mem_flatten.mpr ⟨piece, h.mem_pieces, h.mem⟩

/-- The number of a chunk is the number of a piece. -/
theorem inChunk_iff
    (hlen : l.length < 2 ^ 63)
    {c v : UInt64} :
    InChunk (setKnownValidators lib l) c v
      ↔
    ∃ piece, LastPiece (chunkedValidators lib l) v c.toNat piece := by
  unfold InChunk
  simp only [resolveValidatorChunk_eq_iff]
  constructor
  · rintro ⟨size, h⟩
    obtain ⟨i, piece, hlast, hchunk⟩ := lookup_replacementChunks_iff.mp h
    have hi : (UInt64.ofNat i).toNat = i := by
      have hlt := hlast.lt_length
      have hle := length_chunkedValidators_le hlib l
      exact UInt64.toNat_ofNat_of_lt (by rw [UInt64.size]; omega)
    obtain ⟨rfl, -⟩ := Prod.mk.inj hchunk
    rw [hi]
    exact ⟨piece, hlast⟩
  · rintro ⟨piece, hlast⟩
    refine ⟨UInt64.ofNat piece.length, ?_⟩
    refine lookup_replacementChunks_iff.mpr ⟨c.toNat, piece, hlast, ?_⟩
    rw [UInt64.ofNat_toNat]

theorem size_eq
    (hlen : l.length < 2 ^ 63)
    {v c size : UInt64}
    (h : resolveValidatorChunk (setKnownValidators lib l) v = (c, size, true)) :
    ∃ piece, LastPiece (chunkedValidators lib l) v c.toNat piece ∧
      size.toNat = piece.length := by
  obtain ⟨piece, hlast⟩ := (inChunk_iff hlib hlen).mp ⟨size, h⟩
  refine ⟨piece, hlast, ?_⟩
  have hstored := lookup_replacementChunks_iff.mpr ⟨_, _, hlast, rfl⟩
  have hsize := (resolveValidatorChunk_eq_iff.mp h).symm.trans hstored
  have hle := (isChunking_chunkedValidators hlib l).length_piece_le piece hlast.mem_pieces
  obtain ⟨-, rfl⟩ := Prod.mk.inj (Option.some.inj hsize)
  refine UInt64.toNat_ofNat_of_lt ?_
  rw [defaultAttestationSyncChunkSize] at hle
  rw [UInt64.size]
  omega

/-- A validator of a later piece is not below one of an earlier piece. -/
theorem le_of_pieces
    {i j : Nat} {v w : UInt64} {piece later : List UInt64}
    (hij : i < j)
    (hi : (chunkedValidators lib l)[i]? = some piece)
    (hj : (chunkedValidators lib l)[j]? = some later)
    (hv : v ∈ piece)
    (hw : w ∈ later) :
    v ≤ w := by
  have hsorted : (chunkedValidators lib l).flatten.Pairwise (· ≤ ·) := by
    rw [(isChunking_chunkedValidators hlib l).flatten_eq]
    exact List.pairwise_mergeSort' (· ≤ ·) l
  obtain ⟨hilt, rfl⟩ := List.getElem?_eq_some_iff.mp hi
  obtain ⟨hjlt, rfl⟩ := List.getElem?_eq_some_iff.mp hj
  exact List.pairwise_iff_getElem.mp (List.pairwise_flatten.mp hsorted).2 i j hilt hjlt hij
    v hv w hw

theorem inChunk_mono
    (hlen : l.length < 2 ^ 63)
    {v w c d : UInt64}
    (hv : InChunk (setKnownValidators lib l) c v)
    (hw : InChunk (setKnownValidators lib l) d w)
    (hvw : v ≤ w) :
    c ≤ d := by
  obtain ⟨piece, hpiece⟩ := (inChunk_iff hlib hlen).mp hv
  obtain ⟨later, hlater⟩ := (inChunk_iff hlib hlen).mp hw
  rw [UInt64.le_iff_toNat_le]
  by_contra hlt
  have hdc : d.toNat < c.toNat := Nat.lt_of_not_le hlt
  -- the two validators are one, and its last piece is the earlier one
  have hwv := le_of_pieces hlib hdc hlater.get hpiece.get hlater.mem hpiece.mem
  obtain rfl := UInt64.le_antisymm hvw hwv
  exact hlater.last _ _ hdc hpiece.get hpiece.mem

end Consistency

section Repetitions

variable {lib : SliceLibrary UInt64} {l : List UInt64} {i : Nat}

/-- Without repetitions a validator is in one piece. -/
theorem lastPiece_of_nodup
    {pieces : List (List UInt64)}
    (hnodup : pieces.flatten.Nodup)
    {piece : List UInt64} {v : UInt64}
    (hget : pieces[i]? = some piece)
    (hmem : v ∈ piece) :
    LastPiece pieces v i piece := by
  refine ⟨hget, hmem, ?_⟩
  intro j later hij hlater hmem'
  obtain ⟨hilt, rfl⟩ := List.getElem?_eq_some_iff.mp hget
  obtain ⟨hjlt, rfl⟩ := List.getElem?_eq_some_iff.mp hlater
  have hdisjoint := List.pairwise_iff_getElem.mp (List.nodup_flatten.mp hnodup).2
    i j hilt hjlt hij
  exact hdisjoint hmem hmem'

theorem consistent_of_nodup
    (hlib : lib.Lawful)
    (hlen : l.length < 2 ^ 63)
    (hnodup : l.Nodup) :
    ConsistentChunks lib l := by
  have hflat : (chunkedValidators lib l).flatten.Nodup :=
    (perm_flatten_chunkedValidators hlib l).nodup_iff.mpr hnodup
  have hchunking := isChunking_chunkedValidators hlib l
  refine ⟨fun _ => setKnownValidators_perm, known_iff hlib, ?_,
    fun _ _ _ _ => inChunk_mono hlib hlen, ?_⟩
  · refine ⟨(chunkedValidators lib l).length, ?_⟩
    intro c
    simp only [inChunk_iff hlib hlen]
    constructor
    · rintro ⟨v, piece, hlast⟩
      exact hlast.lt_length
    · intro hc
      have hget := List.getElem?_eq_getElem hc
      obtain ⟨v, hv⟩ := List.exists_mem_of_ne_nil _
        (hchunking.ne_nil _ (List.getElem_mem hc))
      exact ⟨v, _, lastPiece_of_nodup hflat hget hv⟩
  · intro v c size h
    obtain ⟨piece, hlast, hsize⟩ := size_eq hlib hlen h
    have hset : {u | InChunk (setKnownValidators lib l) c u} = ↑piece.toFinset := by
      ext u
      rw [Set.mem_ofPred_eq, inChunk_iff hlib hlen, List.coe_toFinset, Set.mem_ofPred_eq]
      constructor
      · rintro ⟨other, hother⟩
        have heq := hother.get.symm.trans hlast.get
        exact Option.some.inj heq ▸ hother.mem
      · intro hu
        exact ⟨piece, lastPiece_of_nodup hflat hlast.get hu⟩
    rw [hset, Set.ncard_coe_finset, hsize]
    exact List.toFinset_card_of_nodup
      ((List.nodup_flatten.mp hflat).1 piece hlast.mem_pieces)

/-- Every piece is in use: the last piece is, and there are no gaps below it. -/
theorem ConsistentChunks.exists_lastPiece
    (hlib : lib.Lawful)
    (hlen : l.length < 2 ^ 63)
    (h : ConsistentChunks lib l)
    (hi : i < (chunkedValidators lib l).length) :
    ∃ v piece, LastPiece (chunkedValidators lib l) v i piece := by
  have hle := length_chunkedValidators_le hlib l
  have hnumber : ∀ j, j < (chunkedValidators lib l).length →
      (UInt64.ofNat j).toNat = j := by
    intro j hj
    exact UInt64.toNat_ofNat_of_lt (by rw [UInt64.size]; omega)
  obtain ⟨k, hk⟩ := h.gapless
  have hlastlt : (chunkedValidators lib l).length - 1 < (chunkedValidators lib l).length := by
    omega
  obtain ⟨v, hv⟩ := List.exists_mem_of_ne_nil _
    ((isChunking_chunkedValidators hlib l).ne_nil _ (List.getElem_mem hlastlt))
  have hused : LastPiece (chunkedValidators lib l) v
      (UInt64.ofNat ((chunkedValidators lib l).length - 1)).toNat
      (chunkedValidators lib l)[(chunkedValidators lib l).length - 1] := by
    rw [hnumber _ hlastlt]
    refine ⟨List.getElem?_eq_getElem hlastlt, hv, ?_⟩
    intro j later hj hget
    have hjlt := (List.getElem?_eq_some_iff.mp hget).1
    omega
  have hbound := (hk _).mp ⟨v, (inChunk_iff hlib hlen).mpr ⟨_, hused⟩⟩
  rw [hnumber _ hlastlt] at hbound
  obtain ⟨u, hu⟩ := (hk (UInt64.ofNat i)).mpr (by rw [hnumber i hi]; omega)
  obtain ⟨piece, hpiece⟩ := (inChunk_iff hlib hlen).mp hu
  rw [hnumber i hi] at hpiece
  exact ⟨u, piece, hpiece⟩

/-- The validators that resolve to a piece are as many as the piece is long, so the piece
has no repetition and none of them is in a later piece. -/
theorem ConsistentChunks.piece_exact
    (hlib : lib.Lawful)
    (hlen : l.length < 2 ^ 63)
    (h : ConsistentChunks lib l)
    {piece : List UInt64}
    (hget : (chunkedValidators lib l)[i]? = some piece) :
    piece.Nodup ∧ ∀ v ∈ piece, LastPiece (chunkedValidators lib l) v i piece := by
  have hi := (List.getElem?_eq_some_iff.mp hget).1
  have hle := length_chunkedValidators_le hlib l
  obtain ⟨c, rfl⟩ : ∃ c : UInt64, c.toNat = i :=
    ⟨UInt64.ofNat i, UInt64.toNat_ofNat_of_lt (by rw [UInt64.size]; omega)⟩
  obtain ⟨v, other, hv⟩ := h.exists_lastPiece hlib hlen hi
  obtain rfl : piece = other := Option.some.inj (hget.symm.trans hv.get)
  obtain ⟨size, hresolve⟩ := (inChunk_iff hlib hlen).mpr ⟨piece, hv⟩
  obtain ⟨other, hother, hsize⟩ := size_eq hlib hlen hresolve
  obtain rfl : piece = other := Option.some.inj (hget.symm.trans hother.get)
  have hsub : {u | InChunk (setKnownValidators lib l) c u} ⊆ ↑piece.toFinset := by
    intro u hu
    obtain ⟨other, hother⟩ := (inChunk_iff hlib hlen).mp hu
    rw [List.coe_toFinset, Set.mem_ofPred_eq]
    exact Option.some.inj (hother.get.symm.trans hget) ▸ hother.mem
  have hcard := h.sizes v c size hresolve
  rw [hsize] at hcard
  have hcount : (piece.toFinset : Set UInt64).ncard ≤
      {u | InChunk (setKnownValidators lib l) c u}.ncard := by
    rw [hcard, Set.ncard_coe_finset]
    exact List.toFinset_card_le piece
  have hall := Set.eq_of_subset_of_ncard_le hsub hcount (Finset.finite_toSet _)
  refine ⟨?_, ?_⟩
  · have hlength : piece.toFinset.card = piece.length := by
      rw [← Set.ncard_coe_finset, ← hall, hcard]
    exact Multiset.coe_nodup.mp (Multiset.toFinset_card_eq_card_iff_nodup.mp hlength)
  · intro u hu
    have hin : InChunk (setKnownValidators lib l) c u := by
      have hmem : u ∈ (piece.toFinset : Set UInt64) := by
        rw [List.coe_toFinset, Set.mem_ofPred_eq]
        exact hu
      rw [← hall] at hmem
      exact hmem
    obtain ⟨other, hother⟩ := (inChunk_iff hlib hlen).mp hin
    obtain rfl : piece = other := Option.some.inj (hget.symm.trans hother.get)
    exact hother

theorem ConsistentChunks.nodup
    (hlib : lib.Lawful)
    (hlen : l.length < 2 ^ 63)
    (h : ConsistentChunks lib l) :
    l.Nodup := by
  rw [← (perm_flatten_chunkedValidators hlib l).nodup_iff, List.nodup_flatten]
  refine ⟨?_, List.pairwise_iff_getElem.mpr ?_⟩
  · intro piece hpiece
    obtain ⟨i, hget⟩ := List.mem_iff_getElem?.mp hpiece
    exact (h.piece_exact hlib hlen hget).1
  · intro i j hi hj hij v hv hv'
    have hlast := (h.piece_exact hlib hlen (List.getElem?_eq_getElem hi)).2 v hv
    exact hlast.last j _ hij (List.getElem?_eq_getElem hj) hv'

/-- The chunks of a slice of validators are consistent exactly when no validator repeats. -/
theorem chunks_consistent_iff
    (hlib : lib.Lawful)
    (hlen : l.length < 2 ^ 63) :
    ConsistentChunks lib l
      ↔
    l.Nodup := by
  exact ⟨ConsistentChunks.nodup hlib hlen, consistent_of_nodup hlib hlen⟩

theorem chunks_consistent_three :
    ∃ lib : SliceLibrary UInt64, lib.Lawful ∧ ConsistentChunks lib [65, 10, 18] := by
  refine ⟨plainSlices, plainSlices_lawful, ?_⟩
  exact (chunks_consistent_iff plainSlices_lawful (by decide)).mpr (by decide)

/-- A validator that is listed twice is a chunk of two with one member. -/
theorem repeated_validator_inconsistent :
    ∃ lib : SliceLibrary UInt64, lib.Lawful ∧
      resolveValidatorChunk (setKnownValidators lib [5, 5]) 5 = (0, 2, true) ∧
      {u | InChunk (setKnownValidators lib [5, 5]) 0 u} = {5} ∧
      ¬ ConsistentChunks lib [5, 5] := by
  have hpieces : chunkedValidators plainSlices [5, 5] = [[5, 5]] := by
    unfold chunkedValidators
    rw [List.mergeSort_eq_self (· ≤ ·) (by decide)]
    rfl
  have hresolve :
      resolveValidatorChunk (setKnownValidators plainSlices [5, 5]) 5 = (0, 2, true) := by
    unfold setKnownValidators
    rw [hpieces]
    decide
  have hset : {u | InChunk (setKnownValidators plainSlices [5, 5]) 0 u} = {5} := by
    ext u
    rw [Set.mem_ofPred_eq, Set.mem_singleton_iff]
    constructor
    · rintro ⟨size, h⟩
      have hmem := (known_iff plainSlices_lawful u).mp (congrArg (·.2.2) h)
      simpa using hmem
    · rintro rfl
      exact ⟨2, hresolve⟩
  refine ⟨plainSlices, plainSlices_lawful, hresolve, hset, ?_⟩
  intro h
  have hcard := h.sizes 5 0 2 hresolve
  rw [hset, Set.ncard_singleton] at hcard
  exact absurd hcard (by decide)

end Repetitions

end MessageRouter
end OptimumGateway
