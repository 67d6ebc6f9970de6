import Mathlib.Data.Finset.Insert
import Mathlib.Data.List.Basic
import Mathlib.Data.List.Nodup
import Mathlib.Data.List.Perm.Basic

/-!
# Deduplication by a key

Items are taken one after another.  An item is passed on when its key was not seen before,
and its key is seen from then on.  `firsts key seen xs` are the items of `xs` that are
passed on.

If the items come in groups and the groups in any order, what is passed on depends on the
order in general.  `firsts_order_iff` says when it does not: no item that its group passes
on may share its key with an item of another group.

`firstValue p f z xs` is the value of the first item that satisfies `p`, and `lastValue`
that of the last one; a record whose fields are written only while they are empty holds the
former, one whose fields are always overwritten the latter.
-/

namespace OptimumGateway
namespace Foundation

section FirstSeen

variable {β κ : Type} [DecidableEq κ]

/-- The items whose key is new. -/
def firsts (key : β → κ) : Finset κ → List β → List β
  | _, [] => []
  | seen, x :: xs =>
      if key x ∈ seen then firsts key seen xs
      else x :: firsts key (insert (key x) seen) xs

variable {key : β → κ} {seen : Finset κ} {x : β} {xs ys : List β}

theorem mem_firsts_iff :
    x ∈ firsts key seen xs
      ↔
    key x ∉ seen ∧ ∃ before after, xs = before ++ x :: after ∧ ∀ y ∈ before, key y ≠ key x := by
  induction xs generalizing seen with
  | nil => simp [firsts]
  | cons z xs ih =>
      have hsplit : (∃ before after, z :: xs = before ++ x :: after ∧
            ∀ y ∈ before, key y ≠ key x)
          ↔
          z = x ∨ key z ≠ key x ∧ ∃ before after, xs = before ++ x :: after ∧
            ∀ y ∈ before, key y ≠ key x := by
        constructor
        · intro h
          obtain ⟨before, after, hxs, hbefore⟩ := h
          cases before with
          | nil => exact Or.inl (List.cons.inj hxs).1
          | cons y before =>
              obtain ⟨rfl, htail⟩ := List.cons.inj hxs
              obtain ⟨hz, hbefore⟩ := List.forall_mem_cons.mp hbefore
              exact Or.inr ⟨hz, before, after, htail, hbefore⟩
        · intro h
          rcases h with rfl | ⟨hne, before, after, rfl, hbefore⟩
          · exact ⟨[], xs, rfl, by simp⟩
          · exact ⟨z :: before, after, rfl, List.forall_mem_cons.mpr ⟨hne, hbefore⟩⟩
      rw [hsplit, firsts]
      split
      case isTrue hmem =>
        rw [ih]
        grind
      case isFalse hnot =>
        rw [List.mem_cons, ih]
        grind

theorem mem_firsts_append_iff :
    x ∈ firsts key seen (xs ++ ys)
      ↔
    x ∈ firsts key seen xs ∨ x ∈ firsts key seen ys ∧ ∀ y ∈ xs, key y ≠ key x := by
  induction xs generalizing seen with
  | nil => simp [firsts]
  | cons z xs ih =>
      have hinsert : x ∈ firsts key (insert (key z) seen) ys
          ↔ x ∈ firsts key seen ys ∧ key z ≠ key x := by
        rw [mem_firsts_iff, mem_firsts_iff, Finset.mem_insert]
        grind
      rw [List.cons_append, firsts, firsts]
      split
      case isTrue hmem =>
        have hseen : x ∈ firsts key seen ys → key z ≠ key x := by
          intro hx heq
          rw [heq] at hmem
          exact (mem_firsts_iff.mp hx).1 hmem
        rw [ih, List.forall_mem_cons]
        tauto
      case isFalse hnot =>
        rw [List.mem_cons, List.mem_cons, ih, hinsert, List.forall_mem_cons]
        tauto

section Groups

variable {τ : Type} [DecidableEq τ] {group : τ → List β} {order : List τ} {t : τ}

omit [DecidableEq τ] in
/-- Of the items of a group those are passed on whose keys are not in an earlier group. -/
theorem mem_firsts_flatMap_iff :
    x ∈ firsts key seen (order.flatMap group)
      ↔
    ∃ before t after, order = before ++ t :: after ∧ x ∈ firsts key seen (group t) ∧
      ∀ t' ∈ before, ∀ y ∈ group t', key y ≠ key x := by
  induction order with
  | nil => simp [firsts]
  | cons u order ih =>
      rw [List.flatMap_cons, mem_firsts_append_iff, ih]
      constructor
      · intro h
        rcases h with hu | ⟨⟨before, t, after, rfl, hx, hbefore⟩, hu⟩
        · exact ⟨[], u, order, rfl, hu, by simp⟩
        · exact ⟨u :: before, t, after, rfl, hx, List.forall_mem_cons.mpr ⟨hu, hbefore⟩⟩
      · intro h
        obtain ⟨before, t, after, horder, hx, hbefore⟩ := h
        cases before with
        | nil =>
            obtain ⟨rfl, -⟩ := List.cons.inj horder
            exact Or.inl hx
        | cons u' before =>
            obtain ⟨rfl, rfl⟩ := List.cons.inj horder
            obtain ⟨hu, hbefore⟩ := List.forall_mem_cons.mp hbefore
            exact Or.inr ⟨⟨before, t, after, rfl, hx, hbefore⟩, hu⟩

variable {P : β → Prop} {keys : List τ}

/-- No item with the property `P` that its group passes on shares its key with an item of
another group. -/
def Separate
    (key : β → κ)
    (seen : Finset κ)
    (group : τ → List β)
    (keys : List τ)
    (P : β → Prop) : Prop :=
  ∀ t ∈ keys, ∀ t' ∈ keys, t' ≠ t → ∀ x ∈ firsts key seen (group t), P x →
    ∀ y ∈ group t', key y ≠ key x

omit [DecidableEq τ] in
/-- In separate groups an item is passed on when its group passes it on. -/
theorem Separate.mem_firsts_iff
    (h : Separate key seen group keys P)
    (hnodup : keys.Nodup)
    (horder : order.Perm keys)
    (hP : P x) :
    x ∈ firsts key seen (order.flatMap group)
      ↔
    ∃ t ∈ keys, x ∈ firsts key seen (group t) := by
  rw [mem_firsts_flatMap_iff]
  constructor
  · intro hx
    obtain ⟨before, t, after, rfl, hx, -⟩ := hx
    exact ⟨t, horder.mem_iff.mp (by simp), hx⟩
  · intro hx
    obtain ⟨t, ht, hx⟩ := hx
    obtain ⟨before, after, rfl⟩ := List.append_of_mem (horder.mem_iff.mpr ht)
    refine ⟨before, t, after, rfl, hx, ?_⟩
    intro t' ht' y hy
    have hne : t' ≠ t := by
      have hdisjoint := (List.nodup_append.mp (horder.nodup_iff.mpr hnodup)).2.2
      exact hdisjoint t' ht' t (by simp)
    exact h t ht t' (horder.mem_iff.mp (by simp [ht'])) hne x hx hP y hy

/-- The items with the property `P` that are passed on are the same in every order of the
groups iff the groups are separate. -/
theorem firsts_order_iff
    (owner : β → τ)
    (hnodup : keys.Nodup)
    (howner : ∀ t, ∀ y ∈ group t, owner y = t) :
    (∀ order order' : List τ, order.Perm keys → order'.Perm keys → ∀ x, P x →
        (x ∈ firsts key seen (order.flatMap group) ↔
          x ∈ firsts key seen (order'.flatMap group)))
      ↔
    Separate key seen group keys P := by
  constructor
  · intro h t ht t' ht' hne x hx hP y hy heq
    -- one order starts with the group of `x`, the other with that of `y`
    have hfirst : (t :: keys.erase t).Perm keys := (List.perm_cons_erase ht).symm
    have hsecond : (t' :: keys.erase t').Perm keys := (List.perm_cons_erase ht').symm
    have hpassed : x ∈ firsts key seen ((t :: keys.erase t).flatMap group) :=
      mem_firsts_flatMap_iff.mpr ⟨[], t, keys.erase t, rfl, hx, by simp⟩
    obtain ⟨before, u, after, horder, hu, hbefore⟩ :=
      mem_firsts_flatMap_iff.mp ((h _ _ hfirst hsecond x hP).mp hpassed)
    cases before with
    | nil =>
        obtain ⟨rfl, -⟩ := List.cons.inj horder
        have hgroup : ∀ u, x ∈ firsts key seen (group u) → owner x = u := by
          intro u hu
          obtain ⟨-, before, after, hsplit, -⟩ := Foundation.mem_firsts_iff.mp hu
          exact howner u x (by simp [hsplit])
        exact hne ((hgroup t' hu).symm.trans (hgroup t hx))
    | cons v before =>
        obtain ⟨rfl, -⟩ := List.cons.inj horder
        exact hbefore t' (by simp) y hy heq
  · intro h order order' horder horder' x hP
    rw [h.mem_firsts_iff hnodup horder hP, h.mem_firsts_iff hnodup horder' hP]

end Groups

end FirstSeen

section FirstValue

variable {β γ : Type} {p : β → Bool} {f : β → γ} {z : γ} {x : β} {xs ys : List β}

/-- The value of the first item that satisfies `p`, or `z`. -/
def firstValue (p : β → Bool) (f : β → γ) (z : γ) (xs : List β) : γ :=
  ((xs.find? p).map f).getD z

/-- The value of the last item that satisfies `p`, or `z`. -/
def lastValue (p : β → Bool) (f : β → γ) (z : γ) (xs : List β) : γ :=
  firstValue p f z xs.reverse

theorem firstValue_singleton :
    firstValue p f z [x] = if p x then f x else z := by
  cases hx : p x <;> simp [firstValue, hx]

theorem firstValue_append :
    firstValue p f z (xs ++ ys) =
      if xs.find? p = none then firstValue p f z ys else firstValue p f z xs := by
  rw [firstValue, List.find?_append]
  cases hfound : xs.find? p with
  | none => rw [Option.none_or, if_pos rfl, firstValue]
  | some y => rw [Option.some_or, if_neg (Option.some_ne_none y), firstValue, hfound]

theorem firstValue_of_find?_eq_none
    (h : xs.find? p = none) :
    firstValue p f z xs = z := by
  rw [firstValue, h]
  rfl

/-- A value other than `z` on every item of interest tells whether one was found. -/
theorem firstValue_eq_iff
    (hf : ∀ y ∈ xs, p y → f y ≠ z) :
    firstValue p f z xs = z ↔ xs.find? p = none := by
  constructor
  · intro h
    cases hfound : xs.find? p with
    | none => rfl
    | some y =>
        rw [firstValue, hfound] at h
        exact absurd h (hf y (List.mem_of_find?_eq_some hfound) (List.find?_some hfound))
  · exact firstValue_of_find?_eq_none

/-- One more item counts only if it is the first one of interest. -/
theorem firstValue_concat_of
    (hx : p x = true) :
    firstValue p f z (xs ++ [x]) =
      if xs.find? p = none then f x else firstValue p f z xs := by
  rw [firstValue_append, firstValue_singleton, if_pos hx]

theorem firstValue_concat_of_not
    (hx : p x = false) :
    firstValue p f z (xs ++ [x]) = firstValue p f z xs := by
  rw [firstValue_append, firstValue_singleton, hx, if_neg Bool.false_ne_true]
  split
  · rename_i hnone
    exact (firstValue_of_find?_eq_none hnone).symm
  · rfl

theorem lastValue_concat_of
    (hx : p x = true) :
    lastValue p f z (xs ++ [x]) = f x := by
  simp [lastValue, firstValue, hx]

theorem lastValue_concat_of_not
    (hx : p x = false) :
    lastValue p f z (xs ++ [x]) = lastValue p f z xs := by
  simp [lastValue, firstValue, hx]

end FirstValue

end Foundation
end OptimumGateway
