import Mathlib.Logic.Function.Basic
import Mathlib.Tactic.Common

/-!
# Maps whose entries expire

A `TTLMap` keeps, for every key, the value of the latest `put` and the instant
from which the entry no longer counts.  An entry is present for the lifetime
given with its latest `put`, counted from that `put`, and absent afterwards.
Instants and lifetimes are natural numbers in one unit of time.
-/

namespace OptimumGateway
namespace Foundation

/-- A map with expiring entries: the value of a key and its expiry instant. -/
structure TTLMap (K V : Type) where
  entries : K → Option (V × Nat)

namespace TTLMap

variable {K V : Type} [DecidableEq K]

/-- The map without entries. -/
def empty : TTLMap K V :=
  ⟨fun _ => none⟩

/-- The value of a key at the instant `now`. -/
def get (m : TTLMap K V) (now : Nat) (k : K) : Option V :=
  match m.entries k with
  | none => none
  | some (v, expiry) => if now < expiry then some v else none

/-- Store a value under a key for the lifetime `ttl` from the instant `now`. -/
def put (m : TTLMap K V) (now ttl : Nat) (k : K) (v : V) : TTLMap K V :=
  ⟨Function.update m.entries k (some (v, now + ttl))⟩

omit [DecidableEq K] in
@[simp] theorem get_empty
    (now : Nat)
    (k : K) :
    (empty : TTLMap K V).get now k = none := by
  rfl

theorem get_put_self
    (m : TTLMap K V)
    (now ttl later : Nat)
    (k : K)
    (v : V) :
    (m.put now ttl k v).get later k =
      if later < now + ttl then some v else none := by
  simp [put, get]

theorem get_put_of_ne
    (m : TTLMap K V)
    (now ttl later : Nat)
    {k k' : K}
    (v : V)
    (h : k' ≠ k) :
    (m.put now ttl k v).get later k' = m.get later k' := by
  simp [put, get, Function.update_of_ne h]

end TTLMap

end Foundation
end OptimumGateway
