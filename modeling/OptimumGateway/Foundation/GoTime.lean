import Mathlib.Algebra.Group.Int.Defs
import Mathlib.Algebra.Group.Nat.Defs
import Mathlib.Tactic.Common

/-!
# Instants and durations

A `Time` is a wall-clock instant in nanoseconds since the Unix epoch, with a reading of
the monotonic clock if it came from `time.Now`.  Two instants are compared and subtracted
by their monotonic readings when both have one.  A duration is an `Int64` of nanoseconds;
a difference that does not fit saturates, and one that fits is exact.
-/

namespace OptimumGateway
namespace Foundation

structure Time where
  nanos : Int
  mono : Option Int
deriving DecidableEq

abbrev Duration := Int64

namespace Duration

def millisecond : Duration := 1000000

def second : Duration := 1000000000

def minute : Duration := 60000000000

end Duration

namespace Time

/-- `time.Unix(sec, 0)`. -/
def unix (sec : Int64) : Time :=
  ⟨sec.toInt * 1000000000, none⟩

/-- January 1 of year 1. -/
def zero : Time :=
  ⟨-62135596800 * 1000000000, none⟩

def isZero (t : Time) : Bool :=
  t.nanos = zero.nanos

/-- The readings by which two instants are compared. -/
def readings (t u : Time) : Int × Int :=
  match t.mono, u.mono with
  | some a, some b => (a, b)
  | _, _ => (t.nanos, u.nanos)

def before (t u : Time) : Bool :=
  (t.readings u).1 < (t.readings u).2

def after (t u : Time) : Bool :=
  (t.readings u).2 < (t.readings u).1

/-- The nearest duration. -/
def saturate (n : Int) : Duration :=
  Int64.ofInt (max (-2 ^ 63) (min n (2 ^ 63 - 1)))

def sub (t u : Time) : Duration :=
  saturate ((t.readings u).1 - (t.readings u).2)

def add (t : Time) (d : Duration) : Time :=
  ⟨t.nanos + d.toInt, t.mono.map (· + d.toInt)⟩

/-- The same instant without a monotonic reading. -/
def utc (t : Time) : Time :=
  ⟨t.nanos, none⟩

def unixMilli (t : Time) : Int64 :=
  Int64.ofInt (t.nanos / 1000000)

def unixSeconds (t : Time) : Int64 :=
  Int64.ofInt (t.nanos / 1000000000)

theorem readings_of_none
    (t : Time)
    {u : Time}
    (h : u.mono = none) :
    t.readings u = (t.nanos, u.nanos) := by
  unfold readings
  rw [h]
  cases t.mono <;> rfl

theorem toInt_saturate
    {n : Int}
    (hlow : -2 ^ 63 ≤ n)
    (hhigh : n < 2 ^ 63) :
    (saturate n).toInt = n := by
  unfold saturate
  rw [Int.min_eq_left (by omega), Int.max_eq_right hlow, Int64.toInt_ofInt_of_le hlow hhigh]

theorem toInt_sub_of_none
    {t u : Time}
    (h : u.mono = none)
    (hlow : -2 ^ 63 ≤ t.nanos - u.nanos)
    (hhigh : t.nanos - u.nanos < 2 ^ 63) :
    (t.sub u).toInt = t.nanos - u.nanos := by
  unfold sub
  rw [readings_of_none t h]
  exact toInt_saturate hlow hhigh

theorem toInt_unixMilli
    {t : Time}
    (hlow : -2 ^ 63 ≤ t.nanos / 1000000)
    (hhigh : t.nanos / 1000000 < 2 ^ 63) :
    t.unixMilli.toInt = t.nanos / 1000000 := by
  exact Int64.toInt_ofInt_of_le hlow hhigh

end Time

end Foundation
end OptimumGateway
