/-!
# Error values

An error of the source is kept as the call that built it: a plain text, a format
with its arguments, or a format with its arguments that wraps one or two other
errors (`%w`).  Arguments are kept as texts, in the order in which they are passed;
the wrapped errors are not among them.
-/

namespace OptimumGateway
namespace Foundation

inductive GoError where
  | new (text : String)
  | errorf (format : String) (args : List String)
  | wrapf (format : String) (args : List String) (err : GoError)
  | wrapf2 (format : String) (args : List String) (err₁ err₂ : GoError)
deriving DecidableEq, Repr

namespace GoError

/-- `errors.Is`: the error, or one that it wraps, is the target. -/
def is : GoError → GoError → Bool
  | .wrapf format args err, target =>
      decide (.wrapf format args err = target) || err.is target
  | .wrapf2 format args err₁ err₂, target =>
      decide (.wrapf2 format args err₁ err₂ = target) || err₁.is target ||
        err₂.is target
  | e, target => decide (e = target)

/-- Wrap an error that may be absent, as `%w` with a nil argument does. -/
def wrapNilable
    (format : String)
    (args : List String) : Option GoError → GoError
  | some err => .wrapf format args err
  | none => .errorf format (args ++ ["%!w(<nil>)"])

end GoError

/-- `os.ErrNotExist`. -/
def errNotExist : GoError :=
  .new "file does not exist"

theorem eq_ok_of_toOption
    {α : Type} {x : Except GoError α} {a : α}
    (h : x.toOption = some a) :
    x = .ok a := by
  cases x with
  | error err => cases h
  | ok b => rw [Option.some.inj h]

end Foundation
end OptimumGateway
