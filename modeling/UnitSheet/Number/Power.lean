import UnitSheet.Number.Decimal

set_option autoImplicit false

/-!
Powers of doubles. Every special base and exponent is settled by a rule of its own; `Float.pow` only
sees a finite positive base other than one and a finite exponent other than zero.
-/

namespace UnitSheet

inductive PowerIssue
  /-- A negative power of zero. -/
  | zeroBase
  /-- The result is beyond the largest double. -/
  | overflow
  /-- A negative base with a fractional exponent. -/
  | notReal
  deriving DecidableEq, Repr

def isOddWhole (x : Float) : Bool :=
  match Binary.ofFloat? x with
  | some b => b.isOdd
  | none => false

def isWholeFloat (x : Float) : Bool :=
  match Binary.ofFloat? x with
  | some b => b.isWhole
  | none => false

def positivePower (base exponent : Float) : Except PowerIssue Float :=
  if base == 1 then .ok 1
  else
    let value := Float.pow base exponent
    if value.isInf then .error .overflow else .ok value

def power (base exponent : Float) : Except PowerIssue Float :=
  if exponent == 0 then .ok 1
  else if base.isNaN then .ok base
  else if exponent.isNaN then .ok (if base == 1 then 1 else exponent)
  else if exponent.isInf then
    if base.abs == 1 then .ok 1
    else if decide (0 < exponent) == decide (1 < base.abs) then .ok exponent.abs
    else .ok 0
  else if base.isInf then
    if 0 < exponent then .ok (if isOddWhole exponent then base else base.abs)
    else .ok (if isOddWhole exponent && base < 0 then -0 else 0)
  else if base == 0 then
    if exponent < 0 then .error .zeroBase
    else .ok (if isOddWhole exponent then base else 0)
  else if base < 0 then
    match positivePower base.abs exponent with
    | .error issue => .error issue
    | .ok value =>
      if !isWholeFloat exponent then .error .notReal
      else .ok (if isOddWhole exponent then -value else value)
  else positivePower base exponent

end UnitSheet
