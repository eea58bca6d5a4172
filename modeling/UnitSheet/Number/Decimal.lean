import UnitSheet.Number.Binary

set_option autoImplicit false

/-!
Decimal numbers: a sign, digits and a power of ten. Reading one rounds its exact value to the
nearest double. The shortest decimal of a double is the one with the fewest digits that reads back
as that double, the nearest of those, an exact tie to the even last digit.
-/

namespace UnitSheet

/-- The number `± digits * 10 ^ exponent`. -/
structure Decimal where
  negative : Bool
  digits : Nat
  exponent : Int
  deriving DecidableEq, Repr

namespace Decimal

/-- The bits of the nearest magnitude. Far outside the range of doubles the answer is settled by
size alone, so a huge exponent costs nothing. -/
def nearestBits (d : Decimal) : Nat :=
  if d.digits = 0 then 0
  else if 400 < d.exponent then Binary.infinityBits
  else if d.exponent < -400 && d.exponent < -(digitCount d.digits : Int) - 400 then 0
  else
    let (n, m) := rescale 10 d.digits 1 (-d.exponent)
    Binary.nearestBits n m

def toFloat (d : Decimal) : Float := Binary.withSign d.negative d.nearestBits

def trim : Nat → Decimal → Decimal
  | 0, d => d
  | fuel + 1, d =>
    if d.digits % 10 = 0 ∧ d.digits ≠ 0 then trim fuel ⟨d.negative, d.digits / 10, d.exponent + 1⟩
    else d

def neighbours (num den : Nat) (e : Int) : List Nat :=
  let (n, d) := rescale 10 num den e
  let low := n / d
  if n % d = 0 then [low]
  else if roundHalfEven n d = low then [low, low + 1]
  else [low + 1, low]

def ofBinary (b : Binary) : Decimal :=
  if 0 ≤ b.exponent then ⟨b.negative, b.significand * Nat.pow 2 b.exponent.toNat, 0⟩
  else ⟨b.negative, b.significand * Nat.pow 5 (-b.exponent).toNat, b.exponent⟩

/-- The nearest decimal of `count` digits whose nearest magnitude has the given bits, if there is
one; the leading digit of `b` has the exponent `lead`. -/
def ofCount? (b : Binary) (bits : Nat) (lead : Int) (count : Nat) : Option Decimal :=
  let e := lead - (count : Int) + 1
  (neighbours b.ratio.1 b.ratio.2 e).findSome? fun digits =>
    let d : Decimal := ⟨b.negative, digits, e⟩
    if d.nearestBits = bits then some d else none

/-- The shortest decimal that reads back as the same double; seventeen digits are always enough. -/
def shortest (b : Binary) : Decimal :=
  if b.significand = 0 then ⟨b.negative, 0, 0⟩
  else
    let bits := Binary.nearestBits b.ratio.1 b.ratio.2
    let lead := floorLogTen b.ratio.1 b.ratio.2
    let d := ((List.range 17).findSome? fun i => ofCount? b bits lead (i + 1)).getD (ofBinary b)
    d.trim (digitCount d.digits)

def leading (d : Decimal) : Int := d.exponent + (digitCount d.digits : Int) - 1

end Decimal

end UnitSheet
