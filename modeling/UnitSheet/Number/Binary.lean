set_option autoImplicit false

/-!
Doubles as exact numbers. A finite double is a significand times a power of two; `Binary.nearest`
goes the other way, from a ratio of natural numbers to the nearest double, a tie to the even
significand.
-/

namespace UnitSheet

/-- `num / den` rounded to the nearest natural number, a tie to the even one. -/
def roundHalfEven (num den : Nat) : Nat :=
  if 2 * (num % den) < den then num / den
  else if den < 2 * (num % den) then num / den + 1
  else num / den + num / den % 2

theorem roundHalfEven_one (n : Nat) : roundHalfEven n 1 = n := by
  simp [roundHalfEven, Nat.mod_one]

def rescale (base num den : Nat) (e : Int) : Nat × Nat :=
  if 0 ≤ e then (num, den * Nat.pow base e.toNat) else (num * Nat.pow base (-e).toNat, den)

def settlePower (base num den : Nat) (guess : Int) : Int :=
  let (n, d) := rescale base num den guess
  if d ≤ n then guess else guess - 1

def floorLogTwo (num den : Nat) : Int :=
  settlePower 2 num den ((num.log2 : Int) - (den.log2 : Int))

def digitCount (n : Nat) : Nat := (Nat.toDigits 10 n).length

def floorLogTen (num den : Nat) : Int :=
  settlePower 10 num den ((digitCount num : Int) - (digitCount den : Int))

/-- A finite double: `± significand * 2 ^ exponent`. -/
structure Binary where
  negative : Bool
  significand : Nat
  exponent : Int
  deriving DecidableEq, Repr

namespace Binary

def infinityBits : Nat := 2047 * Nat.pow 2 52

/-- The bits of the magnitude nearest to `num / den`. Consecutive magnitudes have consecutive bits,
so a significand that rounds up to the next power of two carries into the exponent field. -/
def nearestBits (num den : Nat) : Nat :=
  if num = 0 then 0
  else
    let e := max (-1074) (floorLogTwo num den - 52)
    let (n, d) := rescale 2 num den e
    min infinityBits ((e + 1074).toNat * Nat.pow 2 52 + roundHalfEven n d)

def withSign (negative : Bool) (bits : Nat) : Float :=
  Float.ofBits (UInt64.ofNat (if negative then Nat.pow 2 63 + bits else bits))

def nearest (negative : Bool) (num den : Nat) : Float :=
  withSign negative (nearestBits num den)

def ofFloat? (x : Float) : Option Binary :=
  let bits := x.toBits.toNat
  let field : Nat := bits / Nat.pow 2 52 % 2048
  let fraction : Nat := bits % Nat.pow 2 52
  let negative := decide (Nat.pow 2 63 ≤ bits)
  if field = 2047 then none
  else if field = 0 then some ⟨negative, fraction, -1074⟩
  else some ⟨negative, Nat.pow 2 52 + fraction, (field : Int) - 1075⟩

/-- The rank of a double among all doubles; what is no number has none. Both zeros have the same
rank. -/
def rank? (x : Float) : Option Int :=
  let bits := x.toBits.toNat
  let magnitude : Nat := bits % Nat.pow 2 63
  if infinityBits < magnitude then none
  else some (if Nat.pow 2 63 ≤ bits then -magnitude else magnitude)

def ratio (b : Binary) : Nat × Nat :=
  if 0 ≤ b.exponent then (b.significand * Nat.pow 2 b.exponent.toNat, 1)
  else (b.significand, Nat.pow 2 (-b.exponent).toNat)

def isWhole (b : Binary) : Bool := b.ratio.1 % b.ratio.2 == 0

def whole (b : Binary) : Int :=
  let n : Int := (b.ratio.1 / b.ratio.2 : Nat)
  if b.negative then -n else n

def isOdd (b : Binary) : Bool := b.isWhole && b.whole % 2 != 0

end Binary

def nearestOfInt (n : Int) : Float := Binary.nearest (decide (n < 0)) n.natAbs 1

end UnitSheet
