import UnitSheet.Number.Binary

set_option autoImplicit false

/-!
Dimension vectors: the exponents of length, mass, time, force and angle, as 64-bit words. A vector
built from words or numbers is brought through doubles, so an exponent beyond `2 ^ 53` loses its
last bits; the vectors of the registered units and of single values are kept as they are.
-/

namespace UnitSheet

/-- The exponents of the five bases. What happens to words that are added, multiplied, or filled from
doubles follows the documentation of an array package, which is no part of the program. -/
structure Dims where
  length : Int64
  mass : Int64
  time : Int64
  force : Int64
  angle : Int64
  deriving DecidableEq, Repr

/-- An integer rounded to 53 significant bits, a tie to the even neighbour. -/
def roundToDouble (n : Int) : Int :=
  if n.natAbs ≤ Nat.pow 2 53 then n
  else
    let unit := Nat.pow 2 (n.natAbs.log2 - 52)
    let size : Int := (roundHalfEven n.natAbs unit * unit : Nat)
    if n < 0 then -size else size

def isWordSized (n : Int) : Bool :=
  decide (Int64.minValue.toInt ≤ n) && decide (n ≤ Int64.maxValue.toInt)

/-- The word of an integer; the smallest word stands for every integer that no word can hold. -/
def wordOfInt (n : Int) : Int64 :=
  if isWordSized n then Int64.ofInt n else Int64.minValue

inductive DimsError
  | wrongCount (count : Nat)
  | notWhole
  deriving DecidableEq, Repr

def DimsError.message : DimsError → String
  | .wrongCount count => s!"Expected 5 dimensions, got ({count},)"
  | .notWhole => "Dimension exponents must be integers"

namespace Dims

def zero : Dims := ⟨0, 0, 0, 0, 0⟩

def map (f : Int64 → Int64) (d : Dims) : Dims :=
  ⟨f d.length, f d.mass, f d.time, f d.force, f d.angle⟩

def map₂ (f : Int64 → Int64 → Int64) (d e : Dims) : Dims :=
  ⟨f d.length e.length, f d.mass e.mass, f d.time e.time, f d.force e.force, f d.angle e.angle⟩

instance : Add Dims := ⟨map₂ (· + ·)⟩

instance : Sub Dims := ⟨map₂ (· - ·)⟩

/-- Every exponent times `n`, wrapping around; `none` if `n` itself is no 64-bit word. -/
def scale? (d : Dims) (n : Int) : Option Dims :=
  if isWordSized n then some (d.map (· * Int64.ofInt n)) else none

/-- The vector after a passage through doubles. -/
def settle (d : Dims) : Dims := d.map fun n => wordOfInt (roundToDouble n.toInt)

def isZero (d : Dims) : Bool := d == zero

def toList (d : Dims) : List Int :=
  [d.length, d.mass, d.time, d.force, d.angle].map Int64.toInt

def ofFloats (xs : List Float) : Except DimsError Dims :=
  match xs with
  | [a, b, c, d, e] =>
    let whole? (x : Float) : Option Int64 :=
      match Binary.ofFloat? x with
      | some n => if n.isWhole then some (wordOfInt n.whole) else none
      | none => none
    match whole? a, whole? b, whole? c, whole? d, whole? e with
    | some a, some b, some c, some d, some e => .ok ⟨a, b, c, d, e⟩
    | _, _, _, _, _ => .error .notWhole
  | _ => .error (.wrongCount xs.length)

def baseNames : List String := ["length", "mass", "time", "force", "angle"]

def describe (d : Dims) : String :=
  let parts := (baseNames.zip d.toList).filterMap fun (name, exponent) =>
    if exponent = 0 then none else some (if exponent = 1 then name else s!"{name}^{exponent}")
  if parts.isEmpty then "dimensionless" else "·".intercalate parts

end Dims

end UnitSheet
