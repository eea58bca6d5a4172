import UnitSheet.Quantity.Arithmetic

set_option autoImplicit false

namespace UnitSheet

def dropFractionZeros (cs : List Char) : List Char :=
  ((cs.reverse.dropWhile (· == '0')).dropWhile (· == '.')).reverse

def fixedNumber (b : Binary) : List Char :=
  let digits := Nat.toDigits 10 (roundHalfEven (1000 * b.ratio.1) b.ratio.2)
  Decimal.signText b.negative ++ dropFractionZeros (placePoint digits 3)

def leadingDigits (b : Binary) : Nat × Int :=
  let e := floorLogTen b.ratio.1 b.ratio.2
  let (n, d) := rescale 10 b.ratio.1 b.ratio.2 (e - 3)
  let rounded := roundHalfEven n d
  if rounded = 10000 then (1000, e + 1) else (rounded, e)

def scientificNumber (b : Binary) : List Char :=
  let (digits, e) := leadingDigits b
  Decimal.signText b.negative ++ pointAfterFirst (Nat.toDigits 10 digits) ++
    'e' :: (if e < 0 then '-' else '+') :: Nat.toDigits 10 e.natAbs

/-- The number of a displayed value: up to three decimals from a thousandth to a million, and an
exponent beyond. -/
def displayNumber (x : Float) : String :=
  match Binary.ofFloat? x with
  | none => numberText x
  | some b =>
    if x == 0 then "0"
    else if 1e-3 ≤ x.abs && x.abs < 1e6 then String.ofList (fixedNumber b)
    else String.ofList (scientificNumber b)

inductive StressScale
  | psi
  | pascal
  deriving DecidableEq, Repr

def StressScale.name : StressScale → String
  | psi => "psi/ksi"
  | pascal => "Pa/kPa/MPa"

structure Preferences where
  lengthBase : String := "in"
  forceBase : String := "lb"
  timeBase : String := "s"
  stressScale : StressScale := .psi
  deriving DecidableEq, Repr

structure UnknownSystem where
  name : String
  deriving DecidableEq, Repr

def UnknownSystem.message (e : UnknownSystem) : String := s!"Unknown unit system: {e.name}"

namespace Preferences

def forSystem : String → Except UnknownSystem Preferences
  | "imperial_in" => .ok ⟨"in", "lb", "s", .psi⟩
  | "imperial_ft" => .ok ⟨"ft", "lb", "s", .psi⟩
  | "metric_mm" => .ok ⟨"mm", "N", "s", .pascal⟩
  | "metric_m" => .ok ⟨"m", "N", "s", .pascal⟩
  | name => .error ⟨name⟩

end Preferences

structure Displayed where
  value : Float
  unit : Option String

def convertTo (q : Quantity) (unit : String) : Except Failure Float :=
  match resolveUnit unit with
  | .error failure => .error failure
  | .ok u =>
    if q.dims != u.dims then .error (.mismatch (.display q.dims unit u.dims))
    else if u.factor == 0 then .error (.fault .zeroDivision)
    else .ok (q.magnitude / u.factor)

def displayIn (q : Quantity) (unit : String) : Except Failure Displayed :=
  (convertTo q unit).map fun value => ⟨value, some unit⟩

def displayPsi (q : Quantity) : Except Failure Displayed :=
  (convertTo q "psi").map fun value =>
    if 1000 ≤ value.abs then ⟨value / 1000, some "ksi"⟩ else ⟨value, some "psi"⟩

def displayPascal (q : Quantity) : Displayed :=
  let value := q.magnitude
  if 1000000 ≤ value.abs then ⟨value / 1000000, some "MPa"⟩
  else if 1000 ≤ value.abs then ⟨value / 1000, some "kPa"⟩
  else ⟨value, some "Pa"⟩

def displayPoundMoment (q : Quantity) : Except Failure Displayed :=
  match convertTo q "lb·in" with
  | .error failure => .error failure
  | .ok value =>
    if 1200 ≤ value.abs then displayIn q "lb·ft" else .ok ⟨value, some "lb·in"⟩

def preferredUnit? (p : Preferences) (d : Dims) : Option String :=
  let exponents : UnitExponents := .ofList [(p.lengthBase, d.length.toInt),
    (p.forceBase, d.force.toInt), (p.timeBase, d.time.toInt), ("kg", d.mass.toInt),
    ("rad", d.angle.toInt)]
  exponents.nonzero.toLabel?

def autoDisplay (q : Quantity) (p : Preferences) : Except Failure Displayed :=
  let d := q.dims
  let isForceOnly := d.mass == 0 && d.time == 0 && d.angle == 0 && d.force == 1
  if d.isZero then .ok ⟨q.magnitude, none⟩
  else if isForceOnly && d.length == -2 then
    match p.stressScale with
    | .psi => displayPsi q
    | .pascal => .ok (displayPascal q)
  else if isForceOnly && d.length == 1 then
    if p.forceBase == "lb" then displayPoundMoment q else displayIn q "N·m"
  else
    match preferredUnit? p d with
    | none => .error (.fault .noDisplayUnit)
    | some unit => displayIn q unit

def Displayed.text (d : Displayed) (isDimensionless : Bool) : String :=
  match d.unit with
  | some unit =>
    if isDimensionless then displayNumber d.value else displayNumber d.value ++ "\u2009" ++ unit
  | none => displayNumber d.value

/-- The text of a value in the asked unit, else in its own, else in a chosen one. -/
def displayQuantity (q : Quantity) (asked : Option String) (p : Preferences) :
    Except Failure String :=
  if q.isDimensionless && asked.isNone then .ok (displayNumber q.magnitude)
  else
    let displayed := match asked.or q.unit with
      | some unit => displayIn q unit
      | none => autoDisplay q p
    displayed.map fun d => d.text q.isDimensionless

end UnitSheet
