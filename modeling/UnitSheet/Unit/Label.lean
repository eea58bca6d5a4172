import UnitSheet.NameMap
import UnitSheet.Text.Blank
import UnitSheet.Text.Digit

set_option autoImplicit false

/-!
Unit labels. A label is a product of powers of unit names, with at most one fraction bar, such as
`kip·ft/in^2`. Reading it gives an exponent for each name, writing gives it back; products,
quotients and powers of labels are sums, differences and multiples of exponents.
-/

namespace UnitSheet

structure UnitPower where
  name : String
  power : Int
  deriving DecidableEq, Repr

def isAsciiLetter (c : Char) : Bool := c.isAlpha

def UnitPower.ofChars? (cs : List Char) : Option UnitPower :=
  let name := String.ofList (cs.takeWhile isAsciiLetter)
  let isNumeral (ds : List Char) : Bool := !ds.isEmpty && ds.all isDecimalDigit
  if name = "" then none
  else match cs.dropWhile isAsciiLetter with
    | [] => some ⟨name, 1⟩
    | '^' :: '-' :: ds => if isNumeral ds then some ⟨name, -(digitsValue ds : Int)⟩ else none
    | '^' :: ds => if isNumeral ds then some ⟨name, digitsValue ds⟩ else none
    | _ => none

def splitAtBreaks (isBreak : Char → Bool) : List Char → List (List Char)
  | [] => [[]]
  | c :: cs =>
    if isBreak c then [] :: splitAtBreaks isBreak cs
    else match splitAtBreaks isBreak cs with
      | piece :: pieces => (c :: piece) :: pieces
      | [] => [[c]]

def productParts (cs : List Char) : List (List Char) :=
  ((splitAtBreaks (fun c => c == '·' || c == '*') cs).map strip).filter
    fun part => !part.isEmpty && part != ['1']

def labelNumerator (label : String) : List Char := label.toList.takeWhile (· != '/')

def labelDenominator (label : String) : List Char := (label.toList.dropWhile (· != '/')).drop 1

def labelParts (label : String) : List (List Char × Int) :=
  (productParts (labelNumerator label)).map (·, 1) ++
    (productParts (labelDenominator label)).map (·, -1)

abbrev UnitExponents := NameMap Int

namespace UnitExponents

def add (m : UnitExponents) (name : String) (power : Int) : UnitExponents :=
  m.set name ((m.get? name).getD 0 + power)

def nonzero (m : UnitExponents) : UnitExponents := m.filter fun _ power => power != 0

/-- The exponents that a label writes, without zeros; `none` if a factor cannot be read. An exponent
may have any number of digits, as in `digitsValue`. -/
def ofLabel? (label : String) : Option UnitExponents :=
  let enter (m : UnitExponents) (part : List Char × Int) : Option UnitExponents :=
    (UnitPower.ofChars? part.1).map fun u => add m u.name (u.power * part.2)
  ((labelParts label).foldlM enter NameMap.empty).map nonzero

def powerText (name : String) (power : Int) : String :=
  if power = 1 then name else s!"{name}^{power}"

def toLabel? (m : UnitExponents) : Option String :=
  let above := (m.entries.filter fun e => 0 < e.2).map fun e => powerText e.1 e.2
  let below := (m.entries.filter fun e => e.2 < 0).map fun e => powerText e.1 (-e.2)
  if above.isEmpty && below.isEmpty then none
  else
    let product := "·".intercalate above
    let top := if product.isEmpty then "1" else product
    some (if below.isEmpty then top else top ++ "/" ++ "·".intercalate below)

def combine (m : UnitExponents) (sign : Int) (other : UnitExponents) : UnitExponents :=
  nonzero (other.entries.foldl (fun acc e => add acc e.1 (sign * e.2)) m)

def scale (m : UnitExponents) (n : Int) : UnitExponents := m.mapValues (· * n)

end UnitExponents

end UnitSheet
