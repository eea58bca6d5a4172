import UnitSheet.Number.Decimal
import UnitSheet.Text.Digit

set_option autoImplicit false

namespace UnitSheet

def placePoint (digits : List Char) (places : Nat) : List Char :=
  let padded := List.replicate (places + 1 - digits.length) '0' ++ digits
  padded.take (padded.length - places) ++ '.' :: padded.drop (padded.length - places)

def pointAfterFirst : List Char → List Char
  | first :: second :: rest => first :: '.' :: second :: rest
  | digits => digits

namespace Decimal

def signText (negative : Bool) : List Char := if negative then ['-'] else []

def positional (d : Decimal) : List Char :=
  let digits := Nat.toDigits 10 d.digits
  signText d.negative ++
    if 0 ≤ d.exponent then digits ++ List.replicate d.exponent.toNat '0' ++ ['.', '0']
    else placePoint digits (-d.exponent).toNat

def scientific (d : Decimal) : List Char :=
  let size := Nat.toDigits 10 d.leading.natAbs
  signText d.negative ++ pointAfterFirst (Nat.toDigits 10 d.digits) ++
    'e' :: (if d.leading < 0 then '-' else '+') :: (List.replicate (2 - size.length) '0' ++ size)

def text (d : Decimal) : List Char :=
  if -4 ≤ d.leading ∧ d.leading < 16 then d.positional else d.scientific

/-- The number that starts with an optional sign, has an optional point in its digits, and may end
in a power of ten after an `e`. -/
def ofChars (cs : List Char) : Decimal :=
  let unsigned : List Char → List Char
    | '-' :: rest => rest
    | '+' :: rest => rest
    | rest => rest
  let isMark (c : Char) : Bool := c == 'e' || c == 'E'
  let mantissa := (unsigned cs).takeWhile fun c => !isMark c
  let power := ((unsigned cs).dropWhile fun c => !isMark c).drop 1
  let fraction := (mantissa.dropWhile (· != '.')).drop 1
  let shift : Int := digitsValue (unsigned power)
  { negative := cs.head? == some '-'
    digits := digitsValue (mantissa.takeWhile (· != '.') ++ fraction)
    exponent := (if power.head? == some '-' then -shift else shift) - fraction.length }

end Decimal

def numberText (x : Float) : String :=
  match Binary.ofFloat? x with
  | some b => String.ofList (Decimal.shortest b).text
  | none => if x.isNaN then "nan" else if x < 0 then "-inf" else "inf"

/-- The text of a number in a formula: whole numbers below `10 ^ 15` have no point. -/
def literalText (x : Float) : String :=
  match Binary.ofFloat? x with
  | some b => if b.isWhole && b.whole.natAbs < Nat.pow 10 15 then toString b.whole else numberText x
  | none => numberText x

/-- The double nearest to a written number; commas only group digits. -/
def readNumber (cs : List Char) : Float :=
  (Decimal.ofChars (cs.filter (· != ','))).toFloat

end UnitSheet
