import UnitSheet.Error
import UnitSheet.Text.Blank
import UnitSheet.Text.Quoted
import UnitSheet.Text.Upper

set_option autoImplicit false

namespace UnitSheet

inductive ColumnLabelError
  | notLetters (label : String)
  | beyondLast (label : String)
  deriving DecidableEq, Repr

def ColumnLabelError.message : ColumnLabelError → String
  | .notLetters label => s!"Invalid column label: {quoted label}"
  | .beyondLast label =>
    s!"'{label}' is not a valid column name. Column names are from A to ZZZ"

def columnCount : Nat := 18278

/-- The column number of a label, counted from one: `A` is one and `AA` is 27. Numbers and labels of
columns follow the documentation of a spreadsheet package, which is no part of the program. -/
def columnNumber (letters : List Char) : Nat :=
  letters.foldl (fun n c => 26 * n + (c.toNat - 64)) 0

/-- The label of a column number that counts from one, as the same package documents it; zero has no
letters. -/
def columnLetters (n : Nat) : List Char :=
  if _h : n = 0 then []
  else columnLetters ((n - 1) / 26) ++ [Char.ofNat (65 + (n - 1) % 26)]
termination_by n
decreasing_by omega

def columnIndex (label : String) : Except ColumnLabelError Nat :=
  let cs := label.toList
  if cs.isEmpty || !cs.all Char.isAlpha then .error (.notLetters label)
  else
    let capitals := cs.map Char.toUpper
    if 3 < capitals.length then .error (.beyondLast (String.ofList capitals))
    else .ok (columnNumber capitals - 1)

def columnLabel (index : Int) : Except ColumnError String :=
  if index < 0 then .error (.negative index)
  else if (columnCount : Int) ≤ index then .error (.beyondLast (index + 1))
  else .ok (String.ofList (columnLetters (index.toNat + 1)))

structure Address where
  row : Int
  col : Int
  deriving DecidableEq, Repr

namespace Address

/-- The written form, such as `B12`. The number of a row may have any number of digits, as in
`digitsValue`. -/
def label (a : Address) : Except ColumnError String :=
  (columnLabel a.col).map fun column => column ++ toString (a.row + 1)

def key (a : Address) : String := s!"{a.row}:{a.col}"

/-- Reads an address in either case, with blanks around it. -/
def ofText? (text : String) : Option Address :=
  let cs := (upper (String.ofList (strip text.toList))).toList
  let letters := cs.takeWhile Char.isUpper
  let number := cs.dropWhile Char.isUpper
  if number.all Char.isDigit && (number.head?.map (· != '0')).getD false then
    match columnIndex (String.ofList letters) with
    | .ok col => some ⟨(number.foldl (fun n c => 10 * n + (c.toNat - 48)) 0 : Nat) - 1, col⟩
    | .error _ => none
  else none

end Address

end UnitSheet
