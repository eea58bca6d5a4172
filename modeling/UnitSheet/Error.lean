import UnitSheet.Dims
import UnitSheet.Suggestion
import UnitSheet.Number.Text
import UnitSheet.Token

set_option autoImplicit false

/-!
What can go wrong with a line. A `CalcError` is the reader's own mistake and is kept on the line; a
`Fault` is a breakdown of the arithmetic itself and stops whoever is at work. Every cause has one
wording, given by its `message`.
-/

namespace UnitSheet

structure StrayChar where
  char : Char
  position : Nat
  deriving DecidableEq, Repr

def StrayChar.message (s : StrayChar) : String :=
  s!"Unrecognized character '{s.char}' at position {s.position}"

inductive ParseError
  | empty
  | unexpectedEnd (position : Nat)
  | unexpected (token : Token)
  | unclosed (position : Nat)
  | nameNotAllowed (name : String) (position : Nat)

namespace ParseError

def message : ParseError → String
  | empty => "Empty expression"
  | unexpectedEnd _ => "Unexpected end of input"
  | unexpected token => s!"Unexpected token: {token.describe}"
  | unclosed position => s!"Expected closing parenthesis ')' at position {position}"
  | nameNotAllowed name position => s!"Unknown identifier '{name}' at position {position}"

def position : ParseError → Nat
  | empty => 0
  | unexpectedEnd position => position
  | unexpected token => token.position
  | unclosed position => position
  | nameNotAllowed _ position => position

end ParseError

inductive UnitError
  /-- The label cannot be read. -/
  | illegible (label : String)
  /-- One of its names is not registered. -/
  | unknown (name : String) (hint : Option String)
  deriving DecidableEq, Repr

namespace UnitError

def message : UnitError → String
  | illegible label => s!"Unknown unit: {label}"
  | unknown name hint => s!"Unknown unit: {name}" ++ hintText hint

def subject : UnitError → String
  | illegible label => label
  | unknown name _ => name

end UnitError

structure Measure where
  dims : Dims
  unit : Option String
  deriving DecidableEq, Repr

def Measure.text (m : Measure) : String :=
  match m.unit with
  | some unit => s!"{m.dims.describe} ({unit})"
  | none => m.dims.describe

inductive UnitMismatch
  | add (left right : Measure)
  | subtract (left right : Measure)
  | exponent (exponent : Measure)
  | fractionalPower (base : Measure) (exponent : Float)
  | display (dims : Dims) (unit : String) (unitDims : Dims)
  | written (left right : Option String)

def UnitMismatch.message : UnitMismatch → String
  | .add left right => s!"Cannot add incompatible units: {left.text} and {right.text}"
  | .subtract left right => s!"Cannot subtract incompatible units: {left.text} and {right.text}"
  | .exponent e => s!"Exponent must be dimensionless, got {e.text}"
  | .fractionalPower base e =>
    s!"Cannot raise {base.text} to the non-integer power {numberText e}"
  | .display dims unit unitDims =>
    s!"Cannot display {dims.describe} in {unit} ({unitDims.describe})"
  | .written left right =>
    let shown (unit : Option String) : String := unit.getD "(none)"
    s!"Unit mismatch: {shown left} vs {shown right}"

inductive EvalError
  | mismatch (cause : UnitMismatch)
  | unit (cause : UnitError)
  | unknownName (name : String) (hint : Option String)
  | divisionByZero
  | overflow
  | notReal (base exponent : Float)
  | exponentNotFinite (exponent : Float)
  | exponentTooLarge (exponent : Float)
  | unknownOperator (symbol : String)
  | unknownSign (symbol : String)
  | operatorNotAllowed (symbol : String)
  | nodeNotAllowed (node : String)
  /-- The label could not be turned into an address; `reason` is what the address reader says. -/
  | cellUnresolved (label reason : String)
  | cellInvalid (label : String)
  /-- The cell could not be read; `reason` is what the sheet says. -/
  | cellUnreadable (label reason : String)
  | cellEmpty (label : String)
  | cellStray (label : String) (cause : StrayChar)
  | cellMalformed (label : String) (cause : ParseError)
  | cellFailed (label : String) (cause : EvalError)
  /-- The cell is still under evaluation; `path` leads from the first cell back to this one. -/
  | circular (label : String) (path : List String)

namespace EvalError

def message : EvalError → String
  | mismatch cause => cause.message
  | unit cause => cause.message
  | unknownName name hint => s!"Unknown identifier '{name}'" ++ hintText hint
  | divisionByZero => "Division by zero"
  | overflow => "Numeric overflow"
  | notReal base exponent => s!"{numberText base} ^ {numberText exponent} is not a real number"
  | exponentNotFinite exponent => s!"Exponent must be finite, got {numberText exponent}"
  | exponentTooLarge exponent =>
    s!"Exponent {numberText exponent} is too large for a value with units"
  | unknownOperator symbol => s!"Unknown operator: {symbol}"
  | unknownSign symbol => s!"Unknown unary operator: {symbol}"
  | operatorNotAllowed symbol => s!"Unsupported operator in restricted grammar: {symbol}"
  | nodeNotAllowed node => s!"Unsupported node in restricted grammar: {node}"
  | cellUnresolved label reason => s!"Cannot resolve cell {label}: {reason}"
  | cellInvalid label => s!"Invalid cell reference: {label}"
  | cellUnreadable label reason => s!"Cannot read cell {label}: {reason}"
  | cellEmpty label => s!"Cell {label} is empty"
  | cellStray label cause => s!"Cannot parse cell {label}: {cause.message}"
  | cellMalformed label cause => s!"Cannot parse cell {label}: {cause.message}"
  | cellFailed label cause => s!"Cell {label} failed: {cause.message}"
  | circular _ path => "Circular cell reference: " ++ " -> ".intercalate path

/-- The label of the cell reference that failed, if the error is about one. -/
def cellLabel? : EvalError → Option String
  | cellUnresolved label _ | cellInvalid label | cellUnreadable label _ | cellEmpty label
  | cellStray label _ | cellMalformed label _ | cellFailed label _ | circular label _ => some label
  | _ => none

end EvalError

inductive CalcError
  | stray (cause : StrayChar)
  | parse (cause : ParseError)
  | eval (cause : EvalError)

def CalcError.message : CalcError → String
  | .stray cause => cause.message
  | .parse cause => cause.message
  | .eval cause => cause.message

inductive ColumnError
  | negative (index : Int)
  /-- Columns end with `ZZZ`; `number` counts from one. -/
  | beyondLast (number : Int)
  deriving DecidableEq, Repr

def ColumnError.message : ColumnError → String
  | .negative index => s!"Invalid column index: {index}"
  | .beyondLast number => s!"Invalid column index {number}"

/-- A breakdown that no line accounts for. -/
inductive Fault
  /-- A number beyond the largest double or the largest word. -/
  | overflow
  /-- A division by a unit whose size is zero. -/
  | zeroDivision
  | column (cause : ColumnError)
  /-- The preferred units give one name to two dimensions that cancel. -/
  | noDisplayUnit
  deriving DecidableEq, Repr

inductive Failure
  | mistake (error : CalcError)
  | fault (fault : Fault)

namespace Failure

def eval (error : EvalError) : Failure := .mistake (.eval error)

def mismatch (cause : UnitMismatch) : Failure := eval (.mismatch cause)

end Failure

end UnitSheet
