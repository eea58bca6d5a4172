import UnitSheet.Text.Blank
import UnitSheet.Text.Word

set_option autoImplicit false

namespace UnitSheet

inductive LineKind
  | definition
  | expression
  | text
  deriving DecidableEq, Repr

def LineKind.name : LineKind → String
  | definition => "definition"
  | expression => "expression"
  | text => "text"

/-- The line without an equals sign at its end, which asks for the value of what stands before. -/
def trimEquals (text : String) : String :=
  match (stripRight text.toList).reverse with
  | '=' :: before => String.ofList (stripRight before.reverse)
  | _ => text

structure Definition where
  name : String
  formula : String
  deriving DecidableEq, Repr

def isNameStart (c : Char) : Bool := c.isAlpha || c == '_'

def isNameChar (c : Char) : Bool := isNameStart c || c == '\''

def definition? (text : String) : Option Definition :=
  let cs := stripLeft (trimEquals text).toList
  let name := cs.takeWhile isNameChar
  match stripLeft (cs.dropWhile isNameChar) with
  | '=' :: behind =>
    let formula := strip behind
    if (name.head?.map isNameStart).getD false && !formula.isEmpty && !formula.contains '\n' then
      some ⟨String.ofList name, String.ofList formula⟩
    else none
  | _ => none

def words : List Char → List (List Char × List Char)
  | [] => []
  | c :: cs =>
    if isWord c then (c :: cs.takeWhile isWord, cs.dropWhile isWord) :: words (cs.dropWhile isWord)
    else words cs
termination_by cs => cs.length
decreasing_by
  · have := (List.dropWhile_sublist isWord (l := cs)).length_le
    simp only [List.length_cons]
    omega
  · exact Nat.lt_succ_self _

def isCellWord (word : List Char) : Bool :=
  let number := word.dropWhile Char.isUpper
  (word.head?.map Char.isUpper).getD false && number.all Char.isDigit &&
    (number.head?.map (· != '0')).getD false

def isCallWord (word rest : List Char) : Bool :=
  (word.head?.map isNameStart).getD false && (stripLeft rest).head? == some '('

def isOperatorChar (c : Char) : Bool :=
  c == '+' || c == '-' || c == '*' || c == '/' || c == '^'

def lineKind (text : String) : LineKind :=
  let trimmed := trimEquals text
  if (definition? trimmed).isSome then .definition
  else if trimmed.toList.any isOperatorChar ||
      (words trimmed.toList).any fun (word, rest) => isCallWord word rest || isCellWord word then
    .expression
  else .text

end UnitSheet
