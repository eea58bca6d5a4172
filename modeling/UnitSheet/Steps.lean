import UnitSheet.Document.Recompute
import UnitSheet.Expr.Printer

set_option autoImplicit false

namespace UnitSheet

inductive Reference
  | name (name : String)
  | cell (label : String)
  deriving DecidableEq, Repr

def Reference.expr : Reference → Expr
  | name n => .name n
  | cell label => .cell label

def Expr.references : Expr → List Reference
  | literal _ _ => []
  | name n => [.name n]
  | cell label => [.cell label]
  | signed _ operand => operand.references
  | binary _ left right => left.references ++ right.references

def firstOccurrences {α : Type} [DecidableEq α] (xs : List α) : List α :=
  xs.foldl (fun seen x => if x ∈ seen then seen else seen ++ [x]) []

structure StepInput where
  name : String
  shown : String
  source : String
  deriving DecidableEq, Repr

structure Steps where
  equation : String
  inputs : List StepInput
  substitution : String
  result : Except CalcError (Quantity × String)

namespace Steps

def settle {α : Type} : Except Failure α → Except Fault (Except CalcError α)
  | .ok value => .ok (.ok value)
  | .error (.mistake error) => .ok (.error error)
  | .error (.fault fault) => .error fault

/-- The name of a reference and where its value comes from. Names that no line defines are no
inputs, such as bare units. -/
def source? (s : Scope) : Reference → Option (String × String)
  | .name n => (s.store.owner? n).map (n, ·)
  | .cell label => some (upper label, upper label)

def valueText (s : Scope) (p : Preferences) (e : Expr) : Except Failure (Quantity × String) :=
  match s.eval e with
  | .error failure => .error failure
  | .ok value => (displayQuantity value none p).map (value, ·)

def addInput (s : Scope) (p : Preferences) (inputs : List StepInput) (r : Reference) :
    Except Fault (List StepInput) :=
  match source? s r with
  | none => .ok inputs
  | some (name, source) =>
    if inputs.any fun i => i.name == name then .ok inputs
    else match settle (valueText s p r.expr) with
      | .error fault => .error fault
      | .ok (.error _) => .ok inputs
      | .ok (.ok (_, shown)) => .ok (inputs ++ [⟨name, shown, source⟩])

def unread (text : String) (error : CalcError) : Steps := ⟨text, [], text, .error error⟩

def ofStatement (s : Scope) (p : Preferences) (statement : Statement) : Except Fault Steps :=
  match (firstOccurrences statement.expr.references).foldlM (addInput s p) [] with
  | .error fault => .error fault
  | .ok inputs =>
    let values := NameMap.ofList (inputs.map fun i => (i.name, i.shown))
    (settle (valueText s p statement.expr)).map fun result =>
      { equation := statement.text
        inputs
        substitution := statement.textWith values
        result }

def ofText (s : Scope) (p : Preferences) (text : String) : Except Fault Steps :=
  let text := preparedText text
  let lexed := lex text
  match lexed.strays with
  | stray :: _ => .ok (unread text (.stray stray))
  | [] =>
    match Grammar.parse lexed.tokens with
    | .error e => .ok (unread text (.parse e))
    | .ok statement => ofStatement s p statement

end Steps

end UnitSheet
