import UnitSheet.Expr
import UnitSheet.Grammar.Full
import UnitSheet.Line.Normal
import UnitSheet.Quantity.Arithmetic
import UnitSheet.Sheet
import UnitSheet.Store

set_option autoImplicit false

/-!
Values of formulas. Names have the values that lines gave them, or else stand for one of the unit of
that name. A cell label stands for the value of the formula in that cell; the cells under evaluation
are remembered, so a formula that comes back to one of them is refused.
-/

namespace UnitSheet

/-- What names and cell labels mean. -/
structure Scope where
  store : Store
  sheet : Sheet
  addresses : AddressReader

def Scope.empty : Scope := ⟨.empty, .empty, .none⟩

def BinaryOp.apply (op : BinaryOp) (left right : Quantity) : Except Failure Quantity :=
  match op with
  | .add => left.add right
  | .sub => left.subtract right
  | .mul => left.multiply right
  | .div => left.divide right
  | .pow => left.power right
  | .other symbol => .error (.eval (.unknownOperator symbol))

def SignOp.apply (sign : SignOp) (value : Quantity) : Except Failure Quantity :=
  match sign with
  | .plus => .ok value
  | .minus => .ok value.negate
  | .other symbol => .error (.eval (.unknownSign symbol))

def Store.evalName (s : Store) (name : String) : Except Failure Quantity :=
  match s.value? name with
  | some value => .ok value
  | none =>
    if isUnitName name then Quantity.ofUnit 1 (some name)
    else .error (.eval (.unknownName name (hint? name s.names)))

def Expr.evalWith (s : Store) (cell : String → Except Failure Quantity) :
    Expr → Except Failure Quantity
  | literal value unit => Quantity.ofUnit value unit
  | name n => s.evalName n
  | .cell label => cell label
  | signed sign operand =>
    match operand.evalWith s cell with
    | .error failure => .error failure
    | .ok value => sign.apply value
  | binary op left right =>
    match left.evalWith s cell with
    | .error failure => .error failure
    | .ok l =>
      match right.evalWith s cell with
      | .error failure => .error failure
      | .ok r => op.apply l r

/-- The formula that a cell text holds, without a leading equals sign. -/
def cellText (text : String) : String :=
  match (normalize text).toList with
  | '=' :: rest => String.ofList (strip rest)
  | cs => String.ofList cs

theorem cellText_empty : cellText "" = "" := by decide +kernel

def Sheet.formula (sheet : Sheet) (label : String) (a : Address) : Except Failure Statement :=
  match sheet.read a with
  | .error reason => .error (.eval (.cellUnreadable label reason))
  | .ok text =>
    if cellText text = "" then .error (.eval (.cellEmpty label))
    else
      let lexed := lex (cellText text)
      match lexed.strays with
      | stray :: _ => .error (.eval (.cellStray label stray))
      | [] =>
        match Grammar.parse lexed.tokens with
        | .error e => .error (.eval (.cellMalformed label e))
        | .ok statement => .ok statement

theorem Sheet.mem_occupied_of_formula {sheet : Sheet} {label : String} {a : Address}
    {statement : Statement} (h : sheet.formula label a = .ok statement) :
    a ∈ sheet.occupied := by
  unfold Sheet.formula at h
  split at h
  · cases h
  · rename_i text hr
    refine sheet.covers a text hr fun he => ?_
    rw [he, if_pos cellText_empty] at h
    cases h

def cellFailure (label : String) : Failure → Failure
  | .mistake (.eval e) => if e.cellLabel?.isSome then .eval e else .eval (.cellFailed label e)
  | failure => failure

/-- The complaint about a formula that comes back to the cell `a`; the innermost cell is the first
of the stack. -/
def circularFailure (label : String) (stack : List Address) (a : Address) : Failure :=
  match (stack.reverse ++ [a]).mapM Address.label with
  | .ok path => .eval (.circular label path)
  | .error cause => .fault (.column cause)

def Sheet.free (sheet : Sheet) (stack : List Address) : List Address :=
  sheet.occupied.filter fun a => !stack.contains a

theorem length_filter_lt {α : Type} {p q : α → Bool} (h : ∀ x, q x = true → p x = true)
    {x : α} (hp : p x = true) (hq : q x = false) :
    ∀ {xs : List α}, x ∈ xs → (xs.filter q).length < (xs.filter p).length
  | y :: ys, hx => by
    have hle : (ys.filter q).length ≤ (ys.filter p).length := by
      rw [← List.countP_eq_length_filter, ← List.countP_eq_length_filter]
      exact List.countP_mono_left fun x _ => h x
    rcases List.mem_cons.1 hx with rfl | hx'
    · simp only [List.filter_cons, hp, hq, if_true, Bool.false_eq_true, if_false,
        List.length_cons]
      omega
    · have ih := length_filter_lt h hp hq hx'
      by_cases hqy : q y = true
      · simp [hqy, h y hqy, ih]
      · simp only [List.filter_cons, hqy, Bool.false_eq_true, if_false]
        split
        · simp only [List.length_cons]
          omega
        · exact ih

theorem Sheet.free_cons_lt {sheet : Sheet} {stack : List Address} {a : Address}
    (ho : a ∈ sheet.occupied) (hs : stack.contains a = false) :
    (sheet.free (a :: stack)).length < (sheet.free stack).length := by
  refine length_filter_lt (fun x hx => ?_) (x := a) (by simpa using hs) (by simp) ho
  simp only [List.contains_cons, Bool.not_or, Bool.and_eq_true] at hx
  exact hx.2

/-- The value of a cell reference while the cells of the stack are under evaluation. The stack may
hold any number of cells: no limit on the depth of calls ends an evaluation. -/
def Scope.evalCell (s : Scope) (stack : List Address) (label : String) :
    Except Failure Quantity :=
  match s.addresses (upper label) with
  | .error reason => .error (.eval (.cellUnresolved (upper label) reason))
  | .ok none => .error (.eval (.cellInvalid (upper label)))
  | .ok (some a) =>
    if _hs : stack.contains a then .error (circularFailure (upper label) stack a)
    else
      match _hf : s.sheet.formula (upper label) a with
      | .error failure => .error failure
      | .ok statement =>
        match statement.expr.evalWith s.store fun inner => s.evalCell (a :: stack) inner with
        | .error failure => .error (cellFailure (upper label) failure)
        | .ok value => .ok value
termination_by (s.sheet.free stack).length
decreasing_by
  exact Sheet.free_cons_lt (Sheet.mem_occupied_of_formula _hf) (by simpa using _hs)

def Scope.eval (s : Scope) (e : Expr) : Except Failure Quantity :=
  e.evalWith s.store (s.evalCell [])

def Scope.evalText (s : Scope) (text : String) : Except Failure Quantity :=
  match Grammar.parseText text with
  | .error e => .error (.mistake (.parse e))
  | .ok statement => s.eval statement.expr

end UnitSheet
