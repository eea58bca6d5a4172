set_option autoImplicit false

namespace UnitSheet

inductive BinaryOp
  | add
  | sub
  | mul
  | div
  | pow
  | other (symbol : String)
  deriving DecidableEq, Repr

namespace BinaryOp

def symbol : BinaryOp → String
  | add => "+"
  | sub => "-"
  | mul => "*"
  | div => "/"
  | pow => "^"
  | other symbol => symbol

def ofSymbol : String → BinaryOp
  | "+" => add
  | "-" => sub
  | "*" => mul
  | "/" => div
  | "^" => pow
  | symbol => other symbol

end BinaryOp

inductive SignOp
  | plus
  | minus
  | other (symbol : String)
  deriving DecidableEq, Repr

namespace SignOp

def symbol : SignOp → String
  | plus => "+"
  | minus => "-"
  | other symbol => symbol

def ofSymbol : String → SignOp
  | "+" => plus
  | "-" => minus
  | symbol => other symbol

end SignOp

inductive Expr
  | literal (value : Float) (unit : Option String)
  | name (name : String)
  | cell (label : String)
  | signed (sign : SignOp) (operand : Expr)
  | binary (op : BinaryOp) (left right : Expr)

/-- A formula, whose value gets the name `target` if there is one. -/
structure Statement where
  target : Option String
  expr : Expr

end UnitSheet
