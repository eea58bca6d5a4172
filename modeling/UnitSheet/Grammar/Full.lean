import UnitSheet.Grammar.Cursor
import UnitSheet.Token.Lexer

set_option autoImplicit false

/-!
The full grammar of formulas.

    Sum     := Product (('+' | '-') Product)*
    Product := Power (('*' | '/') Power)*
    Power   := Signed ['^' Power]
    Signed  := ('+' | '-') Signed | Primary
    Primary := NUMBER [UNIT] | CELL_REF | IDENTIFIER | '(' Sum ')'

Sums and products group to the left, powers to the right. Every reader takes the position at which
an unexpected end is reported.
-/

namespace UnitSheet.Grammar

def sumOp? (t : Token) : Option BinaryOp :=
  match t.kind with
  | .plus | .minus => some (.ofSymbol t.text)
  | _ => none

def productOp? (t : Token) : Option BinaryOp :=
  match t.kind with
  | .star | .slash => some (.ofSymbol t.text)
  | _ => none

def signOp? (t : Token) : Option SignOp :=
  match t.kind with
  | .plus | .minus => some (.ofSymbol t.text)
  | _ => none

def isCaret : TokenKind → Bool
  | .caret => true
  | _ => false

/-- The answer of a reader that may also take no token. -/
abbrev Continuing (ts : List Token) : Type :=
  Except ParseStop (Expr × { rest : List Token // rest.length ≤ ts.length })

mutual

def readSum (stop : Nat) (ts : List Token) : Reading ts Expr :=
  match readProduct stop ts with
  | .error e => .error e
  | .ok (left, ⟨rest, h⟩) =>
    match readSumTail stop left rest with
    | .error e => .error e
    | .ok (expr, ⟨rest', h'⟩) => .ok (expr, ⟨rest', rest_lt h h'⟩)
termination_by (ts.length, 5)

def readSumTail (stop : Nat) (left : Expr) (ts : List Token) : Continuing ts :=
  match ts with
  | [] => .ok (left, ⟨[], Nat.le_refl _⟩)
  | token :: rest =>
    match sumOp? token with
    | none => .ok (left, ⟨token :: rest, Nat.le_refl _⟩)
    | some op =>
      match readProduct stop rest with
      | .error e => .error e
      | .ok (right, ⟨rest', h⟩) =>
        match readSumTail stop (.binary op left right) rest' with
        | .error e => .error e
        | .ok (expr, ⟨rest'', h'⟩) => .ok (expr, ⟨rest'', rest_le_cons h h'⟩)
termination_by (ts.length, 0)

def readProduct (stop : Nat) (ts : List Token) : Reading ts Expr :=
  match readPower stop ts with
  | .error e => .error e
  | .ok (left, ⟨rest, h⟩) =>
    match readProductTail stop left rest with
    | .error e => .error e
    | .ok (expr, ⟨rest', h'⟩) => .ok (expr, ⟨rest', rest_lt h h'⟩)
termination_by (ts.length, 4)

def readProductTail (stop : Nat) (left : Expr) (ts : List Token) : Continuing ts :=
  match ts with
  | [] => .ok (left, ⟨[], Nat.le_refl _⟩)
  | token :: rest =>
    match productOp? token with
    | none => .ok (left, ⟨token :: rest, Nat.le_refl _⟩)
    | some op =>
      match readPower stop rest with
      | .error e => .error e
      | .ok (right, ⟨rest', h⟩) =>
        match readProductTail stop (.binary op left right) rest' with
        | .error e => .error e
        | .ok (expr, ⟨rest'', h'⟩) => .ok (expr, ⟨rest'', rest_le_cons h h'⟩)
termination_by (ts.length, 0)

def readPower (stop : Nat) (ts : List Token) : Reading ts Expr :=
  match readSigned stop ts with
  | .error e => .error e
  | .ok (base, ⟨[], h⟩) => .ok (base, ⟨[], h⟩)
  | .ok (base, ⟨token :: rest, h⟩) =>
    if isCaret token.kind then
      match readPower stop rest with
      | .error e => .error e
      | .ok (exponent, ⟨rest', h'⟩) =>
        .ok (.binary (.ofSymbol token.text) base exponent, ⟨rest', by simp only [List.length_cons] at h; omega⟩)
    else .ok (base, ⟨token :: rest, h⟩)
termination_by (ts.length, 3)
decreasing_by
  · exact Prod.Lex.right _ (by decide)
  · simp only [List.length_cons] at h
    exact Prod.Lex.left _ _ (by omega)

def readSigned (stop : Nat) (ts : List Token) : Reading ts Expr :=
  match ts with
  | [] => readPrimary stop []
  | token :: rest =>
    match signOp? token with
    | none => readPrimary stop (token :: rest)
    | some sign =>
      match readSigned stop rest with
      | .error e => .error e
      | .ok (operand, ⟨rest', h⟩) =>
        .ok (.signed sign operand, ⟨rest', by simp only [List.length_cons]; omega⟩)
termination_by (ts.length, 2)

def readPrimary (stop : Nat) (ts : List Token) : Reading ts Expr :=
  match ts with
  | [] => .error ⟨.unexpectedEnd stop, []⟩
  | token :: rest =>
    match token.kind with
    | .number value =>
      .ok (.literal value (takeUnit rest).1, ⟨(takeUnit rest).2, takeUnit_lt token rest⟩)
    | .cellRef => .ok (.cell token.text, ⟨rest, Nat.lt_succ_self _⟩)
    | .identifier => .ok (.name token.text, ⟨rest, Nat.lt_succ_self _⟩)
    | .leftParen =>
      match readSum stop rest with
      | .error e => .error e
      | .ok (_, ⟨[], _⟩) => .error ⟨.unclosed stop, []⟩
      | .ok (expr, ⟨next :: rest', h⟩) =>
        match next.kind with
        | .rightParen => .ok (expr, ⟨rest', by simp only [List.length_cons] at *; omega⟩)
        | _ => .error ⟨.unclosed next.position, next :: rest'⟩
    | _ => .error ⟨.unexpected token, token :: rest⟩
termination_by (ts.length, 1)

end

def readFormula (ts : List Token) : Except ParseStop Statement :=
  readStatement (readSum (endPosition ts)) ts

def parse (ts : List Token) : Except ParseError Statement :=
  (readFormula (Token.significant ts)).mapError ParseStop.error

/-- The statement that a text writes; stray characters are passed over. -/
def parseText (text : String) : Except ParseError Statement := parse (lex text).tokens

end UnitSheet.Grammar
