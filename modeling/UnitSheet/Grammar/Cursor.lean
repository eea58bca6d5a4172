import UnitSheet.Error
import UnitSheet.Expr

set_option autoImplicit false

namespace UnitSheet

def endPosition (ts : List Token) : Nat :=
  match ts.getLast? with
  | some last => last.stop
  | none => 0

structure ParseStop where
  error : ParseError
  rest : List Token

/-- The answer of a reader on the tokens `ts`: a value and fewer tokens, or an error. -/
abbrev Reading (ts : List Token) (α : Type) : Type :=
  Except ParseStop (α × { rest : List Token // rest.length < ts.length })

def takeUnit : List Token → Option String × List Token
  | ⟨.unit, text, _⟩ :: rest => (some text, rest)
  | ts => (none, ts)

theorem takeUnit_length (ts : List Token) : (takeUnit ts).2.length ≤ ts.length := by
  unfold takeUnit
  split <;> simp

theorem takeUnit_lt (token : Token) (rest : List Token) :
    (takeUnit rest).2.length < (token :: rest).length :=
  Nat.lt_succ_of_le (takeUnit_length rest)

theorem rest_lt {ts rest rest' : List Token} (h : rest.length < ts.length)
    (h' : rest'.length ≤ rest.length) : rest'.length < ts.length :=
  Nat.lt_of_le_of_lt h' h

theorem rest_le_cons {token : Token} {rest rest' rest'' : List Token}
    (h : rest'.length < rest.length) (h' : rest''.length ≤ rest'.length) :
    rest''.length ≤ (token :: rest).length :=
  Nat.le_succ_of_le (Nat.le_of_lt (rest_lt h h'))

def takeTarget : List Token → Option String × List Token
  | first :: second :: rest =>
    match first.kind, second.kind with
    | .identifier, .equal => (some first.text, rest)
    | _, _ => (none, first :: second :: rest)
  | ts => (none, ts)

def readStatement (formula : (ts : List Token) → Reading ts Expr) (ts : List Token) :
    Except ParseStop Statement :=
  match ts with
  | [] => .error ⟨.empty, []⟩
  | first :: rest =>
    match formula (takeTarget (first :: rest)).2 with
    | .error stop => .error stop
    | .ok (expr, ⟨[], _⟩) => .ok ⟨(takeTarget (first :: rest)).1, expr⟩
    | .ok (_, ⟨trailing :: more, _⟩) => .error ⟨.unexpected trailing, trailing :: more⟩

structure Cursor where
  tokens : List Token
  ahead : List Token

namespace Cursor

def ofTokens (ts : List Token) : Cursor := ⟨Token.significant ts, Token.significant ts⟩

def current (c : Cursor) : Nat := c.tokens.length - c.ahead.length

def peek (c : Cursor) : Option Token := c.ahead.head?

def read (c : Cursor) : Except ParseError Token × Cursor :=
  match c.ahead with
  | [] => (.error (.unexpectedEnd (endPosition c.tokens)), c)
  | token :: rest => (.ok token, { c with ahead := rest })

def readIf (c : Cursor) (kinds : List String) : Option Token × Cursor :=
  match c.ahead with
  | [] => (none, c)
  | token :: rest =>
    if kinds.contains token.kind.name then (some token, { c with ahead := rest }) else (none, c)

def readExpr (c : Cursor) (reader : (ts : List Token) → Reading ts Expr) :
    Except ParseError Expr × Cursor :=
  match reader c.ahead with
  | .error stop => (.error stop.error, { c with ahead := stop.rest })
  | .ok (expr, rest) => (.ok expr, { c with ahead := rest.val })

def readAll (c : Cursor) (formula : (ts : List Token) → Reading ts Expr) :
    Except ParseError Statement × Cursor :=
  match readStatement formula c.tokens with
  | .error stop => (.error stop.error, { c with ahead := stop.rest })
  | .ok statement => (.ok statement, { c with ahead := [] })

end Cursor

end UnitSheet
