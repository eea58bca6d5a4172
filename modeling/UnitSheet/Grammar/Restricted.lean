import UnitSheet.Grammar.Full

set_option autoImplicit false

/-!
The restricted grammar: sums and differences of written quantities.

    Sum  := Term (('+' | '-') Term)*
    Term := NUMBER [UNIT]

A line with a multiplication, division or power is handed on to the full grammar.
-/

namespace UnitSheet.Grammar.Restricted

def readTerm (stop : Nat) (ts : List Token) : Reading ts Expr :=
  match ts with
  | [] => .error ⟨.unexpectedEnd stop, []⟩
  | token :: rest =>
    match token.kind with
    | .number value =>
      .ok (.literal value (takeUnit rest).1, ⟨(takeUnit rest).2, takeUnit_lt token rest⟩)
    | .identifier | .cellRef => .error ⟨.nameNotAllowed token.text token.position, rest⟩
    | _ => .error ⟨.unexpected token, rest⟩

def readSumTail (stop : Nat) (left : Expr) (ts : List Token) : Continuing ts :=
  match ts with
  | [] => .ok (left, ⟨[], Nat.le_refl _⟩)
  | token :: rest =>
    match sumOp? token with
    | none => .ok (left, ⟨token :: rest, Nat.le_refl _⟩)
    | some op =>
      match readTerm stop rest with
      | .error e => .error e
      | .ok (right, ⟨rest', h⟩) =>
        match readSumTail stop (.binary op left right) rest' with
        | .error e => .error e
        | .ok (expr, ⟨rest'', h'⟩) => .ok (expr, ⟨rest'', rest_le_cons h h'⟩)
termination_by ts.length

def readSum (stop : Nat) (ts : List Token) : Reading ts Expr :=
  match readTerm stop ts with
  | .error e => .error e
  | .ok (left, ⟨rest, h⟩) =>
    match readSumTail stop left rest with
    | .error e => .error e
    | .ok (expr, ⟨rest', h'⟩) => .ok (expr, ⟨rest', rest_lt h h'⟩)

inductive Answer
  | parsed (statement : Statement)
  /-- The token is beyond this grammar. -/
  | needsFull (token : Token)
  | failed (error : ParseError)

def Answer.reason (token : Token) : String :=
  s!"'{token.text}' at position {token.position} needs the full grammar"

def isBeyond : TokenKind → Bool
  | .star | .slash | .caret => true
  | _ => false

def parse (ts : List Token) : Answer :=
  let ts := Token.significant ts
  match ts.find? fun token => isBeyond token.kind with
  | some token => .needsFull token
  | none =>
    match readStatement (readSum (endPosition ts)) ts with
    | .ok statement => .parsed statement
    | .error stop => .failed stop.error

end UnitSheet.Grammar.Restricted
