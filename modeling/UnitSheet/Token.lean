set_option autoImplicit false

namespace UnitSheet

inductive TokenKind
  | number (value : Float)
  | unit
  | identifier
  | cellRef
  | plus
  | minus
  | star
  | slash
  | caret
  | equal
  | leftParen
  | rightParen
  | whitespace

namespace TokenKind

def name : TokenKind → String
  | number _ => "NUMBER"
  | unit => "UNIT"
  | identifier => "IDENTIFIER"
  | cellRef => "CELL_REF"
  | plus => "PLUS"
  | minus => "MINUS"
  | star => "STAR"
  | slash => "SLASH"
  | caret => "CARET"
  | equal => "EQUAL"
  | leftParen => "LPAREN"
  | rightParen => "RPAREN"
  | whitespace => "WHITESPACE"

def value? : TokenKind → Option Float
  | number value => some value
  | _ => none

def isWhitespace : TokenKind → Bool
  | whitespace => true
  | _ => false

end TokenKind

/-- A piece of a line. Positions count characters from the start of the line. -/
structure Token where
  kind : TokenKind
  text : String
  position : Nat

namespace Token

def stop (t : Token) : Nat := t.position + t.text.length

def describe (t : Token) : String := s!"{t.kind.name} '{t.text}' at position {t.position}"

def significant (ts : List Token) : List Token := ts.filter fun t => !t.kind.isWhitespace

end Token

end UnitSheet
