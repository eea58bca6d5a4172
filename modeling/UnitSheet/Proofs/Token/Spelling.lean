import UnitSheet.Token.Lexer

set_option autoImplicit false

namespace UnitSheet

deriving instance DecidableEq for TokenKind, Token

def TokenKind.spelling? : TokenKind → Option (List Char)
  | .plus => some ['+']
  | .minus => some ['-']
  | .star => some ['*']
  | .slash => some ['/']
  | .caret => some ['^']
  | .equal => some ['=']
  | .leftParen => some ['(']
  | .rightParen => some [')']
  | .number _ | .unit | .identifier | .cellRef | .whitespace => none

namespace Piece

def IsSpelled : Piece → Prop
  | token kind chars => ∀ cs, kind.spelling? = some cs → chars = cs
  | stray _ => True

theorem isSpelled_of_none {kind : TokenKind} {chars : List Char} (h : kind.spelling? = none) :
    (token kind chars).IsSpelled := by
  intro cs hcs
  rw [h] at hcs
  cases hcs

end Piece

theorem spelling?_of_operatorKind? {c : Char} {kind : TokenKind}
    (h : operatorKind? c = some kind) : kind.spelling? = some [c] := by
  unfold operatorKind? at h
  split at h <;> cases h <;> rfl

inductive Piece.IsFound : Piece → Prop
  | blanks (chars : List Char) : IsFound (.token .whitespace chars)
  | number (value : Float) (chars : List Char) : IsFound (.token (.number value) chars)
  | operator {c : Char} {kind : TokenKind} :
      operatorKind? c = some kind → IsFound (.token kind [c])
  | unit {cs label rest : List Char} :
      Scan.unit? cs = some (label, rest) → IsFound (.token .unit label)
  | word {cs rest : List Char} {p : Piece} : wordAt? cs = some (p, rest) → IsFound p
  | stray (c : Char) : IsFound (.stray c)

theorem isFound_unitBehind (cs : List Char) : ∀ p ∈ (unitBehind cs).1, p.IsFound := by
  intro p hp
  unfold unitBehind at hp
  dsimp only at hp
  split at hp
  · cases hp
  · split at hp
    · cases hp
    · rename_i hunit
      rcases List.mem_append.1 hp with hp | hp
      · split at hp
        · cases hp
        · rw [List.mem_singleton.1 hp]
          exact .blanks _
      · rw [List.mem_singleton.1 hp]
        exact .unit hunit

theorem isFound_firstPieces (previous : Option TokenKind) (c : Char) (cs : List Char) :
    ∀ p ∈ (firstPieces previous c cs).1, p.IsFound := by
  intro p hp
  unfold firstPieces at hp
  split at hp
  · rw [List.mem_singleton.1 hp]
    exact .blanks _
  · split at hp
    · rcases List.mem_cons.1 hp with rfl | hp
      · exact .number _ _
      · exact isFound_unitBehind _ p hp
    · split at hp
      · rename_i hkind
        rw [List.mem_singleton.1 hp]
        exact .operator hkind
      · split at hp
        · rename_i hword
          rw [List.mem_singleton.1 hp]
          exact .word hword
        · rw [List.mem_singleton.1 hp]
          exact .stray c

theorem isFound_pieces (previous : Option TokenKind) (cs : List Char) :
    ∀ p ∈ pieces previous cs, p.IsFound := by
  fun_induction pieces previous cs with
  | case1 => simp
  | case2 previous c cs ih =>
    intro p hp
    rcases List.mem_append.1 hp with hp | hp
    · exact isFound_firstPieces previous c cs p hp
    · exact ih p hp

theorem isSpelled_wordAt? {cs rest : List Char} {p : Piece} (h : wordAt? cs = some (p, rest)) :
    p.IsSpelled := by
  unfold wordAt? at h
  split at h
  · cases h
  · split at h
    · obtain ⟨rfl, -⟩ := Prod.mk.inj (Option.some.inj h)
      exact Piece.isSpelled_of_none rfl
    · split at h
      · obtain ⟨rfl, -⟩ := Prod.mk.inj (Option.some.inj h)
        exact Piece.isSpelled_of_none rfl
      · cases h

theorem Piece.IsFound.isSpelled {p : Piece} (h : p.IsFound) : p.IsSpelled := by
  cases h with
  | blanks | number | unit => exact Piece.isSpelled_of_none rfl
  | operator hkind =>
    intro cs hcs
    rw [spelling?_of_operatorKind? hkind] at hcs
    exact Option.some.inj hcs
  | word hword => exact isSpelled_wordAt? hword
  | stray => trivial

theorem mem_of_mem_positions {start : Nat} {ps : List Piece} {x : Nat × Piece}
    (h : x ∈ positions start ps) : x.2 ∈ ps := by
  induction ps generalizing start with
  | nil => cases h
  | cons p ps ih =>
    rcases List.mem_cons.1 h with rfl | h
    · exact List.mem_cons_self
    · exact List.mem_cons_of_mem _ (ih h)

theorem text_of_mem_lex {text : String} {t : Token} {cs : List Char}
    (ht : t ∈ (lex text).tokens) (hk : t.kind.spelling? = some cs) : t.text = String.ofList cs := by
  obtain ⟨⟨position, p⟩, hp, hsome⟩ := List.mem_filterMap.1 ht
  cases p with
  | stray c => cases hsome
  | token kind chars =>
    obtain rfl := Option.some.inj hsome
    have hfound := isFound_pieces none text.toList _ (mem_of_mem_positions hp)
    exact congrArg String.ofList (hfound.isSpelled cs hk)

end UnitSheet
