import UnitSheet.Error
import UnitSheet.Text.Blank
import UnitSheet.Token.Scan

set_option autoImplicit false

/-!
From text to tokens. The text is first cut into pieces, each a token or a stray character, which
together are the whole text; then each piece gets its position. A unit label is only looked for
behind a number, and a sign belongs to a number only where no operand stands before it.
-/

namespace UnitSheet

inductive Piece
  | token (kind : TokenKind) (chars : List Char)
  | stray (c : Char)

namespace Piece

def chars : Piece → List Char
  | token _ chars => chars
  | stray c => [c]

end Piece

def signFollows : Option TokenKind → Bool
  | none => true
  | some .plus | some .minus | some .star | some .slash | some .caret | some .equal
  | some .leftParen => true
  | _ => false

def lastKind (previous : Option TokenKind) (pieces : List Piece) : Option TokenKind :=
  pieces.foldl (fun last piece => match piece with
    | .token .whitespace _ => last
    | .token kind _ => some kind
    | .stray _ => last) previous

def operatorKind? : Char → Option TokenKind
  | '+' => some .plus
  | '-' => some .minus
  | '*' => some .star
  | '/' => some .slash
  | '^' => some .caret
  | '=' => some .equal
  | '(' => some .leftParen
  | ')' => some .rightParen
  | _ => none

def numberAt? (previous : Option TokenKind) : List Char → Option (List Char × List Char)
  | [] => none
  | c :: cs =>
    if c.isDigit || c == '.' || ((c == '+' || c == '-') && signFollows previous) then
      Scan.number? (c :: cs)
    else none

/-- The unit behind a number with the blanks before it. Letters that run into digits are a cell
reference and no unit. -/
def unitBehind (cs : List Char) : List Piece × List Char :=
  let blanks := cs.takeWhile isBlank
  let after := cs.dropWhile isBlank
  if (Scan.cell? after).isSome then ([], cs)
  else match Scan.unit? after with
    | none => ([], cs)
    | some (label, rest) =>
      ((if blanks.isEmpty then [] else [.token .whitespace blanks]) ++ [.token .unit label], rest)

theorem unitBehind_append (cs : List Char) :
    (unitBehind cs).1.flatMap Piece.chars ++ (unitBehind cs).2 = cs := by
  unfold unitBehind
  dsimp only
  split
  · rfl
  · split
    · rfl
    · rename_i label rest h
      have hu := (Scan.unit?_append h).1
      have hb : cs.takeWhile isBlank ++ cs.dropWhile isBlank = cs :=
        List.takeWhile_append_dropWhile
      rw [← hu] at hb
      split
      · rename_i he
        rw [List.isEmpty_iff.1 he] at hb
        simpa [Piece.chars] using hb
      · simpa [Piece.chars, List.append_assoc] using hb

def wordAt? : List Char → Option (Piece × List Char)
  | [] => none
  | c :: cs =>
    match Scan.cell? (c :: cs) with
    | some (label, rest) => some (.token .cellRef label, rest)
    | none =>
      if c.isAlpha || c == '_' then
        let tail := Scan.run (fun d => d.isAlpha || d == '_' || d == '\'') cs
        some (.token .identifier (c :: tail.1), tail.2)
      else none

theorem wordAt?_append {cs rest : List Char} {piece : Piece}
    (h : wordAt? cs = some (piece, rest)) : piece.chars ++ rest = cs ∧ piece.chars ≠ [] := by
  unfold wordAt? at h
  split at h
  · cases h
  · split at h
    · rename_i hc
      obtain ⟨rfl, rfl⟩ := Prod.mk.inj (Option.some.inj h)
      exact Scan.cell?_append hc
    · split at h
      · obtain ⟨rfl, rfl⟩ := Prod.mk.inj (Option.some.inj h)
        exact ⟨congrArg _ (Scan.run_append _ _), List.cons_ne_nil _ _⟩
      · cases h

def firstPieces (previous : Option TokenKind) (c : Char) (cs : List Char) :
    List Piece × List Char :=
  if isBlank c then
    ([.token .whitespace (c :: cs.takeWhile isBlank)], cs.dropWhile isBlank)
  else match numberAt? previous (c :: cs) with
    | some (lexeme, rest) =>
      (.token (.number (readNumber lexeme)) lexeme :: (unitBehind rest).1, (unitBehind rest).2)
    | none => match operatorKind? c with
      | some kind => ([.token kind [c]], cs)
      | none => match wordAt? (c :: cs) with
        | some (piece, rest) => ([piece], rest)
        | none => ([.stray c], cs)

theorem numberAt?_append {previous : Option TokenKind} {cs found rest : List Char}
    (h : numberAt? previous cs = some (found, rest)) : found ++ rest = cs ∧ found ≠ [] := by
  unfold numberAt? at h
  split at h
  · cases h
  · split at h
    · exact Scan.number?_append h
    · cases h

theorem firstPieces_append (previous : Option TokenKind) (c : Char) (cs : List Char) :
    (firstPieces previous c cs).1.flatMap Piece.chars ++ (firstPieces previous c cs).2 =
      c :: cs := by
  unfold firstPieces
  split
  · simp [Piece.chars, List.takeWhile_append_dropWhile]
  · split
    · rename_i lexeme rest h
      have hn := (numberAt?_append h).1
      have hu := unitBehind_append rest
      simp only [List.flatMap_cons, Piece.chars, List.append_assoc]
      rw [hu, hn]
    · split
      · rfl
      · split
        · rename_i h
          simpa using (wordAt?_append h).1
        · rfl

theorem firstPieces_length (previous : Option TokenKind) (c : Char) (cs : List Char) :
    (firstPieces previous c cs).2.length < (c :: cs).length := by
  have h := congrArg List.length (firstPieces_append previous c cs)
  rw [List.length_append] at h
  have hpos : 0 < ((firstPieces previous c cs).1.flatMap Piece.chars).length := by
    unfold firstPieces
    split
    · simp [Piece.chars]
    · split
      · rename_i h
        have := List.length_pos_iff.2 (numberAt?_append h).2
        simp only [List.flatMap_cons, Piece.chars, List.length_append]
        omega
      · split
        · simp [Piece.chars]
        · split
          · rename_i h
            simpa using List.length_pos_iff.2 (wordAt?_append h).2
          · simp [Piece.chars]
  omega

def pieces (previous : Option TokenKind) : List Char → List Piece
  | [] => []
  | c :: cs =>
    (firstPieces previous c cs).1 ++
      pieces (lastKind previous (firstPieces previous c cs).1) (firstPieces previous c cs).2
termination_by cs => cs.length
decreasing_by exact firstPieces_length previous c cs

theorem pieces_flatMap_chars (previous : Option TokenKind) (cs : List Char) :
    (pieces previous cs).flatMap Piece.chars = cs := by
  fun_induction pieces previous cs with
  | case1 => rfl
  | case2 previous c cs ih => rw [List.flatMap_append, ih, firstPieces_append]

def positions (start : Nat) : List Piece → List (Nat × Piece)
  | [] => []
  | piece :: rest => (start, piece) :: positions (start + piece.chars.length) rest

structure Lexed where
  tokens : List Token
  strays : List StrayChar

def lex (text : String) : Lexed :=
  let placed := positions 0 (pieces none text.toList)
  { tokens := placed.filterMap fun (position, piece) => match piece with
      | .token kind chars => some ⟨kind, String.ofList chars, position⟩
      | .stray _ => none
    strays := placed.filterMap fun (position, piece) => match piece with
      | .token _ _ => none
      | .stray c => some ⟨c, position⟩ }

end UnitSheet
