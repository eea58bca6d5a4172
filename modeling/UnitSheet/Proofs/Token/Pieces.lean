import UnitSheet.Proofs.Token.Words

set_option autoImplicit false

namespace UnitSheet

inductive EndsOperand : List Char → Prop
  | nil : EndsOperand []
  | paren (rest : List Char) : EndsOperand (')' :: rest)
  | operator {c : Char} {kind : TokenKind} (h : operatorKind? c = some kind) (rest : List Char) :
      EndsOperand (' ' :: c :: rest)

structure IsOperator (c : Char) (kind : TokenKind) : Prop where
  blank : isBlank c = false
  alpha : c.isAlpha = false
  digit : c.isDigit = false
  point : c ≠ '.'
  sign : kind ≠ .plus → kind ≠ .minus → c ≠ '+' ∧ c ≠ '-'
  shown : kind.isWhitespace = false

section
variable {previous : Option TokenKind} {kind : TokenKind} {c : Char} {cs rest : List Char}

theorem isOperator (h : operatorKind? c = some kind) : IsOperator c kind := by
  unfold operatorKind? at h
  split at h <;> cases h <;>
    exact ⟨by decide, by decide, by decide, by decide, by simp, rfl⟩

theorem EndsOperand.isEnd (h : EndsOperand rest) : IsEnd rest := by
  intro c hc
  cases h with
  | nil => cases hc
  | paren => exact .inr (Option.some.inj hc).symm
  | operator => exact .inl (Option.some.inj hc).symm

theorem unitBehind_of_isAlpha (h : ∀ c ∈ (cs.dropWhile isBlank).head?, c.isAlpha = false) :
    unitBehind cs = ([], cs) := by
  have hletters : (Scan.letters (cs.dropWhile isBlank)).1 = [] := (span_of_head h).1
  have hcell : Scan.cell? (cs.dropWhile isBlank) = none := by
    simp [Scan.cell?, hletters]
  have hunit : Scan.unit? (cs.dropWhile isBlank) = none := by
    simp [Scan.unit?, hletters]
  simp only [unitBehind, hcell, hunit]
  rfl

theorem EndsOperand.unitBehind_eq (h : EndsOperand rest) : unitBehind rest = ([], rest) := by
  refine unitBehind_of_isAlpha fun c hc => ?_
  cases h with
  | nil => cases hc
  | paren =>
    have hparen : isBlank ')' = false := by decide
    rw [List.dropWhile_cons, hparen] at hc
    obtain rfl := Option.some.inj hc
    rfl
  | operator h =>
    have hblank : isBlank ' ' = true := by decide
    rw [List.dropWhile_cons, hblank, if_pos rfl, List.dropWhile_cons, (isOperator h).blank] at hc
    obtain rfl := Option.some.inj hc
    exact (isOperator h).alpha

theorem unitBehind_blank (h : IsUnitText cs) (hrest : IsEnd rest) :
    unitBehind (' ' :: (cs ++ rest)) = ([.token .whitespace [' '], .token .unit cs], rest) := by
  obtain ⟨hunit, hcell⟩ := unit?_append h hrest
  have hblank : isBlank ' ' = true := by decide
  obtain ⟨c, tail, rfl, hc⟩ := h.exists_cons
  rw [List.cons_append] at hunit hcell ⊢
  simp only [unitBehind, List.takeWhile_cons, List.dropWhile_cons, hblank, isBlank_of_isAlpha hc,
    hcell, hunit, Bool.false_eq_true, if_true, if_false]
  rfl

theorem pieces_blank (hc : isBlank c = false) :
    pieces previous (' ' :: c :: cs) = .token .whitespace [' '] :: pieces previous (c :: cs) := by
  have hblank : isBlank ' ' = true := by decide
  rw [pieces, firstPieces, if_pos hblank, List.takeWhile_cons, List.dropWhile_cons, hc]
  rfl

theorem lastKind_token (h : kind.isWhitespace = false) (chars : List Char) :
    lastKind previous [.token kind chars] = some kind := by
  cases kind <;> first | rfl | cases h

theorem pieces_operator (h : operatorKind? c = some kind)
    (hnumber : numberAt? previous (c :: cs) = none) :
    pieces previous (c :: cs) = .token kind [c] :: pieces (some kind) cs := by
  have hfirst : firstPieces previous c cs = ([.token kind [c]], cs) := by
    rw [firstPieces, if_neg (by rw [(isOperator h).blank]; decide), hnumber]
    dsimp only
    rw [h]
  rw [pieces, hfirst, lastKind_token (isOperator h).shown]
  rfl

theorem numberAt?_operator (h : operatorKind? c = some kind)
    (hsign : signFollows previous = true → kind ≠ .plus ∧ kind ≠ .minus) :
    numberAt? previous (c :: cs) = none := by
  have hoperator := isOperator h
  refine if_neg ?_
  cases hfollows : signFollows previous with
  | false => simp [hoperator.digit, hoperator.point]
  | true =>
    obtain ⟨hplus, hminus⟩ := hsign hfollows
    simp [hoperator.digit, hoperator.point, hoperator.sign hplus hminus]

theorem toNat_of_isNameStart (h : isNameStart c = true) : 65 ≤ c.toNat ∧ c.toNat ≤ 122 := by
  rcases Bool.or_eq_true_iff.1 h with h | h
  · exact toNat_of_isAlpha h
  · rw [beq_iff_eq.1 h]
    decide

theorem isDecimalDigit_of_isNameStart (h : isNameStart c = true) : isDecimalDigit c = false := by
  rcases Bool.or_eq_true_iff.1 h with h | h
  · exact isDecimalDigit_of_isAlpha h
  · rw [beq_iff_eq.1 h]
    decide

theorem pieces_word {word : List Char} (hc : isNameStart c = true)
    (hkind : kind.isWhitespace = false)
    (hword : wordAt? (c :: cs) = some (.token kind word, rest)) :
    pieces previous (c :: cs) = .token kind word :: pieces (some kind) rest := by
  have hrange := toNat_of_isNameStart hc
  have hne : ∀ d : Char, d.toNat < 65 → c ≠ d := by
    rintro d hd rfl
    omega
  have hblank : isBlank c = false := isBlank_eq_false (by omega) (by omega)
  have hdigit : c.isDigit = false := by
    cases hdigit : c.isDigit with
    | false => rfl
    | true =>
      have hdecimal := isDecimalDigit_of_isNameStart hc
      rw [isDecimalDigit_of_isDigit hdigit] at hdecimal
      cases hdecimal
  have hnumber : numberAt? previous (c :: cs) = none := by
    refine if_neg ?_
    simp [hdigit, hne '.' (by decide), hne '+' (by decide), hne '-' (by decide)]
  have hnone : operatorKind? c = none := by
    cases hoperator : operatorKind? c with
    | none => rfl
    | some other =>
      rw [isNameStart, (isOperator hoperator).alpha, Bool.false_or, beq_iff_eq] at hc
      subst hc
      cases hoperator
  have hfirst : firstPieces previous c cs = ([.token kind word], rest) := by
    rw [firstPieces, if_neg (by rw [hblank]; decide), hnumber]
    dsimp only
    rw [hnone]
    dsimp only
    rw [hword]
  rw [pieces, hfirst, lastKind_token hkind]
  rfl

theorem pieces_name (h : IsNameText cs) (hrest : IsEnd rest) :
    pieces previous (cs ++ rest) = .token .identifier cs :: pieces (some .identifier) rest := by
  have hword := wordAt?_name h hrest
  obtain ⟨c, tail, hc, -, rfl⟩ := h
  exact pieces_word hc rfl hword

theorem pieces_cell (h : IsCellText cs) (hrest : IsEnd rest) :
    pieces previous (cs ++ rest) = .token .cellRef cs :: pieces (some .cellRef) rest := by
  have hword := wordAt?_cell h hrest
  obtain ⟨c, tail, rfl, hc⟩ := h.exists_cons
  exact pieces_word (by rw [isNameStart, hc, Bool.true_or]) rfl hword

/-- A signed numeral is cut in one piece where a sign may stand, with the unit behind it. -/
theorem pieces_number {n : Numeral} {us : List Piece} {after : List Char} (h : n.IsWritten)
    (sign : Option Bool) (hprevious : signFollows previous = true) (hrest : IsEnd rest)
    (hunit : unitBehind rest = (us, after)) :
    pieces previous (Numeral.signChars sign ++ (n.chars ++ rest)) =
      let lexeme := Numeral.signChars sign ++ n.chars
      let number : Piece := .token (.number (readNumber lexeme)) lexeme
      (number :: us) ++ pieces (lastKind previous (number :: us)) after := by
  have hnumber := number?_chars h sign hrest
  obtain ⟨c, tail, hchars, hblank, hstart⟩ : ∃ c tail,
      Numeral.signChars sign ++ (n.chars ++ rest) = c :: tail ∧ isBlank c = false ∧
        (c.isDigit || c == '.' || ((c == '+' || c == '-') && signFollows previous)) = true := by
    obtain ⟨first, more, hchars, hfirst⟩ := h.exists_cons
    match sign with
    | some true => exact ⟨_, _, rfl, by decide, by rw [hprevious]; rfl⟩
    | some false => exact ⟨_, _, rfl, by decide, by rw [hprevious]; rfl⟩
    | none =>
      exact ⟨first, _, by rw [hchars]; rfl, isBlank_of_isDigit hfirst, by rw [hfirst]; rfl⟩
  rw [hchars] at hnumber ⊢
  have hat : numberAt? previous (c :: tail) = some (Numeral.signChars sign ++ n.chars, rest) := by
    rw [numberAt?, if_pos hstart, hnumber]
  have hfirst : firstPieces previous c tail =
      (.token (.number (readNumber (Numeral.signChars sign ++ n.chars)))
        (Numeral.signChars sign ++ n.chars) :: us, after) := by
    rw [firstPieces, if_neg (by rw [hblank]; decide), hat]
    dsimp only
    rw [hunit]
  rw [pieces, hfirst]

end

def placedTokens (start : Nat) : List Piece → List Token
  | [] => []
  | .stray _ :: ps => placedTokens (start + 1) ps
  | .token kind chars :: ps =>
    ⟨kind, String.ofList chars, start⟩ :: placedTokens (start + chars.length) ps

def placedStrays (start : Nat) : List Piece → List StrayChar
  | [] => []
  | .stray c :: ps => ⟨c, start⟩ :: placedStrays (start + 1) ps
  | .token _ chars :: ps => placedStrays (start + chars.length) ps

def shownTokens (start : Nat) : List Piece → List Token
  | [] => []
  | .stray _ :: ps => shownTokens (start + 1) ps
  | .token kind chars :: ps =>
    if kind.isWhitespace then shownTokens (start + chars.length) ps
    else ⟨kind, String.ofList chars, start⟩ :: shownTokens (start + chars.length) ps

theorem tokens_lex (text : String) : (lex text).tokens = placedTokens 0 (pieces none text.toList) := by
  unfold lex
  dsimp only
  generalize 0 = start
  generalize pieces none text.toList = ps
  induction ps generalizing start with
  | nil => rfl
  | cons p ps ih =>
    cases p with
    | stray c => exact ih (start + 1)
    | token kind chars => exact congrArg _ (ih (start + chars.length))

theorem strays_lex_eq (text : String) :
    (lex text).strays = placedStrays 0 (pieces none text.toList) := by
  unfold lex
  dsimp only
  generalize 0 = start
  generalize pieces none text.toList = ps
  induction ps generalizing start with
  | nil => rfl
  | cons p ps ih =>
    cases p with
    | stray c => exact congrArg _ (ih (start + 1))
    | token kind chars => exact ih (start + chars.length)

theorem placedTokens_append (start : Nat) (ps qs : List Piece) :
    placedTokens start (ps ++ qs) =
      placedTokens start ps ++ placedTokens (start + (ps.flatMap Piece.chars).length) qs := by
  induction ps generalizing start with
  | nil => rfl
  | cons p ps ih =>
    cases p with
    | stray c =>
      rw [List.cons_append, placedTokens, placedTokens, ih, List.flatMap_cons, List.length_append,
        ← Nat.add_assoc]
      rfl
    | token kind chars =>
      rw [List.cons_append, placedTokens, placedTokens, ih, List.flatMap_cons, List.length_append,
        ← Nat.add_assoc]
      rfl

theorem significant_placedTokens (start : Nat) (ps : List Piece) :
    Token.significant (placedTokens start ps) = shownTokens start ps := by
  induction ps generalizing start with
  | nil => rfl
  | cons p ps ih =>
    cases p with
    | stray c => exact ih (start + 1)
    | token kind chars =>
      rw [shownTokens, ← ih, placedTokens, Token.significant, List.filter_cons]
      cases kind <;> rfl

theorem significant_lex (text : String) :
    Token.significant (lex text).tokens = shownTokens 0 (pieces none text.toList) := by
  rw [tokens_lex, significant_placedTokens]

theorem shownTokens_blank (start : Nat) (chars : List Char) (ps : List Piece) :
    shownTokens start (.token .whitespace chars :: ps) = shownTokens (start + chars.length) ps := rfl

theorem shownTokens_token {kind : TokenKind} (h : kind.isWhitespace = false) (start : Nat)
    (chars : List Char) (ps : List Piece) :
    shownTokens start (.token kind chars :: ps) =
      ⟨kind, String.ofList chars, start⟩ :: shownTokens (start + chars.length) ps := by
  rw [shownTokens, h]
  rfl

theorem shownTokens_append (start : Nat) (ps qs : List Piece) :
    shownTokens start (ps ++ qs) =
      shownTokens start ps ++ shownTokens (start + (ps.flatMap Piece.chars).length) qs := by
  simp only [← significant_placedTokens, placedTokens_append, Token.significant, List.filter_append]

theorem stray_mem_of_placedStrays {start : Nat} {ps : List Piece} {s : StrayChar}
    (h : s ∈ placedStrays start ps) : Piece.stray s.char ∈ ps := by
  induction ps generalizing start with
  | nil => cases h
  | cons p ps ih =>
    cases p with
    | stray c =>
      rcases List.mem_cons.1 h with rfl | h
      · exact List.mem_cons_self
      · exact List.mem_cons_of_mem _ (ih h)
    | token kind chars => exact List.mem_cons_of_mem _ (ih h)

theorem strays_lex {text : String} (h : ∀ c, Piece.stray c ∉ pieces none text.toList) :
    (lex text).strays = [] := by
  rw [strays_lex_eq, List.eq_nil_iff_forall_not_mem]
  exact fun s hs => h s.char (stray_mem_of_placedStrays hs)

end UnitSheet
