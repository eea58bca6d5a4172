import UnitSheet.Proofs.Token.Spacing

set_option autoImplicit false

namespace UnitSheet

/-- The parts lie one behind the other, the first one at `start`, and together they are the text. -/
inductive Tiles : Nat → List Char → List (Nat × List Char) → Prop
  | nil (start : Nat) : Tiles start [] []
  | cons {start : Nat} {part rest : List Char} {parts : List (Nat × List Char)} :
      part ≠ [] → Tiles (start + part.length) rest parts →
        Tiles start (part ++ rest) ((start, part) :: parts)

def Lexed.parts (l : Lexed) : List (Nat × List Char) :=
  l.tokens.map (fun t => (t.position, t.text.toList)) ++ l.strays.map fun s => (s.position, [s.char])

def inOrder (parts : List (Nat × List Char)) : List (Nat × List Char) :=
  parts.mergeSort fun a b => decide (a.1 ≤ b.1)

def FollowsNumber (before : List Token) (position : Nat) : Prop :=
  ∃ more n value, n.kind = .number value ∧
    ((before = more ++ [n] ∧ position = n.stop) ∨
      ∃ gap, gap.kind = .whitespace ∧ before = more ++ [n, gap] ∧ gap.position = n.stop ∧
        position = gap.stop)

def TokenKind.AwaitsOperand : TokenKind → Prop
  | .plus | .minus | .star | .slash | .caret | .equal | .leftParen => True
  | _ => False

structure StartsNoToken (c : Char) : Prop where
  blank : isBlank c = false
  digit : c.isDigit = false
  operator : operatorKind? c = none
  name : isNameStart c = false

section
variable {start : Nat} {cs : List Char} {parts ps : List (Nat × List Char)}

theorem Tiles.start_le (h : Tiles start cs parts) : ∀ x ∈ parts, start ≤ x.1 := by
  induction h with
  | nil => simp
  | cons hne _ ih =>
    refine List.forall_mem_cons.2 ⟨Nat.le_refl _, fun x hx => ?_⟩
    exact Nat.le_trans (Nat.le_add_right _ _) (ih x hx)

theorem Tiles.pairwise (h : Tiles start cs parts) : parts.Pairwise fun a b => a.1 < b.1 := by
  induction h with
  | nil => exact .nil
  | cons hne htiles ih =>
    refine List.pairwise_cons.2 ⟨fun x hx => ?_, ih⟩
    exact Nat.lt_of_lt_of_le (Nat.lt_add_of_pos_right (List.length_pos_iff.2 hne))
      (htiles.start_le x hx)

/-- Tiles are found again by their positions. -/
theorem Tiles.inOrder_of_perm (h : Tiles start cs parts) (hperm : ps.Perm parts) :
    inOrder ps = parts := by
  have hall := (List.mergeSort_perm ps fun a b => decide (a.1 ≤ b.1)).trans hperm
  have hsorted : (inOrder ps).Pairwise fun a b => a.1 ≤ b.1 := by
    refine (List.pairwise_mergeSort (fun a b c hab hbc => ?_) (fun a b => ?_) ps).imp
      of_decide_eq_true
    · simp only [decide_eq_true_eq] at *
      omega
    · simp only [Bool.or_eq_true, decide_eq_true_eq]
      omega
  refine List.Perm.eq_of_pairwise (fun a b ha hb hab hba => ?_) hsorted
    (h.pairwise.imp Nat.le_of_lt) hall
  by_contra hne
  have hsymm : Std.Symm fun a b : Nat × List Char => a.1 ≠ b.1 := ⟨fun _ _ => Ne.symm⟩
  exact (h.pairwise.imp Nat.ne_of_lt).forall (hall.mem_iff.1 ha) hb hne (Nat.le_antisymm hab hba)

end

section
variable {start : Nat} {ps : List Piece} {before after : List Token} {t : Token}

theorem exists_piece_of_placedTokens (h : placedTokens start ps = before ++ t :: after) :
    ∃ front kind chars back, ps = front ++ .token kind chars :: back ∧
      before = placedTokens start front ∧
      t = ⟨kind, String.ofList chars, start + (front.flatMap Piece.chars).length⟩ := by
  induction ps generalizing start before with
  | nil => simp [placedTokens] at h
  | cons p ps ih =>
    cases p with
    | stray c =>
      obtain ⟨front, kind, chars, back, rfl, rfl, rfl⟩ := ih h
      refine ⟨.stray c :: front, kind, chars, back, rfl, rfl, ?_⟩
      rw [List.flatMap_cons, List.length_append, ← Nat.add_assoc]
      rfl
    | token kind chars =>
      rcases before with _ | ⟨u, before⟩
      · obtain ⟨rfl, -⟩ := List.cons.inj h
        exact ⟨[], kind, chars, ps, rfl, rfl, rfl⟩
      · obtain ⟨rfl, hrest⟩ := List.cons.inj h
        obtain ⟨front, kind', chars', back, rfl, rfl, rfl⟩ := ih hrest
        refine ⟨.token kind chars :: front, kind', chars', back, rfl, rfl, ?_⟩
        rw [List.flatMap_cons, List.length_append, ← Nat.add_assoc]
        rfl

def placedParts (start : Nat) (ps : List Piece) : List (Nat × List Char) :=
  (positions start ps).map fun x => (x.1, x.2.chars)

theorem tiles_placedParts (start : Nat) (hne : ∀ p ∈ ps, p.chars ≠ []) :
    Tiles start (ps.flatMap Piece.chars) (placedParts start ps) := by
  induction ps generalizing start with
  | nil => exact .nil start
  | cons p ps ih =>
    obtain ⟨hp, hps⟩ := List.forall_mem_cons.1 hne
    rw [List.flatMap_cons]
    exact .cons hp (ih _ hps)

theorem perm_placedParts (start : Nat) (ps : List Piece) :
    (Lexed.parts ⟨placedTokens start ps, placedStrays start ps⟩).Perm (placedParts start ps) := by
  unfold Lexed.parts placedParts
  dsimp only
  induction ps generalizing start with
  | nil => exact .nil
  | cons p ps ih =>
    cases p with
    | stray c => exact List.perm_middle.trans ((ih (start + 1)).cons _)
    | token kind chars =>
      rw [placedTokens, List.map_cons, String.toList_ofList]
      exact (ih (start + chars.length)).cons _

end

def laterPieces (previous : Option TokenKind) (c : Char) (cs : List Char) : List Piece :=
  pieces (lastKind previous (firstPieces previous c cs).1) (firstPieces previous c cs).2

/-- What holds of a piece with the pieces around it, wherever it is cut, holds in every text. -/
theorem forall_split_pieces {P : Option TokenKind → List Piece → Piece → List Piece → Prop}
    (hfirst : ∀ previous c cs before p after, (firstPieces previous c cs).1 = before ++ p :: after →
      P previous before p (after ++ laterPieces previous c cs))
    (hlater : ∀ previous first before p after,
      P (lastKind previous first) before p after → P previous (first ++ before) p after)
    (previous : Option TokenKind) (cs : List Char) (before : List Piece) (p : Piece)
    (after : List Piece) (h : pieces previous cs = before ++ p :: after) :
    P previous before p after := by
  fun_induction pieces previous cs generalizing before with
  | case1 => simp at h
  | case2 previous c cs ih =>
    rcases List.append_eq_append_iff.1 h with ⟨more, rfl, hrest⟩ | ⟨more, hcut, hrest⟩
    · exact hlater _ _ _ _ _ (ih more hrest)
    · rcases more with _ | ⟨q, more⟩
      · rw [List.append_nil] at hcut
        have hnil := hlater previous (firstPieces previous c cs).1 [] p after (ih [] hrest.symm)
        rwa [List.append_nil, hcut] at hnil
      · obtain ⟨rfl, rfl⟩ := List.cons.inj hrest
        exact hfirst previous c cs before p more hcut

def EndsInNumber (ps : List Piece) : Prop :=
  ∃ more value lexeme gap, ps = more ++ .token (.number value) lexeme :: gap ∧
    (gap = [] ∨ ∃ blanks, gap = [.token .whitespace blanks])

/-- What the first pieces of a text are, with the pieces before and behind them. A unit is the last one
of them, and it is what the scanner of units finds where it stands. -/
inductive IsCut (previous : Option TokenKind) (c : Char) (cs : List Char) :
    List Piece → Piece → List Piece → Prop
  | blanks (chars : List Char) : IsCut previous c cs [] (.token .whitespace chars) []
  | number {lexeme rest : List Char} (after : List Piece) :
      numberAt? previous (c :: cs) = some (lexeme, rest) →
      IsCut previous c cs [] (.token (.number (readNumber lexeme)) lexeme) after
  | operator {kind : TokenKind} : operatorKind? c = some kind →
      IsCut previous c cs [] (.token kind [c]) []
  | word {p : Piece} {rest : List Char} : wordAt? (c :: cs) = some (p, rest) →
      IsCut previous c cs [] p []
  | stray : isBlank c = false → numberAt? previous (c :: cs) = none → operatorKind? c = none →
      wordAt? (c :: cs) = none → IsCut previous c cs [] (.stray c) []
  | gap (before : List Piece) (chars : List Char) (after : List Piece) :
      IsCut previous c cs before (.token .whitespace chars) after
  | unit {before : List Piece} {label rest : List Char} : EndsInNumber before →
      Scan.unit? (label ++ rest) = some (label, rest) → Scan.cell? (label ++ rest) = none →
      laterPieces previous c cs = pieces (some .unit) rest →
      IsCut previous c cs before (.token .unit label) []

section
variable {previous : Option TokenKind} {c : Char} {cs label lexeme : List Char}
  {before after : List Piece} {p : Piece} {value : Float}

theorem eq_of_singleton_eq {x y : Piece} (h : [x] = before ++ y :: after) :
    before = [] ∧ y = x ∧ after = [] := by
  rcases before with _ | ⟨z, before⟩
  · obtain ⟨rfl, rfl⟩ := List.cons.inj h
    exact ⟨rfl, rfl, rfl⟩
  · have hnil := (List.cons.inj h).2
    simp at hnil

theorem kind_of_wordAt? {rest : List Char} (h : wordAt? cs = some (p, rest)) :
    ∃ word, p = .token .cellRef word ∨ p = .token .identifier word := by
  unfold wordAt? at h
  split at h
  · cases h
  · split at h
    · obtain ⟨rfl, -⟩ := Prod.mk.inj (Option.some.inj h)
      exact ⟨_, .inl rfl⟩
    · split at h
      · obtain ⟨rfl, -⟩ := Prod.mk.inj (Option.some.inj h)
        exact ⟨_, .inr rfl⟩
      · cases h

theorem signFollows_of_numberAt? {rest : List Char}
    (h : numberAt? previous cs = some (c :: lexeme, rest)) (hc : c = '+' ∨ c = '-') :
    signFollows previous = true := by
  obtain ⟨rfl, -⟩ := numberAt?_append h
  rw [List.cons_append, numberAt?] at h
  split at h
  · rename_i hstart
    rcases hc with rfl | rfl
    · simpa using hstart
    · simpa using hstart
  · cases h

theorem isCut_of_firstPieces (h : (firstPieces previous c cs).1 = before ++ p :: after) :
    IsCut previous c cs before p after := by
  cases hc : isBlank c with
  | true =>
    rw [firstPieces_blank hc] at h
    obtain ⟨rfl, rfl, rfl⟩ := eq_of_singleton_eq h
    exact .blanks _
  | false =>
    rcases firstPieces_cases previous hc cs with ⟨lexeme, rest, hnumber, hfirst⟩ |
      ⟨hnumber, ⟨kind, hkind, hfirst⟩ | ⟨hkind, ⟨kind, word, rest, hword, -, hfirst⟩ |
        ⟨hword, hfirst⟩⟩⟩
    · rw [hfirst] at h
      rcases before with _ | ⟨q, before⟩
      · obtain ⟨rfl, -⟩ := List.cons.inj h
        exact .number after hnumber
      · obtain ⟨rfl, hbehind⟩ := List.cons.inj h
        rcases unitBehind_cases rest with ⟨gap, label, rest', heq, hgap, hunit, hcell⟩ | ⟨heq, -⟩
        · have hlater : laterPieces previous c cs = pieces (some .unit) rest' := by
            rw [laterPieces, hfirst, heq, ← List.cons_append, lastKind_append rfl]
          have htext := (Scan.unit?_append hunit).1
          rw [← htext] at hunit hcell
          rw [heq] at hbehind
          rcases hgap with rfl | ⟨chars, rfl⟩
          · obtain ⟨rfl, rfl, rfl⟩ := eq_of_singleton_eq hbehind
            exact .unit ⟨[], _, _, [], rfl, .inl rfl⟩ hunit hcell hlater
          · rcases before with _ | ⟨q, before⟩
            · obtain ⟨rfl, -⟩ := List.cons.inj hbehind
              exact .gap _ chars after
            · obtain ⟨rfl, hlast⟩ := List.cons.inj hbehind
              obtain ⟨rfl, rfl, rfl⟩ := eq_of_singleton_eq hlast
              exact .unit ⟨[], _, _, _, rfl, .inr ⟨chars, rfl⟩⟩ hunit hcell hlater
        · rw [heq] at hbehind
          simp at hbehind
    · rw [hfirst] at h
      obtain ⟨rfl, rfl, rfl⟩ := eq_of_singleton_eq h
      exact .operator hkind
    · rw [hfirst] at h
      obtain ⟨rfl, rfl, rfl⟩ := eq_of_singleton_eq h
      exact .word hword
    · rw [hfirst] at h
      obtain ⟨rfl, rfl, rfl⟩ := eq_of_singleton_eq h
      exact .stray hc hnumber hkind hword

/-- A unit among pieces stands behind a number; it is what the scanner of units finds there, and the
text is cut on behind it. -/
theorem unit_of_pieces (h : pieces previous cs = before ++ .token .unit label :: after) :
    EndsInNumber before ∧ ∃ rest, Scan.unit? (label ++ rest) = some (label, rest) ∧
      Scan.cell? (label ++ rest) = none ∧ after = pieces (some .unit) rest := by
  refine forall_split_pieces
    (P := fun _ before p after => ∀ label, p = .token .unit label → EndsInNumber before ∧
      ∃ rest, Scan.unit? (label ++ rest) = some (label, rest) ∧
        Scan.cell? (label ++ rest) = none ∧ after = pieces (some .unit) rest)
    (fun previous c cs before p after hcut label hp => ?_)
    (fun previous first before p _ hbefore label hp => ?_) previous cs before _ after h label rfl
  · subst hp
    cases isCut_of_firstPieces hcut with
    | unit hends hunit hcell hlater => exact ⟨hends, _, hunit, hcell, hlater⟩
    | operator hkind => cases spelling?_of_operatorKind? hkind
    | word hword => obtain ⟨word, hp | hp⟩ := kind_of_wordAt? hword <;> cases hp
  · obtain ⟨⟨more, value, lexeme, gap, rfl, hgap⟩, hrest⟩ := hbefore label hp
    exact ⟨⟨first ++ more, value, lexeme, gap, by rw [List.append_assoc], hgap⟩, hrest⟩

theorem signFollows_of_number (h : pieces none cs = before ++ .token (.number value) (c :: lexeme) :: after)
    (hc : c = '+' ∨ c = '-') : signFollows (lastKind none before) = true := by
  refine forall_split_pieces
    (P := fun previous before p _ => ∀ value, p = .token (.number value) (c :: lexeme) →
      signFollows (lastKind previous before) = true)
    (fun previous d cs before p after hcut value hp => ?_)
    (fun previous first before p _ hbefore value hp => ?_) none cs before _ after h value rfl
  · subst hp
    cases isCut_of_firstPieces hcut with
    | number _ hnumber => exact signFollows_of_numberAt? hnumber hc
    | operator hkind => cases spelling?_of_operatorKind? hkind
    | word hword => obtain ⟨word, hp | hp⟩ := kind_of_wordAt? hword <;> cases hp
  · rw [lastKind, List.foldl_append]
    exact hbefore value hp

theorem exists_numberAt?_of_isDigit (previous : Option TokenKind) (h : c.isDigit = true)
    (cs : List Char) : ∃ lexeme rest, numberAt? previous (c :: cs) = some (lexeme, rest) := by
  have hsign : Scan.sign (c :: cs) = ([], c :: cs) := by
    unfold Scan.sign
    split
    · rename_i heq
      obtain rfl := (List.cons.inj heq).1
      cases h
    · rename_i heq
      obtain rfl := (List.cons.inj heq).1
      cases h
    · rfl
  simp [numberAt?, h, Scan.number?, hsign, Scan.andThen, Scan.whole, Scan.digits, Scan.run,
    isDecimalDigit_of_isDigit h]

theorem isNameStart_of_wordAt?_eq_none (h : wordAt? (c :: cs) = none) : isNameStart c = false := by
  unfold wordAt? at h
  dsimp only at h
  split at h
  · cases h
  · split at h
    · cases h
    · rename_i hstart
      exact Bool.not_eq_true _ ▸ hstart

theorem startsNoToken_of_stray (h : Piece.stray c ∈ pieces none cs) : StartsNoToken c := by
  obtain ⟨before, after, hsplit⟩ := List.append_of_mem h
  refine forall_split_pieces (P := fun _ _ p _ => ∀ c, p = .stray c → StartsNoToken c)
    (fun previous d cs before p after hcut c hp => ?_)
    (fun _ _ _ _ _ => id) none cs before _ after hsplit c rfl
  subst hp
  cases isCut_of_firstPieces hcut with
  | stray hblank hnumber hoperator hword =>
    refine ⟨hblank, ?_, hoperator, ?_⟩
    · rw [← Bool.not_eq_true]
      intro hdigit
      obtain ⟨_, _, hfound⟩ := exists_numberAt?_of_isDigit _ hdigit _
      rw [hnumber] at hfound
      cases hfound
    · exact isNameStart_of_wordAt?_eq_none hword
  | word hword => obtain ⟨word, hp | hp⟩ := kind_of_wordAt? hword <;> cases hp

theorem chars_ne_nil_of_pieces (previous : Option TokenKind) (cs : List Char) :
    ∀ p ∈ pieces previous cs, p.chars ≠ [] := by
  intro p hp
  obtain ⟨before, after, hsplit⟩ := List.append_of_mem hp
  refine forall_split_pieces (P := fun _ _ p _ => p.chars ≠ [])
    (fun previous c cs before p after hcut => ?_) (fun _ _ _ _ _ => id) previous cs before p after hsplit
  have hmem : p ∈ (firstPieces previous c cs).1 := hcut ▸ by simp
  rcases isClean_firstPieces previous c cs p hmem with hclean | ⟨d, rfl⟩
  · cases hclean with
    | blanks hne => exact hne
    | token hwrites => exact hwrites.isTokenText.ne_nil
  · exact List.cons_ne_nil d []

theorem followsNumber_of_endsInNumber (start : Nat) (h : EndsInNumber before) :
    FollowsNumber (placedTokens start before) (start + (before.flatMap Piece.chars).length) := by
  obtain ⟨more, value, lexeme, gap, rfl, hgap⟩ := h
  refine ⟨placedTokens start more,
    ⟨.number value, String.ofList lexeme, start + (more.flatMap Piece.chars).length⟩, value, rfl, ?_⟩
  rw [placedTokens_append, List.flatMap_append, List.length_append]
  rcases hgap with rfl | ⟨blanks, rfl⟩
  · refine .inl ⟨rfl, ?_⟩
    simp [Token.stop, Piece.chars, Nat.add_assoc]
  · refine .inr ⟨_, rfl, rfl, ?_, ?_⟩
    · simp [Token.stop]
    · simp [Token.stop, Piece.chars, Nat.add_assoc]

theorem lastKind_eq (previous : Option TokenKind) (start : Nat) (ps : List Piece) :
    lastKind previous ps = ((shownTokens start ps).getLast?.map Token.kind).or previous := by
  induction ps generalizing previous start with
  | nil => rfl
  | cons p ps ih =>
    cases p with
    | stray c => exact ih previous (start + 1)
    | token kind chars =>
      cases hk : kind.isWhitespace with
      | true =>
        obtain rfl : kind = .whitespace := by cases kind <;> first | rfl | cases hk
        exact ih previous (start + chars.length)
      | false =>
        have hlast : lastKind previous (.token kind chars :: ps) = lastKind (some kind) ps := by
          cases kind <;> first | rfl | cases hk
        rw [hlast, ih (some kind) (start + chars.length), shownTokens_token hk, List.getLast?_cons]
        cases (shownTokens (start + chars.length) ps).getLast? <;> rfl

theorem awaitsOperand_of_signFollows {kind : TokenKind} (h : signFollows (some kind) = true) :
    kind.AwaitsOperand := by
  cases kind with
  | plus | minus | star | slash | caret | equal | leftParen => trivial
  | _ => cases h

end

/-- The lexer loses nothing and makes nothing up. For every text it answers with tokens and stray
characters that, put in the order of their positions, are the non-empty parts of the text one behind
the other; every unit stands right behind a number or behind the blanks that follow one; a number
with a sign is the first token, blanks aside, or stands behind one that an operand has to follow; and
a stray character is one that starts no token. -/
theorem lex_tiles (text : String) :
    Tiles 0 text.toList (inOrder (lex text).parts) ∧
    (∀ before t after, (lex text).tokens = before ++ t :: after → t.kind = .unit →
      FollowsNumber before t.position) ∧
    (∀ before t after value c, (lex text).tokens = before ++ t :: after → t.kind = .number value →
      t.text.toList.head? = some c → c = '+' ∨ c = '-' →
        ∀ last ∈ (Token.significant before).getLast?, last.kind.AwaitsOperand) ∧
    (∀ s ∈ (lex text).strays, StartsNoToken s.char) := by
  refine ⟨?_, fun before t after hsplit hunit => ?_,
    fun before t after value c hsplit hnumber hhead hc last hlast => ?_, fun s hs => ?_⟩
  · have htiles := tiles_placedParts 0 (chars_ne_nil_of_pieces none text.toList)
    have hparts : (lex text).parts = Lexed.parts
        ⟨placedTokens 0 (pieces none text.toList), placedStrays 0 (pieces none text.toList)⟩ := by
      rw [← tokens_lex, ← strays_lex_eq]
    rw [pieces_flatMap_chars] at htiles
    rw [hparts, htiles.inOrder_of_perm (perm_placedParts 0 _)]
    exact htiles
  · rw [tokens_lex] at hsplit
    obtain ⟨front, kind, chars, back, hpieces, rfl, rfl⟩ := exists_piece_of_placedTokens hsplit
    obtain rfl : kind = .unit := hunit
    exact followsNumber_of_endsInNumber 0 (unit_of_pieces hpieces).1
  · rw [tokens_lex] at hsplit
    obtain ⟨front, kind, chars, back, hpieces, rfl, rfl⟩ := exists_piece_of_placedTokens hsplit
    obtain rfl : kind = .number value := hnumber
    rw [String.toList_ofList] at hhead
    obtain ⟨lexeme, rfl⟩ : ∃ lexeme, chars = c :: lexeme := ⟨_, List.eq_cons_of_mem_head? hhead⟩
    have hfollows := signFollows_of_number hpieces hc
    rw [significant_placedTokens] at hlast
    rw [lastKind_eq none 0, Option.mem_def.1 hlast] at hfollows
    exact awaitsOperand_of_signFollows hfollows
  · rw [strays_lex_eq] at hs
    exact startsNoToken_of_stray (stray_mem_of_placedStrays hs)

end UnitSheet
