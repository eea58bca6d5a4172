import UnitSheet.Expr.Printer
import UnitSheet.Proofs.Grammar.Exactness
import UnitSheet.Proofs.Token.Pieces

set_option autoImplicit false

namespace UnitSheet

def isWrittenWithSign (x : Float) : Bool := (literalText x).toList.head? == some '-'

def SignOp.number : SignOp → Float → Float
  | minus, x => -x
  | plus, x | other _, x => x

namespace Expr

def plainNumber? : Expr → Option (Float × Option String)
  | literal x unit => if isWrittenWithSign x then none else some (x, unit)
  | name _ | cell _ | signed _ _ | binary _ _ _ => none

/-- The expression that the text of an expression reads as. A sign on a literal that is written
without one becomes part of the number, and zero has no sign of its own. -/
def readBack : Expr → Expr
  | literal x unit => literal (plainZero x) unit
  | name n => name n
  | cell label => cell label
  | signed sign operand =>
    match operand.plainNumber? with
    | some (x, unit) => literal (sign.number (plainZero x)) unit
    | none => signed sign operand.readBack
  | binary op left right => binary op left.readBack right.readBack

def IsFinite : Expr → Prop
  | literal x _ => x.isFinite = true
  | name _ | cell _ => True
  | signed _ operand => operand.IsFinite
  | binary _ left right => left.IsFinite ∧ right.IsFinite

def IsWritten : Expr → Prop
  | literal _ unit => ∀ u ∈ unit, IsUnitText u.toList
  | name n => IsNameText n.toList
  | cell label => IsCellText label.toList
  | signed sign operand => (sign = .plus ∨ sign = .minus) ∧ operand.IsWritten
  | binary op left right => (∀ s, op ≠ .other s) ∧ left.IsWritten ∧ right.IsWritten

end Expr

def Statement.readBack (s : Statement) : Statement := { s with expr := s.expr.readBack }

def TokenKind.IsInfix (kind : TokenKind) : Prop :=
  kind = .plus ∨ kind = .minus ∨ kind = .star ∨ kind = .slash ∨ kind = .caret

namespace Token

structure IsSpelled (t : Token) : Prop where
  shape : t.kind.HasShape t.text.toList
  spelling : ∀ cs, t.kind.spelling? = some cs → t.text = String.ofList cs

theorem isSpelled_of_mem_lex {text : String} {t : Token} (h : t ∈ (lex text).tokens) :
    t.IsSpelled := ⟨hasShape_of_mem_lex h, fun _ => text_of_mem_lex h⟩

variable {t : Token}

theorem IsSpelled.ofSymbol (h : t.IsSpelled) (hk : t.kind.IsInfix) (s : String) :
    BinaryOp.ofSymbol t.text ≠ .other s := by
  rcases hk with hk | hk | hk | hk | hk <;>
    rw [h.spelling _ (by rw [hk]; rfl)] <;> exact BinaryOp.noConfusion

theorem IsSpelled.ofSign (h : t.IsSpelled) (hk : t.kind = .plus ∨ t.kind = .minus) :
    SignOp.ofSymbol t.text = .plus ∨ SignOp.ofSymbol t.text = .minus := by
  rcases hk with hk | hk
  · exact .inl (by rw [h.spelling _ (by rw [hk]; rfl)]; rfl)
  · exact .inr (by rw [h.spelling _ (by rw [hk]; rfl)]; rfl)

end Token

namespace Grammar

theorem Derives.isWritten {p : Phrase} {ts : List Token} {e : Expr} (h : Derives p ts e)
    (hts : ∀ t ∈ ts, t.IsSpelled) : e.IsWritten := by
  induction h with
  | sumOfProduct _ ih | productOfPower _ ih | powerOfSigned _ ih | signedOfPrimary _ ih =>
    exact ih hts
  | @sumMore ts us l r op _ hop _ ihl ihr =>
    simp only [List.forall_mem_append, List.forall_mem_cons] at hts
    exact ⟨hts.2.1.ofSymbol (hop.imp_right .inl), ihl hts.1, ihr hts.2.2⟩
  | @productMore ts us l r op _ hop _ ihl ihr =>
    simp only [List.forall_mem_append, List.forall_mem_cons] at hts
    exact ⟨hts.2.1.ofSymbol (.inr (.inr (hop.imp_right .inl))), ihl hts.1, ihr hts.2.2⟩
  | powerMore _ hop _ ihl ihr =>
    simp only [List.forall_mem_append, List.forall_mem_cons] at hts
    exact ⟨hts.2.1.ofSymbol (.inr (.inr (.inr (.inr hop)))), ihl hts.1, ihr hts.2.2⟩
  | signedMore hs _ ih =>
    rw [List.forall_mem_cons] at hts
    exact ⟨hts.1.ofSign hs, ih hts.2⟩
  | number =>
    intro u hu
    cases hu
  | @quantity t unit value _ hunit =>
    intro u hu
    obtain rfl := Option.some.inj hu
    have hshape := (hts unit (by simp)).shape
    rwa [hunit] at hshape
  | @cell t hcell =>
    have hshape := (hts t (by simp)).shape
    rwa [hcell] at hshape
  | @name t hname =>
    have hshape := (hts t (by simp)).shape
    rwa [hname] at hshape
  | parens _ _ _ ih =>
    simp only [List.forall_mem_append, List.forall_mem_cons] at hts
    exact ih hts.2.1

theorem DerivesStatement.isWritten {ts : List Token} {s : Statement} (h : DerivesStatement ts s)
    (hts : ∀ t ∈ ts, t.IsSpelled) :
    s.expr.IsWritten ∧ ∀ n ∈ s.target, IsNameText n.toList := by
  cases h with
  | formula hd => exact ⟨hd.isWritten hts, fun n hn => by cases hn⟩
  | @definition _ _ name _ hname _ hd =>
    refine ⟨hd.isWritten fun t ht => hts t (by simp [ht]), fun n hn => ?_⟩
    obtain rfl := Option.some.inj hn
    have hshape := (hts name (by simp)).shape
    rwa [hname] at hshape

theorem isWritten_of_parseText {text : String} {s : Statement} (h : parseText text = .ok s) :
    s.expr.IsWritten ∧ ∀ n ∈ s.target, IsNameText n.toList :=
  (parse_eq_ok_iff.1 h).isWritten fun _ ht => Token.isSpelled_of_mem_lex (List.mem_filter.1 ht).1

end Grammar

/-- Wherever it may end, the text is cut into the tokens of a phrase that writes the expression. -/
def IsCutAs (previous : Option TokenKind) (cs : List Char) (e : Expr) : Prop :=
  ∀ rest, EndsOperand rest → ∃ ps kind,
    pieces previous (cs ++ rest) = ps ++ pieces (some kind) rest ∧
      signFollows (some kind) = false ∧ (∀ c, Piece.stray c ∉ ps) ∧
      ∀ start, Grammar.Derives .signed (shownTokens start ps) e

def unitText : Option String → List Char
  | none => []
  | some unit => ' ' :: unit.toList

section
variable {previous : Option TokenKind} {kind : TokenKind} {cs : List Char} {e : Expr} {n : Numeral}

theorem isCutAs_number {unit : Option String} (h : n.IsWritten) (sign : Option Bool)
    (hunit : ∀ u ∈ unit, IsUnitText u.toList) (hprevious : signFollows previous = true) :
    IsCutAs previous (Numeral.signChars sign ++ (n.chars ++ unitText unit))
      (.literal (readNumber (Numeral.signChars sign ++ n.chars)) unit) := by
  intro rest hrest
  rw [List.append_assoc, List.append_assoc]
  cases unit with
  | none =>
    refine ⟨[_], _, pieces_number h sign hprevious hrest.isEnd hrest.unitBehind_eq, rfl, by simp,
      fun start => .signedOfPrimary (.number rfl)⟩
  | some unit =>
    have hend : IsEnd (' ' :: (unit.toList ++ rest)) := fun c hc => .inl (Option.some.inj hc).symm
    refine ⟨[_, _, _], _, pieces_number h sign hprevious hend (unitBehind_blank (hunit unit rfl)
      hrest.isEnd), rfl, by simp, fun start => .signedOfPrimary ?_⟩
    rw [shownTokens_token rfl, shownTokens_blank, shownTokens_token rfl, String.ofList_toList]
    exact .quantity rfl rfl

theorem isCutAs_name {name : String} (h : IsNameText name.toList) :
    IsCutAs previous name.toList (.name name) := by
  intro rest hrest
  refine ⟨[_], _, pieces_name h hrest.isEnd, rfl, by simp, fun start => .signedOfPrimary ?_⟩
  rw [shownTokens_token rfl, String.ofList_toList]
  exact .name rfl

theorem isCutAs_cell {label : String} (h : IsCellText label.toList) :
    IsCutAs previous label.toList (.cell label) := by
  intro rest hrest
  refine ⟨[_], _, pieces_cell h hrest.isEnd, rfl, by simp, fun start => .signedOfPrimary ?_⟩
  rw [shownTokens_token rfl, String.ofList_toList]
  exact .cell rfl

theorem isCutAs_sign {c first : Char} (hc : operatorKind? c = some kind)
    (hkind : kind = .plus ∨ kind = .minus) (hdigit : isDecimalDigit first = false)
    (hpoint : first ≠ '.') (h : IsCutAs (some kind) (first :: cs) e) :
    IsCutAs previous (c :: first :: cs) (.signed (.ofSymbol (String.ofList [c])) e) := by
  intro rest hrest
  obtain ⟨ps, last, hcut, hlast, hstray, hderives⟩ := h rest hrest
  have hsign : c = '+' ∨ c = '-' := by
    have hspelling := spelling?_of_operatorKind? hc
    refine hkind.imp ?_ ?_
    · rintro rfl
      exact (List.cons.inj (Option.some.inj hspelling)).1.symm
    · rintro rfl
      exact (List.cons.inj (Option.some.inj hspelling)).1.symm
  have hnumber : numberAt? previous (c :: first :: (cs ++ rest)) = none := by
    rw [numberAt?, number?_sign hsign hdigit hpoint, ite_self]
  refine ⟨.token kind [c] :: ps, last, ?_, hlast, by simpa using hstray, fun start => ?_⟩
  · rw [List.cons_append, List.cons_append, pieces_operator hc hnumber]
    exact congrArg _ hcut
  · rw [shownTokens_token (isOperator hc).shown]
    exact .signedMore hkind (hderives _)

theorem derives_binary {ts us : List Token} {l r : Expr} {op : Token} (hkind : op.kind.IsInfix)
    (hl : Grammar.Derives .signed ts l) (hr : Grammar.Derives .signed us r) :
    Grammar.Derives .sum (ts ++ op :: us) (.binary (.ofSymbol op.text) l r) := by
  have hpower := hr.powerOfSigned
  rcases hkind with hk | hk | hk | hk | hk
  · exact .sumMore (.sumOfProduct (.productOfPower (.powerOfSigned hl))) (.inl hk)
      (.productOfPower hpower)
  · exact .sumMore (.sumOfProduct (.productOfPower (.powerOfSigned hl))) (.inr hk)
      (.productOfPower hpower)
  · exact .sumOfProduct (.productMore (.productOfPower (.powerOfSigned hl)) (.inl hk) hpower)
  · exact .sumOfProduct (.productMore (.productOfPower (.powerOfSigned hl)) (.inr hk) hpower)
  · exact .sumOfProduct (.productOfPower (.powerMore hl hk hpower))

theorem isCutAs_binary {c first : Char} {ds : List Char} {l r : Expr}
    (hc : operatorKind? c = some kind) (hkind : kind.IsInfix) (hfirst : isBlank first = false)
    (hl : IsCutAs (some .leftParen) cs l) (hr : IsCutAs (some kind) (first :: ds) r) :
    IsCutAs previous ('(' :: (cs ++ ' ' :: c :: ' ' :: (first :: ds ++ [')'])))
      (.binary (.ofSymbol (String.ofList [c])) l r) := by
  intro rest hrest
  obtain ⟨ps, last, hcut, hlast, hstray, hderives⟩ :=
    hl (' ' :: c :: ' ' :: first :: (ds ++ ')' :: rest)) (.operator hc _)
  obtain ⟨qs, last', hcut', hlast', hstray', hderives'⟩ := hr (')' :: rest) (.paren _)
  have hopen : numberAt? previous ('(' :: (cs ++ ' ' :: c :: ' ' :: first :: (ds ++ ')' :: rest))) =
      none := numberAt?_operator rfl fun _ => ⟨nofun, nofun⟩
  -- A sign behind an operand is no part of a number.
  have hinfix : numberAt? (some last) (c :: ' ' :: first :: (ds ++ ')' :: rest)) = none :=
    numberAt?_operator hc fun h => by rw [hlast] at h; cases h
  have hclose : numberAt? (some last') (')' :: rest) = none :=
    numberAt?_operator rfl fun _ => ⟨nofun, nofun⟩
  refine ⟨.token .leftParen ['('] :: (ps ++ .token .whitespace [' '] :: .token kind [c] ::
    .token .whitespace [' '] :: (qs ++ [.token .rightParen [')']])), .rightParen, ?_, rfl, ?_, ?_⟩
  · have htext : '(' :: (cs ++ ' ' :: c :: ' ' :: (first :: ds ++ [')'])) ++ rest =
        '(' :: (cs ++ ' ' :: c :: ' ' :: first :: (ds ++ ')' :: rest)) := by simp
    rw [htext, pieces_operator rfl hopen, hcut, pieces_blank (isOperator hc).blank,
      pieces_operator hc hinfix, pieces_blank hfirst]
    rw [List.cons_append] at hcut'
    rw [hcut', pieces_operator rfl hclose]
    simp
  · simp [hstray, hstray']
  · intro start
    have hassoc : ∀ (ts us : List Token) (op right : Token),
        ts ++ op :: (us ++ [right]) = ts ++ op :: us ++ [right] := by simp
    rw [shownTokens_token rfl, shownTokens_append, shownTokens_blank,
      shownTokens_token (isOperator hc).shown, shownTokens_blank, shownTokens_append,
      shownTokens_token rfl, shownTokens, hassoc]
    exact .signedOfPrimary
      (.parens rfl (derives_binary hkind (hderives _) (hderives' _)) rfl)

end

section
variable {x : Float} {unit : Option String} {e : Expr}

theorem toList_text_literal : ((Expr.literal x unit).text .empty).toList =
    (literalText x).toList ++ unitText unit := by
  cases unit with
  | none => exact (List.append_nil _).symm
  | some unit =>
    simp only [Expr.text, String.toList_append, List.append_assoc]
    rfl

theorem toList_text_signed {sign : SignOp} : ((Expr.signed sign e).text .empty).toList =
    sign.symbol.toList ++ (e.text .empty).toList := by
  rw [Expr.text, String.toList_append]

theorem toList_text_binary {op : BinaryOp} {l r : Expr} : ((Expr.binary op l r).text .empty).toList =
    '(' :: ((l.text .empty).toList ++ ' ' :: (op.symbol.toList ++
      ' ' :: ((r.text .empty).toList ++ [')']))) := by
  simp only [Expr.text, String.toList_append, List.append_assoc]
  rfl

/-- A finite number is written as a numeral that reads back, or with a minus sign in front of it. -/
theorem literalText_of_isFinite (h : x.isFinite = true) : ∃ n : Numeral, n.IsWritten ∧
    (isWrittenWithSign x = true ∧ plainZero x = x ∧
        (literalText x).toList = Numeral.signChars (some true) ++ n.chars ∧
        readNumber (Numeral.signChars (some true) ++ n.chars) = x ∨
      isWrittenWithSign x = false ∧ (literalText x).toList = n.chars ∧
        ∀ sign, readNumber (Numeral.signChars sign ++ n.chars) =
          if sign = some true then -plainZero x else plainZero x) := by
  obtain ⟨b, hb⟩ := Binary.exists_ofFloat? h
  obtain ⟨n, hn, ⟨htext, hread, hplain⟩ | ⟨htext, hread⟩⟩ := literalText_cases hb
  · refine ⟨n, hn, .inl ⟨by rw [isWrittenWithSign, htext]; rfl, hplain, htext, ?_⟩⟩
    rwa [htext] at hread
  · refine ⟨n, hn, .inr ⟨?_, htext, hread⟩⟩
    obtain ⟨first, more, hchars, hfirst⟩ := hn.exists_cons
    rw [isWrittenWithSign, htext, hchars, List.head?_cons]
    simpa using Numeral.digit_ne hfirst rfl

theorem head_text (hwritten : e.IsWritten) (hfinite : e.IsFinite) :
    ∃ c cs, (e.text .empty).toList = c :: cs ∧ isBlank c = false ∧
      (e.plainNumber? = none → isDecimalDigit c = false ∧ c ≠ '.') := by
  cases e with
  | literal x unit =>
    obtain ⟨n, hn, ⟨_, _, htext, _⟩ | ⟨hsign, htext, _⟩⟩ := literalText_of_isFinite hfinite
    · rw [toList_text_literal, htext]
      exact ⟨'-', _, rfl, by decide, fun _ => by decide⟩
    · obtain ⟨first, more, hchars, hfirst⟩ := hn.exists_cons
      rw [toList_text_literal, htext, hchars]
      exact ⟨first, _, rfl, isBlank_of_isDigit hfirst,
        fun h => by simp [Expr.plainNumber?, hsign] at h⟩
  | name n =>
    obtain ⟨c, tail, hc, -, htext⟩ := hwritten
    have hrange := toNat_of_isNameStart hc
    exact ⟨c, tail, htext, isBlank_eq_false (by omega) (by omega),
      fun _ => ⟨isDecimalDigit_of_isNameStart hc, by rintro rfl; cases hc⟩⟩
  | cell label =>
    obtain ⟨c, tail, htext, hc⟩ := IsCellText.exists_cons hwritten
    exact ⟨c, tail, htext, isBlank_of_isAlpha hc,
      fun _ => ⟨isDecimalDigit_of_isAlpha hc, by rintro rfl; cases hc⟩⟩
  | signed sign operand =>
    rw [toList_text_signed]
    rcases hwritten.1 with rfl | rfl
    · exact ⟨'+', _, rfl, by decide, fun _ => by decide⟩
    · exact ⟨'-', _, rfl, by decide, fun _ => by decide⟩
  | binary op l r =>
    rw [toList_text_binary]
    exact ⟨'(', _, rfl, by decide, fun _ => by decide⟩

variable {previous : Option TokenKind}

theorem isCutAs_literal (h : x.isFinite = true) (hunit : ∀ u ∈ unit, IsUnitText u.toList)
    (hprevious : signFollows previous = true) :
    IsCutAs previous ((Expr.literal x unit).text .empty).toList (.literal (plainZero x) unit) := by
  obtain ⟨n, hn, ⟨-, hplain, htext, hread⟩ | ⟨-, htext, hread⟩⟩ := literalText_of_isFinite h
  · have hcut := isCutAs_number hn (some true) hunit hprevious
    rw [hread, ← List.append_assoc, ← htext] at hcut
    rwa [toList_text_literal, hplain]
  · have hcut := isCutAs_number hn none hunit hprevious
    rw [hread none, if_neg nofun] at hcut
    rwa [toList_text_literal, htext]

/-- A sign on a number that is written without one is cut as part of the number. -/
theorem isCutAs_signedLiteral {sign : SignOp} (hsign : sign = .plus ∨ sign = .minus)
    (h : x.isFinite = true) (hplain : isWrittenWithSign x = false)
    (hunit : ∀ u ∈ unit, IsUnitText u.toList) (hprevious : signFollows previous = true) :
    IsCutAs previous ((Expr.signed sign (.literal x unit)).text .empty).toList
      (.literal (sign.number (plainZero x)) unit) := by
  obtain ⟨n, hn, ⟨hwith, -⟩ | ⟨-, htext, hread⟩⟩ := literalText_of_isFinite h
  · rw [hplain] at hwith
    cases hwith
  · have hcut := fun sign => isCutAs_number hn (some sign) hunit hprevious
    rw [toList_text_signed, toList_text_literal, htext]
    rcases hsign with rfl | rfl
    · have hplus := hcut false
      rwa [hread] at hplus
    · have hminus := hcut true
      rwa [hread] at hminus

theorem plainNumber?_eq_some (h : e.plainNumber? = some (x, unit)) :
    e = .literal x unit ∧ isWrittenWithSign x = false := by
  cases e with
  | literal y unit' =>
    rw [Expr.plainNumber?] at h
    split at h
    · cases h
    · rename_i hplain
      cases h
      exact ⟨rfl, by simpa using hplain⟩
  | name | cell | signed | binary => cases h

/-- The text of a formula is cut into the tokens of the formula that it reads as. -/
theorem isCutAs_text (hwritten : e.IsWritten) (hfinite : e.IsFinite)
    (hprevious : signFollows previous = true) :
    IsCutAs previous (e.text .empty).toList e.readBack := by
  -- Each part of the text stands behind an operator or a parenthesis of its own.
  induction e generalizing previous with
  | literal x unit => exact isCutAs_literal hfinite hwritten hprevious
  | name n => exact isCutAs_name hwritten
  | cell label => exact isCutAs_cell hwritten
  | signed sign operand ih =>
    cases hnumber : operand.plainNumber? with
    | some number =>
      obtain ⟨rfl, hplain⟩ := plainNumber?_eq_some hnumber
      rw [Expr.readBack, hnumber]
      exact isCutAs_signedLiteral hwritten.1 hfinite hplain hwritten.2 hprevious
    | none =>
      obtain ⟨c, cs, htext, -, hhead⟩ := head_text hwritten.2 hfinite
      obtain ⟨hdigit, hpoint⟩ := hhead hnumber
      have hoperand := fun previous => @ih previous hwritten.2 hfinite
      rw [htext] at hoperand
      rw [Expr.readBack, hnumber, toList_text_signed, htext]
      have hplus : operatorKind? '+' = some .plus := rfl
      have hminus : operatorKind? '-' = some .minus := rfl
      rcases hwritten.1 with rfl | rfl
      · exact isCutAs_sign hplus (.inl rfl) hdigit hpoint (hoperand _ rfl)
      · exact isCutAs_sign hminus (.inr rfl) hdigit hpoint (hoperand _ rfl)
  | binary op l r ihl ihr =>
    obtain ⟨c, cs, htext, hblank, -⟩ := head_text hwritten.2.2 hfinite.2
    have hl := @ihl (some .leftParen) hwritten.2.1 hfinite.1 rfl
    have hr := fun previous => @ihr previous hwritten.2.2 hfinite.2
    rw [htext] at hr
    rw [toList_text_binary, htext]
    have hbinary : ∀ {d kind}, operatorKind? d = some kind → kind.IsInfix →
        signFollows (some kind) = true → IsCutAs previous
          ('(' :: ((l.text .empty).toList ++ ' ' :: d :: ' ' :: (c :: cs ++ [')'])))
          (.binary (.ofSymbol (String.ofList [d])) l.readBack r.readBack) :=
      fun hd hkind hfollows => isCutAs_binary hd hkind hblank hl (hr _ hfollows)
    cases op with
    | add => exact hbinary (d := '+') rfl (by simp [TokenKind.IsInfix]) rfl
    | sub => exact hbinary (d := '-') rfl (by simp [TokenKind.IsInfix]) rfl
    | mul => exact hbinary (d := '*') rfl (by simp [TokenKind.IsInfix]) rfl
    | div => exact hbinary (d := '/') rfl (by simp [TokenKind.IsInfix]) rfl
    | pow => exact hbinary (d := '^') rfl (by simp [TokenKind.IsInfix]) rfl
    | other symbol => exact absurd rfl (hwritten.1 symbol)

end

theorem pieces_definition {name : String} {c : Char} {cs : List Char} (h : IsNameText name.toList)
    (hc : isBlank c = false) :
    pieces none (name.toList ++ ' ' :: '=' :: ' ' :: c :: cs) =
      .token .identifier name.toList :: .token .whitespace [' '] :: .token .equal ['='] ::
        .token .whitespace [' '] :: pieces (some .equal) (c :: cs) := by
  have hend : IsEnd (' ' :: '=' :: ' ' :: c :: cs) := fun _ hd => .inl (Option.some.inj hd).symm
  have hequal : numberAt? (some .identifier) ('=' :: ' ' :: c :: cs) = none :=
    numberAt?_operator rfl fun _ => ⟨nofun, nofun⟩
  rw [pieces_name h hend, pieces_blank (by decide), pieces_operator rfl hequal, pieces_blank hc]

/-- The text of a statement is cut into the tokens of the statement that it reads as. -/
theorem cut_text {s : Statement} (hwritten : s.expr.IsWritten)
    (htarget : ∀ n ∈ s.target, IsNameText n.toList) (hfinite : s.expr.IsFinite) :
    (∀ c, Piece.stray c ∉ pieces none s.text.toList) ∧
      Grammar.DerivesStatement (shownTokens 0 (pieces none s.text.toList)) s.readBack := by
  obtain ⟨target, e⟩ := s
  have hformula : ∀ previous, signFollows previous = true → ∃ ps,
      pieces previous (e.text .empty).toList = ps ∧ (∀ c, Piece.stray c ∉ ps) ∧
        ∀ start, Grammar.Derives .sum (shownTokens start ps) e.readBack := by
    intro previous hprevious
    obtain ⟨ps, kind, hcut, -, hstray, hderives⟩ := isCutAs_text hwritten hfinite hprevious [] .nil
    rw [List.append_nil, pieces, List.append_nil] at hcut
    exact ⟨ps, hcut, hstray, fun start =>
      .sumOfProduct (.productOfPower (.powerOfSigned (hderives start)))⟩
  cases target with
  | none =>
    obtain ⟨ps, hcut, hstray, hderives⟩ := hformula none rfl
    have htext : Statement.text ⟨none, e⟩ = e.text .empty := rfl
    rw [htext, hcut]
    exact ⟨hstray, .formula (hderives 0)⟩
  | some name =>
    obtain ⟨ps, hcut, hstray, hderives⟩ := hformula (some .equal) rfl
    obtain ⟨c, cs, htext, hblank, -⟩ := head_text hwritten hfinite
    have hline : (Statement.text ⟨some name, e⟩).toList =
        name.toList ++ ' ' :: '=' :: ' ' :: c :: cs := by
      rw [← htext]
      simp only [Statement.text, Statement.textWith, String.toList_append, List.append_assoc]
      rfl
    rw [hline, pieces_definition (htarget name rfl) hblank, ← htext, hcut, shownTokens_token rfl,
      shownTokens_blank, shownTokens_token rfl, shownTokens_blank, String.ofList_toList]
    exact ⟨by simpa using hstray, .definition rfl rfl (hderives _)⟩

/-- The text of a statement that a text writes has no stray characters and reads as the statement,
but for a sign that becomes part of the number behind it and the sign of zero. -/
theorem parseText_text {text : String} {s : Statement} (h : Grammar.parseText text = .ok s)
    (hfinite : s.expr.IsFinite) :
    (lex s.text).strays = [] ∧ Grammar.parseText s.text = .ok s.readBack := by
  obtain ⟨hwritten, htarget⟩ := Grammar.isWritten_of_parseText h
  obtain ⟨hstray, hderives⟩ := cut_text hwritten htarget hfinite
  refine ⟨strays_lex hstray, Grammar.parse_eq_ok_iff.2 ?_⟩
  rwa [significant_lex]

theorem parseText_signedLoad : Grammar.parseText "load = -(2 kip) * A1" =
    .ok ⟨some "load", .binary .mul (.signed .minus (.literal 2 (some "kip"))) (.cell "A1")⟩ := by
  have htokens : Token.significant (lex "load = -(2 kip) * A1").tokens =
      [⟨.identifier, "load", 0⟩, ⟨.equal, "=", 5⟩, ⟨.minus, "-", 7⟩, ⟨.leftParen, "(", 8⟩,
        ⟨.number 2, "2", 9⟩, ⟨.unit, "kip", 11⟩, ⟨.rightParen, ")", 14⟩, ⟨.star, "*", 16⟩,
        ⟨.cellRef, "A1", 18⟩] := by decide +kernel
  have hload : Grammar.Derives .sum [⟨.number 2, "2", 9⟩, ⟨.unit, "kip", 11⟩]
      (.literal 2 (some "kip")) :=
    .sumOfProduct (.productOfPower (.powerOfSigned (.signedOfPrimary (.quantity rfl rfl))))
  have hsigned : Grammar.Derives .product [⟨.minus, "-", 7⟩, ⟨.leftParen, "(", 8⟩,
      ⟨.number 2, "2", 9⟩, ⟨.unit, "kip", 11⟩, ⟨.rightParen, ")", 14⟩]
      (.signed (.ofSymbol "-") (.literal 2 (some "kip"))) :=
    .productOfPower (.powerOfSigned
      (.signedMore (.inr rfl) (.signedOfPrimary (.parens rfl hload rfl))))
  have hcell : Grammar.Derives .power [⟨.cellRef, "A1", 18⟩] (.cell "A1") :=
    .powerOfSigned (.signedOfPrimary (.cell rfl))
  refine Grammar.parse_eq_ok_iff.2 ?_
  rw [htokens]
  exact .definition rfl rfl (.sumOfProduct (.productMore hsigned (.inl rfl) hcell))

/-- The sign becomes part of the number when the text of the definition is read. -/
theorem parseText_text_signedLoad :
    (lex "load = (-2 kip * A1)").strays = [] ∧ Grammar.parseText "load = (-2 kip * A1)" =
      .ok ⟨some "load", .binary .mul (.literal (-2) (some "kip")) (.cell "A1")⟩ := by
  have htext : Statement.text ⟨some "load",
      .binary .mul (.signed .minus (.literal 2 (some "kip"))) (.cell "A1")⟩ =
        "load = (-2 kip * A1)" := by decide +kernel
  have hwith : isWrittenWithSign 2 = false := by decide +kernel
  have hplain : plainZero 2 = 2 := by decide +kernel
  have hread := parseText_text parseText_signedLoad ⟨(by decide +kernel : (2 : Float).isFinite), trivial⟩
  rw [htext] at hread
  simp only [Statement.readBack, Expr.readBack, Expr.plainNumber?, hwith, hplain] at hread
  exact hread

end UnitSheet
