import UnitSheet.Proofs.Line.Ending
import UnitSheet.Proofs.Line.Folding

set_option autoImplicit false

namespace UnitSheet

structure Statement.IsReadFrom (s : Statement) (text : String) : Prop where
  strays : (lex text).strays = []
  derives : Grammar.DerivesStatement (Token.significant (lex text).tokens) s

theorem isReadFrom_of_readLine {text : String} {s : Statement} {tier : Tier}
    (h : readLine text = .ok (s, tier)) : s.IsReadFrom (preparedText text) :=
  ⟨(parse_of_readLine h).1, Grammar.parse_eq_ok_iff.1 (parse_of_readLine h).2⟩

def contents (ps : List Piece) : List (TokenKind × String) :=
  (ps.filter Piece.isShown).filterMap Piece.content?

section
variable {ps : List Piece} {kind : TokenKind} {chars front : List Char} {more : List (TokenKind × String)}
  {t : String} {c : Char}

theorem contents_append (ps qs : List Piece) : contents (ps ++ qs) = contents ps ++ contents qs := by
  rw [contents, List.filter_append, List.filterMap_append]
  rfl

theorem contents_token (h : kind.Writes chars) (ps : List Piece) :
    contents (.token kind chars :: ps) = (kind, String.ofList chars) :: contents ps := by
  rw [contents, List.filter_cons, Piece.isShown, h.shown]
  rfl

theorem exists_of_contents_eq_cons (hclean : ∀ p ∈ ps, p.IsClean)
    (h : contents ps = (kind, t) :: more) :
    ∃ gap chars behind, ps = gap ++ .token kind chars :: behind ∧
      (∀ b ∈ gap.flatMap Piece.chars, isBlank b = true) ∧ t = String.ofList chars ∧
        kind.Writes chars ∧ contents behind = more := by
  induction ps with
  | nil => cases h
  | cons p ps ih =>
    cases hclean p List.mem_cons_self with
    | token hwrites =>
      rw [contents_token hwrites] at h
      obtain ⟨hpair, hmore⟩ := List.cons.inj h
      obtain ⟨rfl, ht⟩ := Prod.mk.inj hpair
      exact ⟨[], _, ps, rfl, by simp, ht.symm, hwrites, hmore⟩
    | @blanks chars _ hblank =>
      obtain ⟨gap, chars', behind, rfl, hgap, hfound⟩ :=
        ih (fun q hq => hclean q (List.mem_cons_of_mem _ hq)) h
      refine ⟨.token .whitespace chars :: gap, chars', behind, rfl, fun b hb => ?_, hfound⟩
      rw [List.flatMap_cons] at hb
      exact (List.mem_append.1 hb).elim (hblank b) (hgap b)

theorem exists_of_flatMap_eq_concat (hclean : ∀ p ∈ ps, p.IsClean)
    (h : ps.flatMap Piece.chars = front ++ [c]) (hc : isBlank c = false) :
    ∃ init kind chars, ps = init ++ [.token kind chars] ∧ kind.Writes chars ∧
      chars.getLast? = some c := by
  rcases List.eq_nil_or_concat' ps with rfl | ⟨init, p, rfl⟩
  · exact absurd h.symm (by simp)
  · have hlast : ∀ {chars : List Char}, chars ≠ [] → p.chars = chars → chars.getLast? = some c := by
      intro chars hne hchars
      have hlast := congrArg List.getLast? h
      rwa [List.flatMap_append, List.flatMap_singleton, hchars, List.getLast?_append_of_ne_nil _ hne,
        List.getLast?_concat] at hlast
    cases hclean p (by simp) with
    | token hwrites =>
      exact ⟨init, _, _, rfl, hwrites, hlast hwrites.isTokenText.ne_nil rfl⟩
    | blanks hne hblank =>
      rw [hblank c (List.mem_of_getLast? (hlast hne rfl))] at hc
      cases hc

theorem TokenKind.Writes.kind_of_mem {sign : TokenKind} (h : kind.Writes chars) (hc : c ∈ chars)
    (hsign : operatorKind? c = some sign) (hnumeral : isNumeralChar c = false)
    (hunit : isUnitTextChar c = false) (hname : isNameChar c = false) : kind = sign := by
  have hnot : ∀ {b : Bool}, b = true → b ≠ false := fun h => by simp [h]
  cases h with
  | number _ _ hall => exact absurd hnumeral (hnot (hall c hc))
  | unit htext => exact absurd hunit (hnot (isUnitTextChar_of_unit htext c hc))
  | name htext => exact absurd hname (hnot (isNameChar_of_isNameText htext c hc))
  | cell hcell =>
    obtain ⟨name, digits, hletters, -, hdigits, rfl⟩ := hcell
    rcases List.mem_append.1 hc with hc | hc
    · exact absurd (isOperator hsign).alpha (hnot (hletters.2 c hc))
    · exact absurd hnumeral (hnot (isNumeralChar_of_isDecimalDigit (hdigits c hc)))
  | operator hkind =>
    rw [← List.mem_singleton.1 hc] at hkind
    exact Option.some.inj (hkind.symm.trans hsign)

theorem TokenKind.Writes.eq_equal (h : kind.Writes chars) (hc : '=' ∈ chars) : kind = .equal :=
  h.kind_of_mem hc rfl (by decide) (by decide) (by decide)

theorem not_mem_of_contents (hclean : ∀ p ∈ ps, p.IsClean)
    (h : ∀ content ∈ contents ps, content.1 ≠ .equal) : '=' ∉ ps.flatMap Piece.chars := by
  intro hequal
  obtain ⟨p, hp, hsign⟩ := List.mem_flatMap.1 hequal
  cases hclean p hp with
  | blanks _ hblank => exact absurd (hblank '=' hsign) (by decide)
  | @token kind chars hwrites =>
    obtain ⟨before, behind, rfl⟩ := List.append_of_mem hp
    refine h (kind, String.ofList chars) ?_ (hwrites.eq_equal hsign)
    rw [contents_append, contents_token hwrites]
    simp

end

def isClosing (c : Char) : Bool := isNumeralChar c || isNameChar c || c == ')'

section
variable {c : Char} {cs ds : List Char}

theorem isClosing_of_isAlpha (h : c.isAlpha = true) : isClosing c = true := by
  simp [isClosing, isNameChar, isNameStart, h]

theorem isClosing_of_isDecimalDigit (h : isDecimalDigit c = true) : isClosing c = true := by
  rw [isClosing, isNumeralChar_of_isDecimalDigit h]
  rfl

theorem closing_append (hcs : ∀ c ∈ cs.getLast?, isClosing c = true)
    (hds : ∀ c ∈ ds.getLast?, isClosing c = true) :
    ∀ c ∈ (cs ++ ds).getLast?, isClosing c = true := by
  intro c hc
  rw [List.getLast?_append] at hc
  rcases Option.or_eq_some_iff.1 hc with hc | ⟨-, hc⟩
  · exact hds c hc
  · exact hcs c hc

theorem closing_letters (h : IsLetters cs) : ∀ c ∈ cs.getLast?, isClosing c = true :=
  fun c hc => isClosing_of_isAlpha (h.2 c (List.mem_of_getLast? hc))

theorem closing_digits (h : ∀ c ∈ cs, isDecimalDigit c = true) :
    ∀ c ∈ cs.getLast?, isClosing c = true :=
  fun c hc => isClosing_of_isDecimalDigit (h c (List.mem_of_getLast? hc))

theorem closing_power (h : IsPowerText cs) : ∀ c ∈ cs.getLast?, isClosing c = true := by
  rcases h with rfl | ⟨digits, hne, hdigits, rfl | rfl⟩
  · exact nofun
  · rw [← List.singleton_append, List.getLast?_append_of_ne_nil _ hne]
    exact closing_digits hdigits
  · change ∀ c ∈ (['^', '-'] ++ digits).getLast?, isClosing c = true
    rw [List.getLast?_append_of_ne_nil _ hne]
    exact closing_digits hdigits

theorem closing_unit (h : IsUnitText cs) : ∀ c ∈ cs.getLast?, isClosing c = true := by
  obtain ⟨name, power, second, hname, hpower, hsecond, rfl⟩ := h
  refine closing_append (closing_letters hname) (closing_append (closing_power hpower) ?_)
  rcases hsecond with rfl | ⟨mark, name', power', -, hname', hpower', rfl⟩
  · exact nofun
  · rw [← List.singleton_append, List.getLast?_append_of_ne_nil]
    · exact closing_append (closing_letters hname') (closing_power hpower')
    · exact List.append_ne_nil_of_left_ne_nil hname'.1 power'

theorem TokenKind.Writes.closing {kind : TokenKind} (h : kind.Writes cs)
    (hkind : kind.isOperand = true ∨ kind = .rightParen) : ∀ c ∈ cs.getLast?, isClosing c = true := by
  cases h with
  | number _ _ hall =>
    intro c hc
    rw [isClosing, hall c (List.mem_of_getLast? hc)]
    rfl
  | unit hunit => exact closing_unit hunit
  | name hname =>
    intro c hc
    rw [isClosing, isNameChar_of_isNameText hname c (List.mem_of_getLast? hc), Bool.or_true]
    rfl
  | cell hcell =>
    obtain ⟨name, digits, hname, -, hdigits, rfl⟩ := hcell
    exact closing_append (closing_letters hname) (closing_digits hdigits)
  | @operator d kind hoperator =>
    rcases hkind with hkind | rfl
    · rw [isOperand_of_operatorKind? hoperator] at hkind
      cases hkind
    · unfold operatorKind? at hoperator
      split at hoperator <;> cases hoperator
      exact fun c hc => Option.some.inj hc ▸ rfl

end

section
variable {s : Statement} {text : String}

theorem contents_pieces (text : String) : contents (pieces none text.toList) =
    (Token.significant (lex text).tokens).map Token.content := (content_significant text).symm

theorem Statement.IsReadFrom.isClean (h : s.IsReadFrom text) :
    ∀ p ∈ pieces none text.toList, p.IsClean :=
  isClean_pieces (stray_not_mem_of_lex h.strays)

theorem Statement.IsReadFrom.closing {front : List Char} {c : Char} (h : s.IsReadFrom text)
    (htext : text.toList = front ++ [c]) (hc : isBlank c = false) : isClosing c = true := by
  obtain ⟨init, kind, chars, hps, hwrites, hlast⟩ := exists_of_flatMap_eq_concat h.isClean
    ((pieces_flatMap_chars none text.toList).trans htext) hc
  have hcontents := congrArg List.getLast? (contents_pieces text)
  rw [hps, contents_append, contents_token hwrites, List.getLast?_map,
    List.getLast?_append_of_ne_nil _ (List.cons_ne_nil _ _)] at hcontents
  obtain ⟨t, ht, hcontent⟩ := Option.map_eq_some_iff.1 hcontents.symm
  have hkind : t.kind = kind := congrArg Prod.fst hcontent
  exact hwrites.closing (hkind ▸ h.derives.closes t ht) c hlast

inductive IsDefinition : List Char → String → Prop
  | mk {bs bs' rest : List Char} {n : String} :
      (∀ b ∈ bs, isBlank b = true) → (∀ b ∈ bs', isBlank b = true) → IsNameText n.toList →
        (∃ c ∈ rest, isBlank c = false) → '=' ∉ rest →
          IsDefinition (bs ++ (n.toList ++ bs') ++ '=' :: rest) n

theorem IsDefinition.mem {cs : List Char} {n : String} (h : IsDefinition cs n) : '=' ∈ cs := by
  cases h
  simp

theorem TokenKind.Writes.eq_of_equal {chars : List Char} (h : TokenKind.equal.Writes chars) :
    chars = ['='] := by
  cases h with
  | operator hkind =>
    unfold operatorKind? at hkind
    split at hkind <;> cases hkind
    rfl

theorem isDefinition_of_contents {ps : List Piece} (hclean : ∀ p ∈ ps, p.IsClean) {n e : String}
    {more : List (TokenKind × String)}
    (h : contents ps = (.identifier, n) :: (.equal, e) :: more) (hne : more ≠ [])
    (hmore : ∀ content ∈ more, content.1 ≠ .equal) : IsDefinition (ps.flatMap Piece.chars) n := by
  obtain ⟨gap, name, behind, rfl, hgap, rfl, hname, hbehind⟩ := exists_of_contents_eq_cons hclean h
  have hclean' : ∀ p ∈ behind, p.IsClean := fun p hp => hclean p (by simp [hp])
  obtain ⟨gap', sign, formula, rfl, hgap', -, hsign, hformula⟩ :=
    exists_of_contents_eq_cons hclean' hbehind
  obtain rfl := hsign.eq_of_equal
  have hclean'' : ∀ p ∈ formula, p.IsClean := fun p hp => hclean' p (by simp [hp])
  obtain ⟨⟨kind, first⟩, more, rfl⟩ := List.exists_cons_of_ne_nil hne
  obtain ⟨lead, chars, tail, rfl, -, -, hwrites, -⟩ := exists_of_contents_eq_cons hclean'' hformula
  have hvisible : ∃ c ∈ (lead ++ .token kind chars :: tail).flatMap Piece.chars, isBlank c = false := by
    obtain ⟨c, cs, rfl⟩ := List.exists_cons_of_ne_nil hwrites.isTokenText.ne_nil
    refine ⟨c, ?_, hwrites.isTokenText.blank c List.mem_cons_self⟩
    simp [Piece.chars]
  have hword : IsNameText (String.ofList name).toList := by
    rw [String.toList_ofList]
    cases hname with
    | name hname => exact hname
    | operator hkind =>
      unfold operatorKind? at hkind
      split at hkind <;> cases hkind
  have hdefinition := IsDefinition.mk hgap hgap' hword hvisible
    (not_mem_of_contents hclean'' (hformula ▸ hmore))
  rw [String.toList_ofList] at hdefinition
  simpa [Piece.chars] using hdefinition

/-- A statement has an equals sign if it defines a name, and then it starts with the name. -/
theorem Statement.IsReadFrom.begins (h : s.IsReadFrom text) :
    (s.target = none ∧ '=' ∉ text.toList) ∨
      ∃ n, s.target = some n ∧ IsDefinition text.toList n := by
  have hcontents := contents_pieces text
  have hclean := h.isClean
  have hderives := h.derives
  rw [← pieces_flatMap_chars none text.toList]
  generalize Token.significant (lex text).tokens = ts at hcontents hderives
  cases hderives with
  | formula hformula =>
    refine .inl ⟨rfl, not_mem_of_contents hclean fun content hmem => ?_⟩
    rw [hcontents] at hmem
    obtain ⟨t, ht, rfl⟩ := List.mem_map.1 hmem
    exact hformula.kind_ne_equal t ht
  | @definition ts e name equal hname hequal hformula =>
    rw [List.map_cons, List.map_cons, Token.content, Token.content, hname, hequal] at hcontents
    refine .inr ⟨name.text, rfl, isDefinition_of_contents hclean hcontents ?_ fun content hmem => ?_⟩
    · simpa using hformula.ne_nil
    · obtain ⟨t, ht, rfl⟩ := List.mem_map.1 hmem
      exact hformula.kind_ne_equal t ht

theorem toList_foldRepeats_concat {front : List Char} {c : Char} (hc : IsSeparator c)
    (h : text.toList = front ++ [c]) :
    (foldRepeats text).toList = (foldRepeats (String.ofList front)).toList ++ [c] := by
  have hnil : (foldRepeats (String.ofList [])).toList = [] := by
    simp [foldRepeats, foldGlued, foldSpaced]
  rw [foldRepeats_append_cons hc h, hnil]

/-- A statement does not end in a separator, however the repeats before it are folded. -/
theorem Statement.IsReadFrom.not_concat {front : List Char} {c : Char} (hc : IsSeparator c)
    (hopen : isClosing c = false) (h : s.IsReadFrom (foldRepeats text)) : text.toList ≠ front ++ [c] := by
  intro htext
  rw [h.closing (toList_foldRepeats_concat hc htext) hc.blank] at hopen
  cases hopen

theorem endsOpenly_of_readLine {tier : Tier} (h : readLine text = .ok (s, tier)) :
    EndsOpenly text := by
  have hread : s.IsReadFrom (foldRepeats (normalize (trimEquals text))) := isReadFrom_of_readLine h
  intro hequal
  constructor
  · by_contra hraw
    rw [trimEquals_of_ne hraw] at hread
    obtain ⟨front, hfront⟩ := List.getLast?_eq_some_iff.1 hequal
    exact hread.not_concat isSeparator_equal (by decide) hfront
  · intro hdot
    obtain ⟨front, c, hfront, hc⟩ := exists_concat_of_dot hdot
    rw [← toList_normalize] at hfront
    rcases hc with rfl | rfl
    · exact hread.not_concat isSeparator_dot (by decide) hfront
    · exact hread.not_concat isSeparator_star (by decide) hfront

end

end UnitSheet
