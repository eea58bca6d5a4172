import UnitSheet.Proofs.Grammar.Exactness
import UnitSheet.Proofs.Grammar.Neighbours
import UnitSheet.Proofs.Line.Normal
import UnitSheet.Proofs.Line.Repeats
import UnitSheet.Proofs.Unit.LabelDims

set_option autoImplicit false

namespace UnitSheet

section
variable {ps : List Piece} {front bs rest : List Char} {x y : Char}

theorem exists_token_behind (hclean : ∀ p ∈ ps, p.IsClean) (hbs : ∀ b ∈ bs, isBlank b = true)
    (hy : isBlank y = false) (h : ps.flatMap Piece.chars = bs ++ y :: rest) :
    ∃ gap kind chars behind, ps = gap ++ .token kind chars :: behind ∧
      gap.filter Piece.isShown = [] ∧ kind.Writes chars ∧
        chars ++ behind.flatMap Piece.chars = y :: rest := by
  induction ps generalizing bs with
  | nil => exact absurd h.symm (by simp)
  | cons p ps ih =>
    have hps := fun q hq => hclean q (List.mem_cons_of_mem p hq)
    rw [List.flatMap_cons] at h
    cases hclean p List.mem_cons_self with
    | @token kind chars hwrites =>
      cases bs with
      | nil => exact ⟨[], kind, chars, ps, rfl, rfl, hwrites, h⟩
      | cons b bs =>
        have hhead := hwrites.isTokenText.head (ps.flatMap Piece.chars) b (by
          rw [Piece.chars] at h
          rw [h]
          rfl)
        rw [hbs b List.mem_cons_self] at hhead
        cases hhead
    | @blanks chars _ hblank =>
      have hmore : ∃ bs', (∀ b ∈ bs', isBlank b = true) ∧
          ps.flatMap Piece.chars = bs' ++ y :: rest := by
        rcases List.append_eq_append_iff.1 h with ⟨bs', rfl, hps⟩ | ⟨tail, hchars, htail⟩
        · exact ⟨bs', fun b hb => hbs b (List.mem_append_right _ hb), hps⟩
        · cases tail with
          | nil => exact ⟨[], by simp, htail.symm⟩
          | cons c tail =>
            have hc : c ∈ chars := by
              rw [Piece.chars] at hchars
              rw [hchars]
              simp
            rw [(List.cons.inj htail).1, hblank c hc] at hy
            cases hy
      obtain ⟨bs', hbs', hrest⟩ := hmore
      obtain ⟨gap, kind, chars', behind, rfl, hgap, hfound⟩ := ih hps hbs' hrest
      exact ⟨.token .whitespace chars :: gap, kind, chars', behind, rfl, hgap, hfound⟩

/-- Two visible characters with blanks between them, or a number with a letter behind it, belong to
two tokens side by side. -/
theorem exists_neighbours (hclean : ∀ p ∈ ps, p.IsClean)
    (h : ps.flatMap Piece.chars = front ++ x :: (bs ++ y :: rest)) (hx : isBlank x = false)
    (hy : isBlank y = false) (hbs : ∀ b ∈ bs, isBlank b = true) (hgap : bs ≠ [] ∨ Parts x y) :
    ∃ before kind chars gap kind' chars' behind,
      ps = before ++ .token kind chars :: (gap ++ .token kind' chars' :: behind) ∧
        kind.Writes chars ∧ x ∈ chars ∧ gap.filter Piece.isShown = [] ∧ kind'.Writes chars' ∧
          chars' ++ behind.flatMap Piece.chars = y :: rest := by
  induction ps generalizing front with
  | nil => exact absurd h.symm (by simp)
  | cons p ps ih =>
    have hps := fun q hq => hclean q (List.mem_cons_of_mem p hq)
    have hbehind : ∀ front', ps.flatMap Piece.chars = front' ++ x :: (bs ++ y :: rest) →
        ∃ before kind chars gap kind' chars' behind,
          p :: ps = before ++ .token kind chars :: (gap ++ .token kind' chars' :: behind) ∧
            kind.Writes chars ∧ x ∈ chars ∧ gap.filter Piece.isShown = [] ∧ kind'.Writes chars' ∧
              chars' ++ behind.flatMap Piece.chars = y :: rest := by
      intro front' hfront'
      obtain ⟨before, kind, chars, gap, kind', chars', behind, rfl, hfound⟩ := ih hps hfront'
      exact ⟨p :: before, kind, chars, gap, kind', chars', behind, rfl, hfound⟩
    rw [List.flatMap_cons] at h
    rcases List.append_eq_append_iff.1 h with ⟨front', -, hfront'⟩ | ⟨tail, hchars, htail⟩
    · exact hbehind front' hfront'
    · cases tail with
      | nil => exact hbehind [] htail.symm
      | cons c tail =>
        obtain ⟨rfl, hrest⟩ := List.cons.inj htail
        cases hclean p List.mem_cons_self with
        | blanks _ hblank =>
          rw [Piece.chars] at hchars
          rw [hblank x (by rw [hchars]; simp)] at hx
          cases hx
        | @token kind chars hwrites =>
          rw [Piece.chars] at hchars
          have hx : x ∈ chars := by
            rw [hchars]
            simp
          cases tail with
          | nil =>
            obtain ⟨gap, kind', chars', behind, rfl, hfound⟩ :=
              exists_token_behind hps hbs hy hrest.symm
            exact ⟨[], kind, chars, gap, kind', chars', behind, rfl, hwrites, hx, hfound⟩
          | cons d tail =>
            have htext := hwrites.isTokenText
            cases bs with
            | nil =>
              obtain rfl := (List.cons.inj hrest).1
              have hwhole := htext.whole
              rw [hchars] at hwhole
              exact absurd (hgap.resolve_left fun hne => hne rfl)
                (List.isChain_append_cons_cons.1 hwhole).2.1
            | cons b bs =>
              obtain rfl := (List.cons.inj hrest).1
              have hb := htext.blank b (by rw [hchars]; simp)
              rw [hbs b List.mem_cons_self] at hb
              cases hb

end

theorem isOperand_of_operatorKind? {kind : TokenKind} {c : Char} (h : operatorKind? c = some kind) :
    kind.isOperand = false := by
  unfold operatorKind? at h
  split at h <;> cases h <;> rfl

theorem TokenKind.Writes.isOperand {kind : TokenKind} {chars : List Char} {c : Char}
    (h : kind.Writes chars) (hc : c ∈ chars) (hword : c.isAlpha = true ∨ isNumberChar c = true) :
    kind.isOperand = true := by
  cases h with
  | number | unit | name | cell => rfl
  | operator h =>
    obtain rfl := List.mem_singleton.1 hc
    have hnumber : isNumberChar c = false := by
      unfold operatorKind? at h
      split at h <;> cases h <;> decide
    rcases hword with hword | hword
    · rw [(UnitSheet.isOperator h).alpha] at hword
      cases hword
    · rw [hnumber] at hword
      cases hword

/-- A text without stray characters whose operands stand apart and whose units are known. -/
structure IsUnderstood (text : String) : Prop where
  clean : ∀ p ∈ pieces none text.toList, p.IsClean
  apart : Grammar.OperandsApart (Token.significant (lex text).tokens)
  resolve : Grammar.UnitsResolve (Token.significant (lex text).tokens)

theorem isUnderstood_of_evalText {s : Scope} {text : String} {q : Quantity}
    (hstrays : (lex text).strays = []) (h : s.evalText text = .ok q) : IsUnderstood text := by
  unfold Scope.evalText at h
  split at h
  · cases h
  · rename_i statement hparse
    have hderives := Grammar.parse_eq_ok_iff.1 hparse
    exact ⟨isClean_pieces (stray_not_mem_of_lex hstrays), hderives.operandsApart,
      hderives.unitsResolve ⟨q, h⟩⟩

section
variable {text : String} {kind kind' : TokenKind} {chars chars' : List Char}
  {before gap behind : List Piece}

theorem IsUnderstood.mayPrecede (h : IsUnderstood text)
    (hps : pieces none text.toList =
      before ++ .token kind chars :: (gap ++ .token kind' chars' :: behind))
    (hkind : kind.Writes chars) (hgap : gap.filter Piece.isShown = [])
    (hkind' : kind'.Writes chars') : kind.MayPrecede kind' := by
  have hcontent := content_significant text
  have hchain : ((Token.significant (lex text).tokens).map Token.content).IsChain
      fun t u => t.1.MayPrecede u.1 := (List.isChain_map _).2 h.apart
  rw [hcontent, hps] at hchain
  simp only [List.filter_append, List.filter_cons, Piece.isShown, hkind.shown, hkind'.shown, hgap,
    Bool.not_false, if_true, List.nil_append, List.filterMap_append, List.filterMap_cons,
    Piece.content?] at hchain
  exact (List.isChain_append_cons_cons.1 hchain).2.1

theorem IsUnderstood.resolveUnit (h : IsUnderstood text)
    (hunit : Piece.token .unit chars ∈ pieces none text.toList) :
    ∃ u, resolveUnit (String.ofList chars) = .ok u := by
  have hmem : (TokenKind.unit, String.ofList chars) ∈
      (Token.significant (lex text).tokens).map Token.content := by
    rw [content_significant]
    exact List.mem_filterMap.2 ⟨_, List.mem_filter.2 ⟨hunit, rfl⟩, rfl⟩
  obtain ⟨t, ht, hcontent⟩ := List.mem_map.1 hmem
  obtain ⟨hkind, htext⟩ := Prod.mk.inj hcontent
  exact htext ▸ h.resolve t ht hkind

end

section
variable {name power second : List Char}

theorem splitAtBreaks_append {isBreak : Char → Bool} {first more : List Char}
    (hfirst : ∀ c ∈ first, isBreak c = false) (hmore : ∀ c ∈ more.head?, isBreak c = true) :
    ∃ pieces, splitAtBreaks isBreak (first ++ more) = first :: pieces := by
  induction first with
  | nil =>
    cases more with
    | nil => exact ⟨[], rfl⟩
    | cons mark more => exact ⟨_, by rw [List.nil_append, splitAtBreaks, if_pos (hmore mark rfl)]⟩
  | cons c first ih =>
    obtain ⟨pieces, hpieces⟩ := ih fun d hd => hfirst d (List.mem_cons_of_mem c hd)
    refine ⟨pieces, ?_⟩
    rw [List.cons_append, splitAtBreaks, hfirst c List.mem_cons_self, if_neg Bool.false_ne_true,
      hpieces]

theorem name_of_ofChars? {cs : List Char} {u : UnitPower} (h : UnitPower.ofChars? cs = some u) :
    u.name = String.ofList (cs.takeWhile isAsciiLetter) := by
  unfold UnitPower.ofChars? at h
  dsimp only at h
  split at h
  · cases h
  · split at h
    · exact Option.some.inj h ▸ rfl
    · split at h
      · exact Option.some.inj h ▸ rfl
      · cases h
    · split at h
      · exact Option.some.inj h ▸ rfl
      · cases h
    · cases h

theorem mem_labelParts (hname : IsLetters name) (hpower : IsPowerText power)
    (hsecond : IsSecondText second) :
    (name ++ power, 1) ∈ labelParts (String.ofList (name ++ (power ++ second))) := by
  have hchars : ∀ c ∈ name ++ power, c.isAlpha = true ∨ c = '^' ∨ c = '-' ∨ isDecimalDigit c = true :=
    fun c hc => (List.mem_append.1 hc).imp (hname.2 c) ((isChain_power hpower).2 c)
  have hne : ∀ d ∈ ['/', '·', '*'], ∀ c ∈ name ++ power, c ≠ d := by
    intro d hd c hc
    have hdigit : ((['/', '·', '*'] : List Char).all fun d => !d.isAlpha && d != '^' && d != '-' &&
        !isDecimalDigit d) = true := by decide
    have hd := List.all_eq_true.1 hdigit d hd
    simp only [Bool.and_eq_true, Bool.not_eq_true', bne_iff_ne] at hd
    obtain ⟨⟨⟨halpha, hcaret⟩, hminus⟩, hdigit⟩ := hd
    rcases hchars c hc with hc | rfl | rfl | hc
    · exact ne_of_isAlpha hc halpha
    · exact hcaret.symm
    · exact hminus.symm
    · exact ne_of_isDecimalDigit hc hdigit
  obtain ⟨more, hnumerator, hmore⟩ : ∃ more,
      labelNumerator (String.ofList (name ++ (power ++ second))) = name ++ power ++ more ∧
        ∀ c ∈ more.head?, c = '·' := by
    have hslash : ∀ c ∈ name ++ power, (c != '/') = true := fun c hc =>
      bne_iff_ne.2 (hne '/' (by simp) c hc)
    have htake : labelNumerator (String.ofList (name ++ (power ++ second))) =
        name ++ power ++ second.takeWhile (· != '/') := by
      rw [labelNumerator, String.toList_ofList, ← List.append_assoc,
        List.takeWhile_append_of_pos hslash]
    refine ⟨_, htake, ?_⟩
    rcases hsecond with rfl | ⟨mark, _, _, rfl | rfl, -, -, rfl⟩
    · simp
    · simp
    · intro c hc
      exact (Option.some.inj hc).symm
  obtain ⟨c, tail, hcons, hc⟩ := hname.exists_cons
  have hsplit : (productParts (labelNumerator (String.ofList (name ++ (power ++ second))))).head? =
      some (name ++ power) := by
    obtain ⟨pieces, hpieces⟩ : ∃ pieces, splitAtBreaks (fun c => c == '·' || c == '*')
        (name ++ power ++ more) = (name ++ power) :: pieces :=
      splitAtBreaks_append (fun c hc => by simp [hne '·' (by simp) c hc, hne '*' (by simp) c hc])
        fun c hc => by simp [hmore c hc]
    have hvisible : ∀ c ∈ name ++ power, isBlank c = false := by
      intro c hc
      rcases hchars c hc with hc | rfl | rfl | hc
      · exact isBlank_of_isAlpha hc
      · decide
      · decide
      · exact isBlank_of_isDecimalDigit hc
    have hone : (!(name ++ power).isEmpty && name ++ power != ['1']) = true := by
      rw [hcons]
      simp [ne_of_isAlpha hc (d := '1') (by decide)]
    rw [productParts, hnumerator, hpieces, List.map_cons, strip_of_visible hvisible,
      List.filter_cons, hone, if_pos rfl]
    rfl
  refine List.mem_append_left _ (List.mem_map.2 ⟨name ++ power, List.mem_of_mem_head? hsplit, rfl⟩)

theorem isUnitName_of_resolveUnit {u : UnitDef} (hname : IsLetters name) (hpower : IsPowerText power)
    (hsecond : IsSecondText second)
    (h : resolveUnit (String.ofList (name ++ (power ++ second))) = .ok u) :
    isUnitName (String.ofList name) = true := by
  obtain ⟨ps, hps, hknown, -⟩ := resolveUnit_eq_ok h
  obtain ⟨p, hp, hread⟩ := mem_of_mapM_ofPart? hps _ (mem_labelParts hname hpower hsecond)
  obtain ⟨v, hv, rfl⟩ := Option.map_eq_some_iff.1 hread
  have htake : (name ++ power).takeWhile isAsciiLetter = name := by
    refine (span_append hname.2 fun c hc => ?_).1
    rcases hpower with rfl | ⟨digits, -, -, rfl | rfl⟩
    · cases hc
    · exact Option.some.inj hc ▸ rfl
    · exact Option.some.inj hc ▸ rfl
  have hvname := name_of_ofChars? hv
  have hregistered := hknown _ hp
  change isUnitName v.name = true at hregistered
  rwa [hvname, htake] at hregistered

end

section
variable {text : String} {word rest bs cs : List Char} {x y : Char}

/-- Behind a letter or a digit, the next letter belongs to the unit of a number, and this unit is
known. -/
theorem IsUnderstood.unit_behind (h : IsUnderstood text)
    (hsuffix : x :: (bs ++ y :: rest) <:+ text.toList)
    (hx : x.isAlpha = true ∨ isNumberChar x = true) (hy : y.isAlpha = true)
    (hbs : ∀ b ∈ bs, isBlank b = true) (hgap : bs ≠ [] ∨ Parts x y) :
    isNumeralChar x = true ∧
      isUnitName (String.ofList ((y :: rest).takeWhile Char.isAlpha)) = true := by
  have hblank : isBlank x = false := by
    rcases hx with hx | hx
    · exact isBlank_of_isAlpha hx
    · rw [← Bool.not_eq_true]
      intro hblank
      rw [isNumberChar_of_isBlank hblank] at hx
      cases hx
  obtain ⟨front, hfront⟩ := hsuffix
  obtain ⟨before, kind, chars, gap, kind', chars', behind, hps, hwrites, hxchars, hunshown, hwrites',
    hrest⟩ := exists_neighbours h.clean ((pieces_flatMap_chars none text.toList).trans hfront.symm)
      hblank (isBlank_of_isAlpha hy) hbs hgap
  have hychars : y ∈ chars' := by
    obtain ⟨d, tail, rfl⟩ := List.exists_cons_of_ne_nil hwrites'.isTokenText.ne_nil
    rw [(List.cons.inj hrest).1]
    exact List.mem_cons_self
  obtain ⟨⟨value, rfl⟩, rfl⟩ := h.mayPrecede hps hwrites hunshown hwrites'
    (hwrites.isOperand hxchars hx) (hwrites'.isOperand hychars (.inl hy))
  have hunit : IsUnitText chars' := by
    cases hwrites' with
    | unit hunit => exact hunit
    | operator hkind => cases isOperand_of_operatorKind? hkind
  have hmem : Piece.token .unit chars' ∈ pieces none text.toList := by
    rw [hps]
    simp
  obtain ⟨u, hu⟩ := h.resolveUnit hmem
  -- A further letter behind the label would be a further operand.
  have hend : ∀ c ∈ (behind.flatMap Piece.chars).head?, c.isAlpha = false := by
    intro c hc
    rw [← Bool.not_eq_true]
    intro halpha
    have hclean : ∀ p ∈ behind, p.IsClean := fun p hp => h.clean p (by rw [hps]; simp [hp])
    obtain ⟨tail, htail⟩ : ∃ tail, behind.flatMap Piece.chars = [] ++ c :: tail :=
      ⟨_, (List.eq_cons_of_mem_head? hc)⟩
    obtain ⟨gap', kind'', chars'', behind', rfl, hgap', hwrites'', hmore⟩ :=
      exists_token_behind hclean (by simp) (isBlank_of_isAlpha halpha) htail
    have hcchars : c ∈ chars'' := by
      obtain ⟨d, tail, rfl⟩ := List.exists_cons_of_ne_nil hwrites''.isTokenText.ne_nil
      rw [(List.cons.inj hmore).1]
      exact List.mem_cons_self
    have hps' : pieces none text.toList = (before ++ .token (.number value) chars :: gap) ++
        .token .unit chars' :: (gap' ++ .token kind'' chars'' :: behind') := by
      rw [hps, List.append_assoc]
      rfl
    obtain ⟨⟨_, hnumber⟩, -⟩ := h.mayPrecede hps' (.unit hunit) hgap' hwrites'' rfl
      (hwrites''.isOperand hcchars (.inl halpha))
    cases hnumber
  obtain ⟨name, power, second, hname, hpower, hsecond, rfl⟩ := hunit
  have htake : (y :: rest).takeWhile Char.isAlpha = name := by
    rw [← hrest, List.append_assoc]
    refine (span_append hname.2 fun c hc => ?_).1
    rcases hpower with rfl | ⟨digits, -, -, rfl | rfl⟩
    · rcases hsecond with rfl | ⟨mark, _, _, rfl | rfl, -, -, rfl⟩
      · exact hend c hc
      · exact Option.some.inj hc ▸ rfl
      · exact Option.some.inj hc ▸ rfl
    · exact Option.some.inj hc ▸ rfl
    · exact Option.some.inj hc ▸ rfl
  refine ⟨?_, htake ▸ isUnitName_of_resolveUnit hname hpower hsecond hu⟩
  cases hwrites with
  | number _ _ hall => exact hall x hxchars
  | operator hkind => cases isOperand_of_operatorKind? hkind

theorem exists_cons_of_repeatedUnit? {unit : List Char} (h : repeatedUnit? word = some unit) :
    isUnitName (String.ofList word) = false ∧ ∃ y tail, word = y :: tail ∧ y ≠ 'e' ∧ y ≠ 'E' := by
  unfold repeatedUnit? at h
  split at h
  · cases h
  · rename_i hname
    refine ⟨by simpa using hname, ?_⟩
    obtain ⟨name, hmem, rfl⟩ := List.mem_map.1 (List.mem_of_find?_eq_some h)
    have hall : ∀ n ∈ unitNames, isUnitName n = true := by decide +kernel
    have hunit : isUnitName (String.ofList name.toList) = true := by
      rw [String.ofList_toList]
      exact hall name (List.mem_mergeSort.1 hmem)
    have hrepeat := List.find?_some h
    simp only [isRepeat, Bool.and_eq_true, decide_eq_true_eq, beq_iff_eq] at hrepeat
    obtain ⟨⟨-, hcount⟩, hword⟩ := hrepeat
    obtain ⟨y, tail, hname, -, hlower, hupper⟩ := exists_cons_of_isUnitName hunit
    obtain ⟨count, hsucc⟩ := Nat.exists_eq_add_of_lt hcount
    rw [hsucc, copies, List.replicate_succ, List.flatten_cons, hname] at hword
    exact ⟨y, _, hword, hlower, hupper⟩

theorem exists_concat_of_isUnitName (h : isUnitName (String.ofList word) = true) :
    ∃ init x, word = init ++ [x] ∧ x.isAlpha = true ∧ x ≠ 'e' ∧ x ≠ 'E' := by
  have hall : ∀ e ∈ unitRegistry,
      (e.1.toList.getLast?.map fun x => x.isAlpha && x != 'e' && x != 'E').getD false = true := by
    decide +kernel
  obtain ⟨u, hu⟩ := Option.isSome_iff_exists.1 h
  have hlast := hall _ (unitDef?_eq_some_mem hu)
  rw [String.toList_ofList] at hlast
  rcases List.eq_nil_or_concat' word with rfl | ⟨init, x, rfl⟩
  · cases hlast
  · rw [List.getLast?_concat] at hlast
    exact ⟨init, x, rfl, by simpa [and_assoc] using hlast⟩

theorem IsUnderstood.dropRepeats_eq (h : IsUnderstood text)
    (hword : isUnitName (String.ofList word) = true) (hsuffix : word ++ rest <:+ text.toList) :
    dropRepeats word rest = rest := by
  cases rest with
  | nil => rw [dropRepeats]
  | cons b cs =>
    rw [dropRepeats, if_neg]
    rintro ⟨hb, hrepeat⟩
    obtain ⟨init, x, hinit, halpha, hlower, hupper⟩ := exists_concat_of_isUnitName hword
    obtain ⟨y, tail, hcons, hy, -⟩ := exists_cons_of_isUnitName hword
    have hcs : cs = cs.takeWhile isBlank ++ y :: (tail ++ (cs.dropWhile isBlank).dropWhile isWord) := by
      rw [← List.cons_append, ← hcons, ← hrepeat, List.takeWhile_append_dropWhile,
        List.takeWhile_append_dropWhile]
    have hbehind : x :: (b :: cs.takeWhile isBlank ++
        y :: (tail ++ (cs.dropWhile isBlank).dropWhile isWord)) <:+ text.toList := by
      refine List.IsSuffix.trans ⟨init, ?_⟩ hsuffix
      rw [List.cons_append, ← hcs, List.append_cons, ← hinit]
    obtain ⟨hnumeral, -⟩ := h.unit_behind hbehind (.inl halpha) hy
      (fun d hd => by
        rcases List.mem_cons.1 hd with rfl | hd
        · exact hb
        · exact List.mem_takeWhile_imp hd) (.inl (List.cons_ne_nil b _))
    exact (isAlpha_of_isNumeralChar hnumeral halpha).elim hlower hupper

theorem IsUnderstood.repeatedUnit?_eq_none (h : IsUnderstood text) (hx : isNumberChar x = true)
    (hsuffix : x :: rest <:+ text.toList) :
    repeatedUnit? ((rest.dropWhile isBlank).takeWhile Char.isAlpha) = none := by
  cases hunit : repeatedUnit? ((rest.dropWhile isBlank).takeWhile Char.isAlpha) with
  | none => rfl
  | some unit =>
    obtain ⟨hname, y, tail, hword, hlower, hupper⟩ := exists_cons_of_repeatedUnit? hunit
    have hy : y.isAlpha = true := by
      refine List.mem_takeWhile_imp (l := rest.dropWhile isBlank) (p := Char.isAlpha) ?_
      rw [hword]
      exact List.mem_cons_self
    obtain ⟨after, hafter⟩ : ∃ after, rest.dropWhile isBlank = y :: after := by
      refine ⟨tail ++ (rest.dropWhile isBlank).dropWhile Char.isAlpha, ?_⟩
      rw [← List.cons_append, ← hword, List.takeWhile_append_dropWhile]
    have hbehind : x :: (rest.takeWhile isBlank ++ y :: after) <:+ text.toList := by
      rwa [← hafter, List.takeWhile_append_dropWhile]
    obtain ⟨-, hknown⟩ := h.unit_behind hbehind (.inr hx) hy
      (fun d hd => List.mem_takeWhile_imp hd) (.inr ⟨hx, hy, hlower, hupper⟩)
    rw [hafter] at hname
    rw [hknown] at hname
    cases hname

theorem IsUnderstood.foldRepeats_eq (h : IsUnderstood text) : foldRepeats text = text := by
  have hglued : foldGlued text.toList = text.toList :=
    foldGlued_eq_of_forall fun x after hx hsuffix => h.repeatedUnit?_eq_none hx hsuffix
  have hspaced : foldSpaced text.toList = text.toList :=
    foldSpaced_eq_of_forall fun word rest hword hsuffix => h.dropRepeats_eq hword hsuffix
  rw [foldRepeats, hglued, hspaced, String.ofList_toList]

/-- Folding repeats leaves a text alone that has no stray characters and that has a value, whatever
its names and cell labels mean. -/
theorem foldRepeats_eq_self {s : Scope} {q : Quantity} (hstrays : (lex text).strays = [])
    (h : s.evalText text = .ok q) : foldRepeats text = text :=
  (isUnderstood_of_evalText hstrays h).foldRepeats_eq

end

theorem foldRepeats_eq_self_span : (lex "-(12  in)").strays = [] ∧
    (∃ q, Scope.empty.evalText "-(12  in)" = .ok q) ∧
      foldRepeats "-(12  in)" = "-(12  in)" := by
  have hstrays : (lex "-(12  in)").strays = [] := by decide +kernel
  have htokens : Token.significant (lex "-(12  in)").tokens =
      [⟨.minus, "-", 0⟩, ⟨.leftParen, "(", 1⟩, ⟨.number 12, "12", 2⟩, ⟨.unit, "in", 6⟩,
        ⟨.rightParen, ")", 8⟩] := by decide +kernel
  have hspan : Grammar.Derives .sum [⟨.number 12, "12", 2⟩, ⟨.unit, "in", 6⟩]
      (.literal 12 (some "in")) :=
    .sumOfProduct (.productOfPower (.powerOfSigned (.signedOfPrimary (.quantity rfl rfl))))
  have hparse : Grammar.parseText "-(12  in)" =
      .ok ⟨none, .signed (.ofSymbol "-") (.literal 12 (some "in"))⟩ := by
    refine Grammar.parse_eq_ok_iff.2 ?_
    rw [htokens]
    exact .formula (.sumOfProduct (.productOfPower (.powerOfSigned
      (.signedMore (.inr rfl) (.signedOfPrimary (.parens rfl hspan rfl))))))
  have hunit : resolveUnit "in" = .ok ⟨0.0254, .ofLength⟩ := rfl
  have hvalue : Scope.empty.evalText "-(12  in)" =
      .ok (Quantity.negate ⟨12 * 0.0254, .ofLength, some "in"⟩) := by
    rw [Scope.evalText, hparse]
    dsimp only
    rw [Scope.eval, Expr.evalWith, Expr.evalWith, Quantity.ofUnit, hunit]
    rfl
  exact ⟨hstrays, ⟨_, hvalue⟩, foldRepeats_eq_self hstrays hvalue⟩

end UnitSheet
