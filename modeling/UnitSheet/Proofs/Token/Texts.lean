import Mathlib.Data.List.Chain
import UnitSheet.Proofs.Token.Pieces
import UnitSheet.Proofs.Token.Steady

set_option autoImplicit false

namespace UnitSheet

def isKept (c : Char) : Bool :=
  !isInvisible c && plainGlyph c == c && c != '\\' && c != '×' && c != '÷'

def isPlainChar (c : Char) : Bool := !isBlank c && isKept c

def specialGlyphs : List Char :=
  ['\u2018', '\u2019', '\u201C', '\u201D', '\u2212', '\u2013', '\u2014', '\\', '×', '÷']

def Parts (x y : Char) : Prop :=
  isNumberChar x = true ∧ y.isAlpha = true ∧ y ≠ 'e' ∧ y ≠ 'E'

structure IsTokenText (chars : List Char) : Prop where
  ne_nil : chars ≠ []
  plain : ∀ c ∈ chars, isPlainChar c = true
  dot : ∀ c ∈ chars.head?, c ≠ '·'
  equals : '=' ∈ chars → chars = ['=']
  whole : chars.IsChain fun x y => ¬ Parts x y

section
variable {c : Char} {cs ds : List Char}

theorem isKept_of_ne (hinvisible : isInvisible c = false) (h : ∀ d ∈ specialGlyphs, c ≠ d) :
    isKept c = true := by
  simp only [specialGlyphs, List.forall_mem_cons] at h
  obtain ⟨h1, h2, h3, h4, h5, h6, h7, h8, h9, h10, -⟩ := h
  simp [isKept, plainGlyph, hinvisible, h1, h2, h3, h4, h5, h6, h7, h8, h9, h10]

theorem isKept_of_isBlank (h : isBlank c = true) : isKept c = true := by
  refine isKept_of_ne ?_ fun d hd => ne_of_isBlank h ?_
  · have hapart : ∀ r ∈ blankRanges, (r.2 < 0x200B ∨ 0x200D < r.1) ∧
        (r.2 < 0xFEFF ∨ 0xFEFF < r.1) := by decide
    obtain ⟨r, hr, hle, hge⟩ := exists_blankRange h
    have hapart := hapart r hr
    simp only [isInvisible, Bool.or_eq_false_iff, Bool.and_eq_false_iff, decide_eq_false_iff_not,
      beq_eq_false_iff_ne]
    omega
  · have hall : (specialGlyphs.all fun d => !isBlank d) = true := by decide
    simpa using List.all_eq_true.1 hall d hd

theorem isPlainChar_of_ne (hblank : isBlank c = false) (hinvisible : isInvisible c = false)
    (h : ∀ d ∈ specialGlyphs, c ≠ d) : isPlainChar c = true := by
  rw [isPlainChar, hblank, isKept_of_ne hinvisible h]
  rfl

theorem isPlainChar_of_isAlpha (h : c.isAlpha = true) : isPlainChar c = true := by
  refine isPlainChar_of_ne (isBlank_of_isAlpha h) ?_ fun d hd => ne_of_isAlpha h ?_
  · have hrange := toNat_of_isAlpha h
    simp only [isInvisible, Bool.or_eq_false_iff, Bool.and_eq_false_iff, decide_eq_false_iff_not,
      beq_eq_false_iff_ne]
    omega
  · have hall : (specialGlyphs.all fun d => !d.isAlpha) = true := by decide
    simpa using List.all_eq_true.1 hall d hd

theorem isPlainChar_of_isDecimalDigit (h : isDecimalDigit c = true) : isPlainChar c = true := by
  refine isPlainChar_of_ne (isBlank_of_isDecimalDigit h) ?_ fun d hd => ne_of_isDecimalDigit h ?_
  · have hapart : ∀ first ∈ digitZeros, (first + 10 ≤ 0x200B ∨ 0x200D < first) ∧
        (first + 10 ≤ 0xFEFF ∨ 0xFEFF < first) := by decide
    obtain ⟨first, hfirst, hle, hlt⟩ := exists_digitZero h
    have hapart := hapart first hfirst
    simp only [isInvisible, Bool.or_eq_false_iff, Bool.and_eq_false_iff, decide_eq_false_iff_not,
      beq_eq_false_iff_ne]
    omega
  · have hall : (specialGlyphs.all fun d => !isDecimalDigit d) = true := by decide
    simpa using List.all_eq_true.1 hall d hd

theorem isChain_of_not_number (h : ∀ c ∈ cs, isNumberChar c = false) :
    cs.IsChain fun x y => ¬ Parts x y := by
  induction cs with
  | nil => exact .nil
  | cons c cs ih =>
    refine List.isChain_cons.2 ⟨fun y _ hparts => ?_, ih fun d hd => h d (List.mem_cons_of_mem c hd)⟩
    exact absurd hparts.1 (by rw [h c List.mem_cons_self]; decide)

theorem isChain_of_letters (h : ∀ c ∈ cs, c.isAlpha = true → c = 'e' ∨ c = 'E') :
    cs.IsChain fun x y => ¬ Parts x y := by
  induction cs with
  | nil => exact .nil
  | cons c cs ih =>
    refine List.isChain_cons.2 ⟨fun y hy hparts => ?_, ih fun d hd => h d (List.mem_cons_of_mem c hd)⟩
    obtain ⟨-, halpha, hlower, hupper⟩ := hparts
    exact (h y (List.mem_cons_of_mem c (List.mem_of_mem_head? hy)) halpha).elim hlower hupper

theorem isChain_append (hcs : cs.IsChain fun x y => ¬ Parts x y)
    (hds : ds.IsChain fun x y => ¬ Parts x y)
    (h : (∀ c ∈ cs, isNumberChar c = false) ∨ ∀ c ∈ ds.head?, c.isAlpha = false) :
    (cs ++ ds).IsChain fun x y => ¬ Parts x y := by
  refine List.isChain_append.2 ⟨hcs, hds, fun x hx y hy hparts => ?_⟩
  rcases h with h | h
  · exact absurd hparts.1 (by rw [h x (List.mem_of_mem_getLast? hx)]; decide)
  · exact absurd hparts.2.1 (by rw [h y hy]; decide)

theorem isChain_letters (h : ∀ c ∈ cs, c.isAlpha = true) : cs.IsChain fun x y => ¬ Parts x y :=
  isChain_of_not_number fun c hc => isNumberChar_of_isAlpha (h c hc)

theorem isAlpha_of_isDecimalDigit (h : isDecimalDigit c = true) : c.isAlpha = false := by
  rw [← Bool.not_eq_true]
  intro halpha
  rw [isDecimalDigit_of_isAlpha halpha] at h
  cases h

theorem isChain_digits (h : ∀ c ∈ cs, isDecimalDigit c = true) :
    cs.IsChain fun x y => ¬ Parts x y := by
  refine isChain_of_letters fun c hc halpha => ?_
  rw [isAlpha_of_isDecimalDigit (h c hc)] at halpha
  cases halpha

def isNumeralChar (c : Char) : Bool :=
  isNumberChar c || c == '+' || c == '-' || c == 'e' || c == 'E'

theorem isNumeralChar_of_isDecimalDigit (h : isDecimalDigit c = true) : isNumeralChar c = true := by
  simp [isNumeralChar, isNumberChar, h]

theorem mem_optional {lead : List Char} {found : List Char × List Char}
    (h : c ∈ (Scan.optional lead cs found).1) : c ∈ lead ∨ c ∈ found.1 := by
  rcases optional_cases lead cs found with hnone | ⟨-, hsome⟩
  · rw [hnone] at h
    cases h
  · rw [hsome] at h
    exact List.mem_append.1 h

theorem mem_andThen_scan {first : List Char × List Char}
    {next : List Char → List Char × List Char} (h : c ∈ (Scan.andThen first next).1) :
    c ∈ first.1 ∨ c ∈ (next first.2).1 :=
  List.mem_append.1 h

theorem isNumeralChar_of_mem_digits (h : c ∈ (Scan.digits cs).1) : isNumeralChar c = true :=
  isNumeralChar_of_isDecimalDigit (isDecimalDigit_of_mem_digits h)

theorem isNumeralChar_of_mem_groups (h : c ∈ (Scan.groups cs).1) : isNumeralChar c = true := by
  fun_induction Scan.groups cs with
  | case1 a b d rest hdigits ih =>
    simp only [Bool.and_eq_true] at hdigits
    simp only [List.mem_cons] at h
    rcases h with rfl | rfl | rfl | rfl | h
    · rfl
    · exact isNumeralChar_of_isDecimalDigit hdigits.1.1
    · exact isNumeralChar_of_isDecimalDigit hdigits.1.2
    · exact isNumeralChar_of_isDecimalDigit hdigits.2
    · exact ih h
  | case2 | case3 => cases h

theorem isNumeralChar_of_mem_whole (h : c ∈ (Scan.whole cs).1) : isNumeralChar c = true := by
  rcases mem_andThen_scan h with h | h
  · exact isNumeralChar_of_mem_digits h
  · split at h
    · exact isNumeralChar_of_mem_groups h
    · cases h

theorem isNumeralChar_of_mem_sign (h : c ∈ (Scan.sign cs).1) : isNumeralChar c = true := by
  unfold Scan.sign at h
  split at h
  · rw [List.mem_singleton.1 h]
    rfl
  · rw [List.mem_singleton.1 h]
    rfl
  · cases h

theorem isNumeralChar_of_mem_fraction (h : c ∈ (Scan.fraction cs).1) : isNumeralChar c = true := by
  unfold Scan.fraction at h
  split at h
  · rcases mem_optional h with h | h
    · rw [List.mem_singleton.1 h]
      rfl
    · exact isNumeralChar_of_mem_digits h
  · cases h

theorem isNumeralChar_of_mem_exponent (h : c ∈ (Scan.exponent cs).1) : isNumeralChar c = true := by
  unfold Scan.exponent at h
  split at h
  · split at h
    · rename_i hmark
      rcases mem_optional h with h | h
      · rcases List.mem_cons.1 h with rfl | h
        · rcases hmark with rfl | rfl <;> rfl
        · exact isNumeralChar_of_mem_sign h
      · exact isNumeralChar_of_mem_digits h
    · cases h
  · cases h

theorem isNumeralChar_of_number? {rest : List Char} (h : Scan.number? cs = some (ds, rest)) :
    ∀ c ∈ ds, isNumeralChar c = true := by
  unfold Scan.number? at h
  dsimp only at h
  split at h
  · cases h
  · obtain ⟨rfl, -⟩ := Prod.mk.inj (Option.some.inj h)
    intro c hc
    rcases List.mem_append.1 hc with hc | hc
    · exact isNumeralChar_of_mem_sign hc
    · rcases mem_andThen_scan hc with hc | hc
      · rcases mem_andThen_scan hc with hc | hc
        · exact isNumeralChar_of_mem_whole hc
        · exact isNumeralChar_of_mem_fraction hc
      · exact isNumeralChar_of_mem_exponent hc

theorem isPlainChar_of_isNumeralChar (h : isNumeralChar c = true) : isPlainChar c = true := by
  simp only [isNumeralChar, isNumberChar, Bool.or_eq_true, beq_iff_eq] at h
  rcases h with (((((h | rfl) | rfl) | rfl) | rfl) | rfl) | rfl
  · exact isPlainChar_of_isDecimalDigit h
  all_goals decide

theorem isAlpha_of_isNumeralChar (h : isNumeralChar c = true) (halpha : c.isAlpha = true) :
    c = 'e' ∨ c = 'E' := by
  simp only [isNumeralChar, isNumberChar, isDecimalDigit_of_isAlpha halpha, Bool.or_eq_true,
    beq_iff_eq] at h
  rcases h with (((((h | rfl) | rfl) | rfl) | rfl) | h) | h
  · cases h
  · cases halpha
  · cases halpha
  · cases halpha
  · cases halpha
  · exact .inl h
  · exact .inr h

theorem isTokenText_number (hne : cs ≠ []) (hall : ∀ c ∈ cs, isNumeralChar c = true) :
    IsTokenText cs := by
  refine ⟨hne, fun c hc => isPlainChar_of_isNumeralChar (hall c hc), ?_, ?_,
    isChain_of_letters fun c hc => isAlpha_of_isNumeralChar (hall c hc)⟩
  · rintro c hc rfl
    exact absurd (hall '·' (List.mem_of_mem_head? hc)) (by decide)
  · exact fun hc => absurd (hall '=' hc) (by decide)

theorem isChain_power (h : IsPowerText cs) :
    (cs.IsChain fun x y => ¬ Parts x y) ∧ ∀ c ∈ cs, c = '^' ∨ c = '-' ∨ isDecimalDigit c = true := by
  have hsigns : ∀ (signs : List Char) {digits : List Char}, (∀ c ∈ signs, c = '^' ∨ c = '-') →
      (∀ c ∈ digits, isDecimalDigit c = true) →
      ((signs ++ digits).IsChain fun x y => ¬ Parts x y) ∧
        ∀ c ∈ signs ++ digits, c = '^' ∨ c = '-' ∨ isDecimalDigit c = true := by
    intro signs digits hsigns hdigits
    have hall : ∀ c ∈ signs ++ digits, c = '^' ∨ c = '-' ∨ isDecimalDigit c = true := by
      intro c hc
      rcases List.mem_append.1 hc with hc | hc
      · exact (hsigns c hc).imp_right .inl
      · exact .inr (.inr (hdigits c hc))
    refine ⟨isChain_of_letters fun c hc halpha => ?_, hall⟩
    rcases hall c hc with rfl | rfl | hdigit
    · cases halpha
    · cases halpha
    · rw [isAlpha_of_isDecimalDigit hdigit] at halpha
      cases halpha
  rcases h with rfl | ⟨digits, -, hdigits, rfl | rfl⟩
  · exact ⟨.nil, by simp⟩
  · exact hsigns ['^'] (by simp) hdigits
  · exact hsigns ['^', '-'] (by simp) hdigits

def isUnitTextChar (c : Char) : Bool :=
  c.isAlpha || isDecimalDigit c || c == '^' || c == '-' || c == '/' || c == '·'

theorem isUnitTextChar_of_power (h : IsPowerText cs) : ∀ c ∈ cs, isUnitTextChar c = true := by
  intro c hc
  rcases (isChain_power h).2 c hc with rfl | rfl | hdigit
  · rfl
  · rfl
  · simp [isUnitTextChar, hdigit]

theorem isUnitTextChar_of_letters (h : IsLetters cs) : ∀ c ∈ cs, isUnitTextChar c = true := by
  intro c hc
  simp [isUnitTextChar, h.2 c hc]

theorem isUnitTextChar_of_second (h : IsSecondText cs) : ∀ c ∈ cs, isUnitTextChar c = true := by
  rcases h with rfl | ⟨mark, name, power, hmark, hname, hpower, rfl⟩
  · simp
  · intro c hc
    rcases List.mem_cons.1 hc with rfl | hc
    · rcases hmark with rfl | rfl <;> simp [isUnitTextChar]
    · rcases List.mem_append.1 hc with hc | hc
      · exact isUnitTextChar_of_letters hname c hc
      · exact isUnitTextChar_of_power hpower c hc

theorem isUnitTextChar_of_unit (h : IsUnitText cs) : ∀ c ∈ cs, isUnitTextChar c = true := by
  obtain ⟨name, power, second, hname, hpower, hsecond, rfl⟩ := h
  intro c hc
  rcases List.mem_append.1 hc with hc | hc
  · exact isUnitTextChar_of_letters hname c hc
  · rcases List.mem_append.1 hc with hc | hc
    · exact isUnitTextChar_of_power hpower c hc
    · exact isUnitTextChar_of_second hsecond c hc

theorem isChain_second (h : IsSecondText cs) : cs.IsChain fun x y => ¬ Parts x y := by
  rcases h with rfl | ⟨mark, name, power, hmark, hname, hpower, rfl⟩
  · exact .nil
  · have hmark' : isNumberChar mark = false := by rcases hmark with rfl | rfl <;> decide
    have hnumber : ∀ c ∈ mark :: name, isNumberChar c = false := by
      intro c hc
      rcases List.mem_cons.1 hc with rfl | hc
      · exact hmark'
      · exact isNumberChar_of_isAlpha (hname.2 c hc)
    exact isChain_append (isChain_of_not_number hnumber) (isChain_power hpower).1 (.inl hnumber)

theorem isTokenText_unit (h : IsUnitText cs) : IsTokenText cs := by
  have hall := isUnitTextChar_of_unit h
  obtain ⟨c, tail, hcs, hc⟩ := h.exists_cons
  refine ⟨hcs ▸ List.cons_ne_nil c tail, fun d hd => ?_, ?_, ?_, ?_⟩
  · have hd := hall d hd
    simp only [isUnitTextChar, Bool.or_eq_true, beq_iff_eq] at hd
    rcases hd with ((((hd | hd) | rfl) | rfl) | rfl) | rfl
    · exact isPlainChar_of_isAlpha hd
    · exact isPlainChar_of_isDecimalDigit hd
    all_goals decide
  · rw [hcs]
    rintro d hd rfl
    obtain rfl := Option.some.inj hd
    cases hc
  · exact fun hd => absurd (hall '=' hd) (by decide)
  · obtain ⟨name, power, second, hname, hpower, hsecond, rfl⟩ := h
    have hrest : ((power ++ second).IsChain fun x y => ¬ Parts x y) := by
      refine isChain_append (isChain_power hpower).1 (isChain_second hsecond) (.inr ?_)
      rcases hsecond with rfl | ⟨mark, _, _, hmark, -, -, rfl⟩
      · simp
      · intro d hd
        obtain rfl := Option.some.inj hd
        rcases hmark with rfl | rfl <;> rfl
    exact isChain_append (isChain_letters hname.2) hrest
      (.inl fun d hd => isNumberChar_of_isAlpha (hname.2 d hd))

theorem isTokenText_cell (h : IsCellText cs) : IsTokenText cs := by
  obtain ⟨name, digits, hname, hne, hdigits, rfl⟩ := h
  have hall : ∀ c ∈ name ++ digits, c.isAlpha = true ∨ isDecimalDigit c = true := by
    intro c hc
    exact (List.mem_append.1 hc).imp (hname.2 c) (hdigits c)
  refine ⟨by simp [hne], fun c hc => ?_, ?_, fun hc => ?_, ?_⟩
  · exact (hall c hc).elim isPlainChar_of_isAlpha isPlainChar_of_isDecimalDigit
  · rintro c hc rfl
    exact absurd (hall '·' (List.mem_of_mem_head? hc)) (by decide)
  · exact absurd (hall '=' hc) (by decide)
  · exact isChain_append (isChain_letters hname.2) (isChain_digits hdigits)
      (.inl fun c hc => isNumberChar_of_isAlpha (hname.2 c hc))

theorem isTokenText_name (h : IsNameText cs) : IsTokenText cs := by
  have hall : ∀ d ∈ cs, d.isAlpha = true ∨ d = '_' ∨ d = '\'' := by
    intro d hd
    have hname := isNameChar_of_isNameText h d hd
    simpa [isNameChar, isNameStart, or_assoc] using hname
  obtain ⟨c, tail, hc, -, rfl⟩ := h
  refine ⟨List.cons_ne_nil c tail, fun d hd => ?_, ?_, fun hd => ?_,
    isChain_of_not_number fun d hd => ?_⟩
  · rcases hall d hd with hd | rfl | rfl
    · exact isPlainChar_of_isAlpha hd
    all_goals decide
  · rintro d hd rfl
    exact absurd (hall '·' (List.mem_of_mem_head? hd)) (by decide)
  · exact absurd (hall '=' hd) (by decide)
  · rcases hall d hd with hd | rfl | rfl
    · exact isNumberChar_of_isAlpha hd
    all_goals decide

theorem isTokenText_operator {kind : TokenKind} (h : operatorKind? c = some kind) :
    IsTokenText [c] := by
  have hone : ∀ {d : Char}, isPlainChar d = true → d ≠ '·' → IsTokenText [d] := by
    intro d hplain hdot
    refine ⟨List.cons_ne_nil d [], fun e he => List.mem_singleton.1 he ▸ hplain, ?_, ?_, .singleton d⟩
    · exact fun e he => Option.some.inj he ▸ hdot
    · exact fun he => List.mem_singleton.1 he ▸ rfl
  unfold operatorKind? at h
  split at h <;> cases h <;> exact hone (by decide) (by decide)

end

inductive TokenKind.Writes : TokenKind → List Char → Prop
  | number (value : Float) {cs : List Char} :
      cs ≠ [] → (∀ c ∈ cs, isNumeralChar c = true) → Writes (.number value) cs
  | unit {cs : List Char} : IsUnitText cs → Writes .unit cs
  | name {cs : List Char} : IsNameText cs → Writes .identifier cs
  | cell {cs : List Char} : IsCellText cs → Writes .cellRef cs
  | operator {c : Char} {kind : TokenKind} : operatorKind? c = some kind → Writes kind [c]

section
variable {kind : TokenKind} {chars : List Char}

theorem TokenKind.Writes.isTokenText (h : kind.Writes chars) : IsTokenText chars := by
  cases h with
  | number _ hne hall => exact isTokenText_number hne hall
  | unit h => exact isTokenText_unit h
  | name h => exact isTokenText_name h
  | cell h => exact isTokenText_cell h
  | operator h => exact isTokenText_operator h

theorem TokenKind.Writes.shown (h : kind.Writes chars) : kind.isWhitespace = false := by
  cases h with
  | number | unit | name | cell => rfl
  | operator h => exact (isOperator h).shown

end

inductive Piece.IsClean : Piece → Prop
  | blanks {chars : List Char} :
      chars ≠ [] → (∀ c ∈ chars, isBlank c = true) → IsClean (.token .whitespace chars)
  | token {kind : TokenKind} {chars : List Char} : kind.Writes chars → IsClean (.token kind chars)

section
variable {previous : Option TokenKind} {c : Char} {cs lexeme rest : List Char} {p : Piece}

theorem isClean_unitBehind (cs : List Char) : ∀ p ∈ (unitBehind cs).1, p.IsClean := by
  intro p hp
  unfold unitBehind at hp
  dsimp only at hp
  split at hp
  · cases hp
  · split at hp
    · cases hp
    · rename_i label rest hunit
      rcases List.mem_append.1 hp with hp | hp
      · split at hp
        · cases hp
        · rename_i hempty
          rw [List.mem_singleton.1 hp]
          exact .blanks (by simpa using hempty) fun c hc => List.mem_takeWhile_imp hc
      · rw [List.mem_singleton.1 hp]
        exact .token (.unit (isUnitText_of_unit? hunit))

theorem writes_wordAt? (h : wordAt? cs = some (p, rest)) :
    ∃ kind word, p = .token kind word ∧ kind.Writes word := by
  unfold wordAt? at h
  split at h
  · cases h
  · split at h
    · rename_i hcell
      obtain ⟨rfl, -⟩ := Prod.mk.inj (Option.some.inj h)
      exact ⟨_, _, rfl, .cell (isCellText_of_cell? hcell)⟩
    · split at h
      · rename_i hstart
        obtain ⟨rfl, -⟩ := Prod.mk.inj (Option.some.inj h)
        exact ⟨_, _, rfl, .name ⟨_, _, hstart, fun d hd => List.mem_takeWhile_imp hd, rfl⟩⟩
      · cases h

theorem writes_numberAt? (h : numberAt? previous cs = some (lexeme, rest)) :
    (TokenKind.number (readNumber lexeme)).Writes lexeme := by
  refine .number _ (numberAt?_append h).2 ?_
  unfold numberAt? at h
  split at h
  · cases h
  · split at h
    · exact isNumeralChar_of_number? h
    · cases h

theorem firstPieces_cases (previous : Option TokenKind) (hc : isBlank c = false) (cs : List Char) :
    (∃ lexeme rest, numberAt? previous (c :: cs) = some (lexeme, rest) ∧
      firstPieces previous c cs = (.token (.number (readNumber lexeme)) lexeme ::
        (unitBehind rest).1, (unitBehind rest).2)) ∨
    (numberAt? previous (c :: cs) = none ∧
      ((∃ kind, operatorKind? c = some kind ∧ firstPieces previous c cs = ([.token kind [c]], cs)) ∨
      (operatorKind? c = none ∧
        ((∃ kind word rest, wordAt? (c :: cs) = some (.token kind word, rest) ∧
          kind.Writes word ∧ firstPieces previous c cs = ([.token kind word], rest)) ∨
        (wordAt? (c :: cs) = none ∧ firstPieces previous c cs = ([.stray c], cs)))))) := by
  rw [firstPieces, if_neg (by rw [hc]; decide)]
  cases hnumber : numberAt? previous (c :: cs) with
  | some found => exact .inl ⟨found.1, found.2, rfl, rfl⟩
  | none =>
    refine .inr ⟨rfl, ?_⟩
    cases hkind : operatorKind? c with
    | some kind => exact .inl ⟨kind, rfl, rfl⟩
    | none =>
      refine .inr ⟨rfl, ?_⟩
      cases hword : wordAt? (c :: cs) with
      | none => exact .inr ⟨rfl, rfl⟩
      | some found =>
        obtain ⟨p, rest⟩ := found
        obtain ⟨kind, word, rfl, hwrites⟩ := writes_wordAt? hword
        exact .inl ⟨kind, word, rest, rfl, hwrites, rfl⟩

theorem isClean_firstPieces (previous : Option TokenKind) (c : Char) (cs : List Char) :
    ∀ p ∈ (firstPieces previous c cs).1, p.IsClean ∨ ∃ d, p = .stray d := by
  intro p hp
  cases hc : isBlank c with
  | true =>
    rw [firstPieces, if_pos hc] at hp
    rw [List.mem_singleton.1 hp]
    refine .inl (.blanks (List.cons_ne_nil c _) fun d hd => ?_)
    rcases List.mem_cons.1 hd with rfl | hd
    · exact hc
    · exact List.mem_takeWhile_imp hd
  | false =>
    rcases firstPieces_cases previous hc cs with ⟨lexeme, rest, hnumber, hfirst⟩ |
      ⟨-, ⟨kind, hkind, hfirst⟩ | ⟨-, ⟨kind, word, rest, -, hwrites, hfirst⟩ | ⟨-, hfirst⟩⟩⟩
    · rw [hfirst] at hp
      rcases List.mem_cons.1 hp with rfl | hp
      · exact .inl (.token (writes_numberAt? hnumber))
      · exact .inl (isClean_unitBehind _ p hp)
    · rw [hfirst] at hp
      rw [List.mem_singleton.1 hp]
      exact .inl (.token (.operator hkind))
    · rw [hfirst] at hp
      rw [List.mem_singleton.1 hp]
      exact .inl (.token hwrites)
    · rw [hfirst] at hp
      exact .inr ⟨c, List.mem_singleton.1 hp⟩

theorem isClean_pieces (h : ∀ c, Piece.stray c ∉ pieces previous cs) :
    ∀ p ∈ pieces previous cs, p.IsClean := by
  have hall : ∀ p ∈ pieces previous cs, p.IsClean ∨ ∃ c, p = .stray c := by
    clear h
    fun_induction pieces previous cs with
    | case1 => simp
    | case2 previous c cs ih =>
      intro p hp
      rcases List.mem_append.1 hp with hp | hp
      · exact isClean_firstPieces previous c cs p hp
      · exact ih p hp
  intro p hp
  rcases hall p hp with hclean | ⟨c, rfl⟩
  · exact hclean
  · exact absurd hp (h c)

end

end UnitSheet
