import UnitSheet.Line.Kind
import UnitSheet.Proofs.Number.Numeral
import UnitSheet.Proofs.Token.Spelling

set_option autoImplicit false

namespace UnitSheet

def IsEnd (rest : List Char) : Prop := ∀ c ∈ rest.head?, c = ' ' ∨ c = ')'

def IsLetters (cs : List Char) : Prop := cs ≠ [] ∧ ∀ c ∈ cs, c.isAlpha = true

def IsPowerText (cs : List Char) : Prop :=
  cs = [] ∨ ∃ digits, digits ≠ [] ∧ (∀ d ∈ digits, isDecimalDigit d = true) ∧
    (cs = '^' :: digits ∨ cs = '^' :: '-' :: digits)

def IsSecondText (cs : List Char) : Prop :=
  cs = [] ∨ ∃ mark name power, (mark = '/' ∨ mark = '·') ∧ IsLetters name ∧ IsPowerText power ∧
    cs = mark :: (name ++ power)

def IsUnitText (cs : List Char) : Prop :=
  ∃ name power second, IsLetters name ∧ IsPowerText power ∧ IsSecondText second ∧
    cs = name ++ (power ++ second)

def IsNameText (cs : List Char) : Prop :=
  ∃ c tail, isNameStart c = true ∧ (∀ d ∈ tail, isNameChar d = true) ∧ cs = c :: tail

theorem isNameChar_of_isNameText {cs : List Char} (h : IsNameText cs) :
    ∀ c ∈ cs, isNameChar c = true := by
  obtain ⟨c, tail, hc, htail, rfl⟩ := h
  intro d hd
  rcases List.mem_cons.1 hd with rfl | hd
  · rw [isNameChar, hc, Bool.true_or]
  · exact htail d hd

def IsCellText (cs : List Char) : Prop :=
  ∃ name digits, IsLetters name ∧ digits ≠ [] ∧ (∀ d ∈ digits, isDecimalDigit d = true) ∧
    cs = name ++ digits

section
variable {cs word rest : List Char}

theorem IsEnd.not {p : Char → Bool} (h : IsEnd rest) (hblank : p ' ' = false) (hparen : p ')' = false) :
    ∀ c ∈ rest.head?, p c = false := by
  intro c hc
  rcases h c hc with rfl | rfl
  · exact hblank
  · exact hparen

theorem run_append {p : Char → Bool} (h : ∀ c ∈ cs, p c = true)
    (hrest : ∀ c ∈ rest.head?, p c = false) : Scan.run p (cs ++ rest) = (cs, rest) := by
  obtain ⟨htake, hdrop⟩ := span_append h hrest
  rw [Scan.run, htake, hdrop]

theorem IsLetters.exists_cons (h : IsLetters cs) : ∃ c tail, cs = c :: tail ∧ c.isAlpha = true := by
  obtain ⟨c, tail, rfl⟩ := List.exists_cons_of_ne_nil h.1
  exact ⟨c, tail, rfl, h.2 c List.mem_cons_self⟩

theorem IsUnitText.exists_cons (h : IsUnitText cs) :
    ∃ c tail, cs = c :: tail ∧ c.isAlpha = true := by
  obtain ⟨name, power, second, hname, -, -, rfl⟩ := h
  obtain ⟨c, tail, rfl, hc⟩ := hname.exists_cons
  exact ⟨c, _, rfl, hc⟩

theorem IsCellText.exists_cons (h : IsCellText cs) :
    ∃ c tail, cs = c :: tail ∧ c.isAlpha = true := by
  obtain ⟨name, digits, hname, -, -, rfl⟩ := h
  obtain ⟨c, tail, rfl, hc⟩ := hname.exists_cons
  exact ⟨c, _, rfl, hc⟩

theorem isLetters_letters (h : ((Scan.letters cs).1.isEmpty) = false) :
    IsLetters (Scan.letters cs).1 := by
  refine ⟨fun hnil => ?_, fun c hc => List.mem_takeWhile_imp hc⟩
  rw [hnil] at h
  cases h

theorem isDecimalDigit_of_mem_digits {c : Char} (h : c ∈ (Scan.digits cs).1) :
    isDecimalDigit c = true := List.mem_takeWhile_imp h

theorem optional_cases (lead : List Char) (cs : List Char) (found : List Char × List Char) :
    (Scan.optional lead cs found).1 = [] ∨
      found.1 ≠ [] ∧ (Scan.optional lead cs found).1 = lead ++ found.1 := by
  unfold Scan.optional
  split
  · exact .inl rfl
  · rename_i h
    exact .inr ⟨by simpa using h, rfl⟩

theorem isPowerText_power (cs : List Char) : IsPowerText (Scan.power cs).1 := by
  unfold Scan.power
  split
  · rename_i rest
    rcases optional_cases ['^', '-'] ('^' :: '-' :: rest) (Scan.digits rest) with h | ⟨hne, h⟩
    · exact .inl h
    · exact .inr ⟨_, hne, fun d => isDecimalDigit_of_mem_digits, .inr h⟩
  · rename_i rest _
    rcases optional_cases ['^'] ('^' :: rest) (Scan.digits rest) with h | ⟨hne, h⟩
    · exact .inl h
    · exact .inr ⟨_, hne, fun d => isDecimalDigit_of_mem_digits, .inl h⟩
  · exact .inl rfl

theorem isSecondText_secondName (cs : List Char) : IsSecondText (Scan.secondName cs).1 := by
  unfold Scan.secondName
  split
  · rename_i mark rest
    split
    · rename_i hmark
      unfold Scan.andThen Scan.optional
      cases hempty : (Scan.letters rest).1.isEmpty with
      | true => exact .inl rfl
      | false =>
        exact .inr ⟨mark, _, _, hmark, isLetters_letters hempty, isPowerText_power _, rfl⟩
    · exact .inl rfl
  · exact .inl rfl

theorem isUnitText_of_unit? {label : List Char} (h : Scan.unit? cs = some (label, rest)) :
    IsUnitText label := by
  unfold Scan.unit? at h
  split at h
  · cases h
  · rename_i hletters
    obtain ⟨rfl, -⟩ := Prod.mk.inj (Option.some.inj h)
    exact ⟨_, (Scan.power (Scan.letters cs).2).1,
      (Scan.secondName (Scan.power (Scan.letters cs).2).2).1,
      isLetters_letters (by simpa using hletters), isPowerText_power _, isSecondText_secondName _,
      List.append_assoc _ _ _⟩

theorem isCellText_of_cell? {label : List Char} (h : Scan.cell? cs = some (label, rest)) :
    IsCellText label := by
  unfold Scan.cell? at h
  dsimp only at h
  split at h
  · cases h
  · rename_i hfound
    simp only [Bool.or_eq_true, not_or, Bool.not_eq_true] at hfound
    obtain ⟨rfl, -⟩ := Prod.mk.inj (Option.some.inj h)
    refine ⟨_, _, isLetters_letters hfound.1, fun hnil => ?_,
      fun d => isDecimalDigit_of_mem_digits, rfl⟩
    rw [hnil] at hfound
    cases hfound.2

theorem power_append (h : IsPowerText cs) (hcaret : ∀ c ∈ rest.head?, c ≠ '^')
    (hdigit : ∀ c ∈ rest.head?, isDecimalDigit c = false) :
    Scan.power (cs ++ rest) = (cs, rest) := by
  rcases h with rfl | ⟨digits, hne, hdigits, rfl | rfl⟩
  · rw [List.nil_append]
    unfold Scan.power
    split
    · exact absurd rfl (hcaret '^' rfl)
    · exact absurd rfl (hcaret '^' rfl)
    · rfl
  · obtain ⟨d, ds, rfl⟩ := List.exists_cons_of_ne_nil hne
    have hrun : Scan.digits (d :: ds ++ rest) = (d :: ds, rest) := run_append hdigits hdigit
    have hminus : d ≠ '-' := by
      rintro rfl
      exact absurd (hdigits '-' List.mem_cons_self) (by decide)
    rw [List.cons_append]
    unfold Scan.power
    split
    · rename_i heq
      exact absurd (List.cons.inj (List.cons.inj heq).2).1 hminus
    · rename_i heq
      obtain ⟨-, rfl⟩ := List.cons.inj heq
      rw [hrun]
      rfl
    · rename_i hcaret
      exact (hcaret _ rfl).elim
  · have hrun : Scan.digits (digits ++ rest) = (digits, rest) := run_append hdigits hdigit
    obtain ⟨d, ds, rfl⟩ := List.exists_cons_of_ne_nil hne
    rw [List.cons_append, List.cons_append, Scan.power, hrun]
    rfl

theorem secondName_append (h : IsSecondText cs) (hrest : IsEnd rest) :
    Scan.secondName (cs ++ rest) = (cs, rest) := by
  rcases h with rfl | ⟨mark, name, power, hmark, hname, hpower, rfl⟩
  · rw [List.nil_append]
    unfold Scan.secondName
    split
    · rename_i c rest
      split
      · rename_i hmark
        rcases hrest c rfl with rfl | rfl <;> rcases hmark with hmark | hmark <;> cases hmark
      · rfl
    · rfl
  · have hend : ∀ c ∈ (power ++ rest).head?, c.isAlpha = false := by
      intro c hc
      rcases hpower with rfl | ⟨digits, -, -, rfl | rfl⟩
      · exact hrest.not rfl rfl c hc
      · obtain rfl := Option.some.inj hc
        rfl
      · obtain rfl := Option.some.inj hc
        rfl
    have hletters : Scan.letters (name ++ (power ++ rest)) = (name, power ++ rest) :=
      run_append hname.2 hend
    have hscan : Scan.power (power ++ rest) = (power, rest) :=
      power_append hpower (fun c hc => by rcases hrest c hc with rfl | rfl <;> decide)
        (hrest.not (by decide) (by decide))
    have hne : name.isEmpty = false := by simpa using hname.1
    rw [List.cons_append, List.append_assoc, Scan.secondName, if_pos hmark, hletters]
    simp only [Scan.andThen, Scan.optional, hne, Bool.false_eq_true, if_false, hscan]
    rfl

theorem unit?_append (h : IsUnitText cs) (hrest : IsEnd rest) :
    Scan.unit? (cs ++ rest) = some (cs, rest) ∧ Scan.cell? (cs ++ rest) = none := by
  obtain ⟨name, power, second, hname, hpower, hsecond, rfl⟩ := h
  have hlater : ∀ c ∈ (second ++ rest).head?, c = '/' ∨ c = '·' ∨ c = ' ' ∨ c = ')' := by
    intro c hc
    rcases hsecond with rfl | ⟨mark, _, _, hmark, -, -, rfl⟩
    · exact .inr (.inr (hrest c hc))
    · obtain rfl := Option.some.inj hc
      exact hmark.imp_right .inl
  have hnext : ∀ c ∈ (power ++ (second ++ rest)).head?,
      c = '^' ∨ c = '/' ∨ c = '·' ∨ c = ' ' ∨ c = ')' := by
    intro c hc
    rcases hpower with rfl | ⟨_, -, -, rfl | rfl⟩
    · exact .inr (hlater c hc)
    · exact .inl (Option.some.inj hc).symm
    · exact .inl (Option.some.inj hc).symm
  have hletters : Scan.letters (name ++ (power ++ (second ++ rest))) =
      (name, power ++ (second ++ rest)) := by
    refine run_append hname.2 fun c hc => ?_
    rcases hnext c hc with rfl | rfl | rfl | rfl | rfl <;> rfl
  have hscan : Scan.power (power ++ (second ++ rest)) = (power, second ++ rest) := by
    refine power_append hpower (fun c hc => ?_) (fun c hc => ?_)
    · rcases hlater c hc with rfl | rfl | rfl | rfl <;> decide
    · rcases hlater c hc with rfl | rfl | rfl | rfl <;> decide
  have hdigits : Scan.digits (power ++ (second ++ rest)) = ([], power ++ (second ++ rest)) := by
    refine run_append (fun c hc => absurd hc List.not_mem_nil) fun c hc => ?_
    rcases hnext c hc with rfl | rfl | rfl | rfl | rfl <;> decide
  have hne : name.isEmpty = false := by simpa using hname.1
  simp only [List.append_assoc, Scan.unit?, Scan.cell?, hletters, hne, Bool.false_eq_true, if_false,
    Scan.andThen, hscan, secondName_append hsecond hrest, hdigits]
  exact ⟨trivial, rfl⟩

theorem cell?_append (h : IsCellText cs) (hrest : IsEnd rest) :
    Scan.cell? (cs ++ rest) = some (cs, rest) := by
  obtain ⟨name, digits, hname, hne, hdigits, rfl⟩ := h
  have hhead : ∀ c ∈ (digits ++ rest).head?, c.isAlpha = false := by
    obtain ⟨d, ds, rfl⟩ := List.exists_cons_of_ne_nil hne
    intro c hc
    obtain rfl := Option.some.inj hc
    cases halpha : d.isAlpha with
    | false => rfl
    | true =>
      have hdigit := hdigits d List.mem_cons_self
      rw [isDecimalDigit_of_isAlpha halpha] at hdigit
      cases hdigit
  have hletters : Scan.letters (name ++ (digits ++ rest)) = (name, digits ++ rest) :=
    run_append hname.2 hhead
  have hscan : Scan.digits (digits ++ rest) = (digits, rest) :=
    run_append hdigits (hrest.not (by decide) (by decide))
  have hname' : name.isEmpty = false := by simpa using hname.1
  have hdigits' : digits.isEmpty = false := by simpa using hne
  simp only [List.append_assoc, Scan.cell?, hletters, hscan, hname', hdigits']
  rfl

theorem head_dropWhile_name (h : ∀ c ∈ cs, isNameChar c = true) (hrest : IsEnd rest) :
    ∀ c ∈ ((cs ++ rest).dropWhile Char.isAlpha).head?, isDecimalDigit c = false := by
  induction cs with
  | nil =>
    intro c hc
    cases rest with
    | nil => cases hc
    | cons d rest =>
      have hd : d.isAlpha = false := hrest.not rfl rfl d rfl
      rw [List.nil_append, List.dropWhile_cons, hd] at hc
      exact hrest.not (by decide) (by decide) c hc
  | cons d cs ih =>
    cases halpha : d.isAlpha with
    | true =>
      rw [List.cons_append, List.dropWhile_cons, halpha]
      exact ih fun c hc => h c (List.mem_cons_of_mem d hc)
    | false =>
      intro c hc
      rw [List.cons_append, List.dropWhile_cons, halpha] at hc
      obtain rfl := Option.some.inj hc
      have hname := h d List.mem_cons_self
      simp only [isNameChar, isNameStart, halpha, Bool.false_or, Bool.or_eq_true, beq_iff_eq] at hname
      rcases hname with rfl | rfl <;> decide

theorem cell?_name_append (h : ∀ c ∈ cs, isNameChar c = true) (hrest : IsEnd rest) :
    Scan.cell? (cs ++ rest) = none := by
  have hdigits : (Scan.digits (Scan.letters (cs ++ rest)).2).1 = [] := by
    exact (span_of_head (head_dropWhile_name h hrest)).1
  rw [Scan.cell?, hdigits, List.isEmpty_nil, Bool.or_true, if_pos rfl]

theorem groups_of_head (h : ∀ c ∈ cs.head?, c ≠ ',') : Scan.groups cs = ([], cs) := by
  unfold Scan.groups
  split
  · exact absurd rfl (h ',' rfl)
  · rfl

theorem whole_append (h : ∀ c ∈ cs, isDecimalDigit c = true)
    (hrest : ∀ c ∈ rest.head?, isDecimalDigit c = false ∧ c ≠ ',') :
    Scan.whole (cs ++ rest) = (cs, rest) := by
  have hdigits : Scan.digits (cs ++ rest) = (cs, rest) := run_append h fun c hc => (hrest c hc).1
  have hgroups : Scan.groups rest = ([], rest) := groups_of_head fun c hc => (hrest c hc).2
  rw [Scan.whole, hdigits, Scan.andThen]
  dsimp only
  rw [hgroups, ite_self, List.append_nil]

variable {n : Numeral}

theorem fraction_point (h : n.IsWritten)
    (hrest : ∀ c ∈ rest.head?, isDecimalDigit c = false ∧ c ≠ '.') :
    Scan.fraction (n.point ++ rest) = (n.point, rest) := by
  unfold Numeral.point
  split
  · rw [List.nil_append]
    unfold Scan.fraction
    split
    · exact absurd rfl (hrest '.' rfl).2
    · rfl
  · rename_i hne
    have hdigits : Scan.digits (n.fraction ++ rest) = (n.fraction, rest) :=
      run_append (fun c hc => isDecimalDigit_of_isDigit (h.fraction c hc)) fun c hc => (hrest c hc).1
    have hempty : n.fraction.isEmpty = false := by simpa using hne
    rw [List.cons_append, Scan.fraction, hdigits, Scan.optional, hempty]
    rfl

theorem exponent_mark (h : n.IsWritten) (hrest : IsEnd rest) :
    Scan.exponent (n.mark ++ rest) = (n.mark, rest) := by
  unfold Numeral.mark
  split
  · rw [List.nil_append]
    unfold Scan.exponent
    split
    · rename_i c rest
      split
      · rename_i hmark
        rcases hrest c rfl with rfl | rfl <;> rcases hmark with hmark | hmark <;> cases hmark
      · rfl
    · rfl
  · rename_i negative digits hpower
    obtain ⟨hne, hall⟩ := h.power negative digits hpower
    have hdigits : Scan.digits (digits ++ rest) = (digits, rest) :=
      run_append (fun c hc => isDecimalDigit_of_isDigit (hall c hc))
        (hrest.not (by decide) (by decide))
    have hsign : Scan.sign ((if negative then '-' else '+') :: (digits ++ rest)) =
        ([if negative then '-' else '+'], digits ++ rest) := by
      cases negative <;> rfl
    have hempty : digits.isEmpty = false := by simpa using hne
    rw [List.cons_append, List.cons_append, Scan.exponent, if_pos (.inl rfl), hsign]
    dsimp only
    rw [hdigits, Scan.optional, hempty]
    rfl

/-- A number consists of what is found in turn: a sign, whole digits, a fraction and an exponent. -/
theorem number?_eq {sign body whole afterWhole fraction afterFraction exponent : List Char}
    (hsign : Scan.sign cs = (sign, body)) (hwhole : Scan.whole body = (whole, afterWhole))
    (hfraction : Scan.fraction afterWhole = (fraction, afterFraction))
    (hexponent : Scan.exponent afterFraction = (exponent, rest)) :
    Scan.number? cs = if (whole ++ fraction).isEmpty then none
      else some (sign ++ (whole ++ fraction ++ exponent), rest) := by
  unfold Scan.number? Scan.andThen
  rw [hsign]
  dsimp only
  rw [hwhole]
  dsimp only
  rw [hfraction]
  dsimp only
  rw [hexponent]

theorem number?_chars (h : n.IsWritten) (sign : Option Bool) (hrest : IsEnd rest) :
    Scan.number? (Numeral.signChars sign ++ (n.chars ++ rest)) =
      some (Numeral.signChars sign ++ n.chars, rest) := by
  have hmark : ∀ c ∈ (n.mark ++ rest).head?, c = 'e' ∨ c = ' ' ∨ c = ')' := by
    intro c hc
    unfold Numeral.mark at hc
    split at hc
    · exact .inr (hrest c hc)
    · exact .inl (Option.some.inj hc).symm
  have hpoint : ∀ c ∈ (n.point ++ (n.mark ++ rest)).head?,
      c = '.' ∨ c = 'e' ∨ c = ' ' ∨ c = ')' := by
    intro c hc
    unfold Numeral.point at hc
    split at hc
    · exact .inr (hmark c hc)
    · exact .inl (Option.some.inj hc).symm
  have hsign : Scan.sign (Numeral.signChars sign ++ (n.chars ++ rest)) =
      (Numeral.signChars sign, n.chars ++ rest) := by
    match sign with
    | some true => rfl
    | some false => rfl
    | none =>
      obtain ⟨first, more, hchars, hfirst⟩ := h.exists_cons
      rw [hchars]
      unfold Scan.sign
      split
      · rename_i heq
        exact absurd (List.cons.inj heq).1 (Numeral.digit_ne hfirst rfl)
      · rename_i heq
        exact absurd (List.cons.inj heq).1 (Numeral.digit_ne hfirst rfl)
      · rfl
  have hwhole : Scan.whole (n.whole ++ (n.point ++ (n.mark ++ rest))) =
      (n.whole, n.point ++ (n.mark ++ rest)) := by
    refine whole_append (fun c hc => isDecimalDigit_of_isDigit (h.whole c hc)) fun c hc => ?_
    rcases hpoint c hc with rfl | rfl | rfl | rfl <;> decide
  have hfraction : Scan.fraction (n.point ++ (n.mark ++ rest)) = (n.point, n.mark ++ rest) := by
    refine fraction_point h fun c hc => ?_
    rcases hmark c hc with rfl | rfl | rfl <;> decide
  have hempty : (n.whole ++ n.point).isEmpty = false := by simp [h.whole_ne]
  have hchars : n.chars ++ rest = n.whole ++ (n.point ++ (n.mark ++ rest)) := by
    simp only [Numeral.chars, List.append_assoc]
  rw [number?_eq hsign (hchars ▸ hwhole) hfraction (exponent_mark h hrest), hempty, Numeral.chars,
    List.append_assoc]
  rfl

theorem number?_sign {sign c : Char} (hsign : sign = '+' ∨ sign = '-')
    (hdigit : isDecimalDigit c = false) (hpoint : c ≠ '.') (cs : List Char) :
    Scan.number? (sign :: c :: cs) = none := by
  have hscan : Scan.sign (sign :: c :: cs) = ([sign], c :: cs) := by
    rcases hsign with rfl | rfl <;> rfl
  have hwhole : Scan.whole (c :: cs) = ([], c :: cs) := by
    simp [Scan.whole, Scan.andThen, Scan.digits, Scan.run, hdigit]
  have hfraction : Scan.fraction (c :: cs) = ([], c :: cs) := by
    unfold Scan.fraction
    split
    · rename_i heq
      exact absurd (List.cons.inj heq).1 hpoint
    · rfl
  exact number?_eq hscan hwhole hfraction rfl

theorem wordAt?_cell (h : IsCellText cs) (hrest : IsEnd rest) :
    wordAt? (cs ++ rest) = some (.token .cellRef cs, rest) := by
  have hcell := cell?_append h hrest
  obtain ⟨c, tail, rfl, -⟩ := h.exists_cons
  rw [List.cons_append] at hcell ⊢
  rw [wordAt?, hcell]

theorem wordAt?_name (h : IsNameText cs) (hrest : IsEnd rest) :
    wordAt? (cs ++ rest) = some (.token .identifier cs, rest) := by
  have hcell := cell?_name_append (isNameChar_of_isNameText h) hrest
  obtain ⟨c, tail, hc, htail, rfl⟩ := h
  have hrun : Scan.run (fun d => d.isAlpha || d == '_' || d == '\'') (tail ++ rest) = (tail, rest) :=
    run_append htail (hrest.not rfl rfl)
  rw [List.cons_append] at hcell ⊢
  rw [wordAt?, hcell]
  simp only [show (c.isAlpha || c == '_') = true from hc, if_true, hrun]

def TokenKind.HasShape : TokenKind → List Char → Prop
  | .unit, cs => IsUnitText cs
  | .identifier, cs => IsNameText cs
  | .cellRef, cs => IsCellText cs
  | _, _ => True

theorem hasShape_wordAt? {kind : TokenKind} (h : wordAt? cs = some (.token kind word, rest)) :
    kind.HasShape word := by
  unfold wordAt? at h
  split at h
  · cases h
  · split at h
    · rename_i hcell
      cases h
      exact isCellText_of_cell? hcell
    · split at h
      · rename_i hstart
        cases h
        exact ⟨_, _, hstart, fun d hd => List.mem_takeWhile_imp hd, rfl⟩
      · cases h

theorem hasShape_of_isFound {kind : TokenKind} (h : (Piece.token kind word).IsFound) :
    kind.HasShape word := by
  cases h with
  | blanks | number => trivial
  | operator hkind =>
    unfold operatorKind? at hkind
    split at hkind <;> cases hkind <;> trivial
  | unit hunit => exact isUnitText_of_unit? hunit
  | word hword => exact hasShape_wordAt? hword

theorem hasShape_of_mem_lex {text : String} {t : Token} (ht : t ∈ (lex text).tokens) :
    t.kind.HasShape t.text.toList := by
  obtain ⟨⟨position, p⟩, hp, hsome⟩ := List.mem_filterMap.1 ht
  cases p with
  | stray c => cases hsome
  | token kind chars =>
    obtain rfl := Option.some.inj hsome
    have hshape := hasShape_of_isFound (isFound_pieces none text.toList _ (mem_of_mem_positions hp))
    rwa [String.toList_ofList]

end

end UnitSheet
