import UnitSheet.Proofs.Token.Tiling

set_option autoImplicit false

namespace UnitSheet

def NamesCell (cs : List Char) : Prop :=
  ∃ name power mark cell rest, IsLetters name ∧ IsPowerText power ∧ (mark = '/' ∨ mark = '·') ∧
    IsCellText cell ∧ cs = name ++ (power ++ mark :: (cell ++ rest))

def StartsWithDigit (cs : List Char) : Prop := ∃ d ∈ cs.head?, isDecimalDigit d = true

section
variable {cs rest label name power : List Char}

theorem IsPowerText.head? (h : IsPowerText power) {c : Char} (hc : c ∈ (power ++ rest).head?) :
    c = '^' ∨ c ∈ rest.head? := by
  rcases h with rfl | ⟨_, -, -, rfl | rfl⟩
  · exact .inr hc
  · exact .inl (Option.some.inj hc).symm
  · exact .inl (Option.some.inj hc).symm

theorem StartsWithDigit.not_head (h : StartsWithDigit cs) {p : Char → Bool}
    (hp : ∀ d, isDecimalDigit d = true → p d = false) : ∀ c ∈ cs.head?, p c = false := by
  obtain ⟨d, hd, hdigit⟩ := h
  intro c hc
  obtain rfl := Option.some.inj (hd.symm.trans hc)
  exact hp d hdigit

theorem letters_of_startsWithDigit (hname : IsLetters name) (h : StartsWithDigit rest) :
    Scan.letters (name ++ rest) = (name, rest) :=
  run_append hname.2 (h.not_head fun _ => isAlpha_of_isDecimalDigit)

theorem power_of_startsWithDigit (h : StartsWithDigit cs) : Scan.power cs = ([], cs) := by
  have hcaret := h.not_head (p := (· == '^')) fun d hd =>
    beq_eq_false_iff_ne.2 (ne_of_isDecimalDigit hd (by decide))
  unfold Scan.power
  split
  · cases hcaret '^' rfl
  · cases hcaret '^' rfl
  · rfl

theorem secondName_of_startsWithDigit {mark : Char} (hmark : mark = '/' ∨ mark = '·')
    (hname : IsLetters name) (h : StartsWithDigit rest) :
    Scan.secondName (mark :: (name ++ rest)) = (mark :: name, rest) := by
  have hne : name.isEmpty = false := by simpa using hname.1
  rw [Scan.secondName, if_pos hmark, letters_of_startsWithDigit hname h]
  simp [Scan.andThen, Scan.optional, hne, power_of_startsWithDigit h]

theorem optional_digits_cases (lead cs ds : List Char) :
    Scan.optional lead cs (Scan.digits ds) = ([], cs) ∨
      ¬ StartsWithDigit (Scan.optional lead cs (Scan.digits ds)).2 := by
  unfold Scan.optional
  split
  · exact .inl rfl
  · refine .inr fun ⟨d, hd, hdigit⟩ => ?_
    rw [Scan.head?_dropWhile d hd] at hdigit
    cases hdigit

theorem power_cases (cs : List Char) :
    Scan.power cs = ([], cs) ∨ ¬ StartsWithDigit (Scan.power cs).2 := by
  unfold Scan.power
  split
  · exact optional_digits_cases _ _ _
  · exact optional_digits_cases _ _ _
  · exact .inl rfl

theorem secondName_cases (cs : List Char) :
    Scan.secondName cs = ([], cs) ∨ ¬ StartsWithDigit (Scan.secondName cs).2 ∨
      ∃ mark name rest, (mark = '/' ∨ mark = '·') ∧ IsLetters name ∧ cs = mark :: (name ++ rest) ∧
        Scan.secondName cs = (mark :: name, rest) := by
  unfold Scan.secondName
  split
  · rename_i mark rest
    split
    · rename_i hmark
      unfold Scan.andThen Scan.optional
      cases hempty : (Scan.letters rest).1.isEmpty with
      | true => exact .inl rfl
      | false =>
        rcases power_cases (Scan.letters rest).2 with hpower | hpower
        · refine .inr (.inr ⟨mark, (Scan.letters rest).1, (Scan.letters rest).2, hmark,
            isLetters_letters hempty, ?_, ?_⟩)
          · rw [Scan.letters, Scan.run_append]
          · simp [hpower]
        · exact .inr (.inl hpower)
    · exact .inl rfl
  · exact .inl rfl

theorem cell?_of_startsWithDigit (hname : IsLetters name) (h : StartsWithDigit rest) :
    ∃ found, Scan.cell? (name ++ rest) = some found := by
  obtain ⟨d, hd, hdigit⟩ := h
  obtain ⟨tail, rfl⟩ : ∃ tail, rest = d :: tail := ⟨_, List.eq_cons_of_mem_head? hd⟩
  have hne : name.isEmpty = false := by simpa using hname.1
  simp [Scan.cell?, letters_of_startsWithDigit hname ⟨d, hd, hdigit⟩, hne, Scan.digits, Scan.run,
    hdigit]

theorem isCellText_of_startsWithDigit (hname : IsLetters name) (h : StartsWithDigit rest) :
    ∃ cell after, IsCellText cell ∧ name ++ rest = cell ++ after := by
  obtain ⟨found, hfound⟩ := cell?_of_startsWithDigit hname h
  exact ⟨found.1, found.2, isCellText_of_cell? hfound, (Scan.cell?_append hfound).1.symm⟩

/-- Where the scan of a unit ends before a digit and no cell label stands in its place, the label has
a second name, which runs into the digit. -/
theorem namesCell_of_startsWithDigit (hunit : Scan.unit? cs = some (label, rest))
    (hcell : Scan.cell? cs = none) (h : StartsWithDigit rest) : NamesCell cs := by
  unfold Scan.unit? at hunit
  split at hunit
  · cases hunit
  · rename_i hletters
    obtain ⟨-, hrest⟩ := Prod.mk.inj (Option.some.inj hunit)
    have hname := isLetters_letters (Bool.not_eq_true _ ▸ hletters)
    have htext : (Scan.letters cs).1 ++ ((Scan.power (Scan.letters cs).2).1 ++
        (Scan.power (Scan.letters cs).2).2) = cs := by
      rw [Scan.power_append, Scan.letters, Scan.run_append]
    rcases secondName_cases (Scan.power (Scan.letters cs).2).2 with hsecond | hsecond |
      ⟨mark, name, after, hmark, hletters', hbehind, hsecond⟩
    · -- Without a second name the digit would stand behind the first one, or behind its exponent.
      simp only [Scan.andThen, hsecond] at hrest
      obtain rfl := hrest
      rcases power_cases (Scan.letters cs).2 with hpower | hpower
      · obtain ⟨found, hfound⟩ := cell?_of_startsWithDigit hname h
        rw [hpower, List.nil_append] at htext
        rw [hpower, htext, hcell] at hfound
        cases hfound
      · exact absurd h hpower
    · rw [← hrest] at h
      exact absurd h hsecond
    · simp only [Scan.andThen, hsecond] at hrest
      obtain rfl := hrest
      obtain ⟨cell, after', hcell, heq⟩ := isCellText_of_startsWithDigit hletters' h
      refine ⟨_, _, mark, cell, after', hname, isPowerText_power (Scan.letters cs).2, hmark, hcell, ?_⟩
      rw [← heq, ← hbehind, htext]

/-- The scan of a unit does not see a cell label behind a separator. -/
theorem startsWithDigit_of_namesCell (hunit : Scan.unit? cs = some (label, rest))
    (h : NamesCell cs) : StartsWithDigit rest := by
  obtain ⟨name, power, mark, cell, after, hname, hpower, hmark, ⟨second, digits, hsecond, hne, hdigits,
    rfl⟩, rfl⟩ := h
  have hdigit : StartsWithDigit (digits ++ after) := by
    obtain ⟨d, ds, rfl⟩ := List.exists_cons_of_ne_nil hne
    exact ⟨d, rfl, hdigits d List.mem_cons_self⟩
  have hletters : Scan.letters (name ++ (power ++ mark :: (second ++ digits ++ after))) =
      (name, power ++ mark :: (second ++ digits ++ after)) := by
    refine run_append hname.2 fun c hc => ?_
    rcases hpower.head? hc with rfl | hc
    · rfl
    · obtain rfl := Option.some.inj hc
      rcases hmark with rfl | rfl <;> rfl
  have hscan : Scan.power (power ++ mark :: (second ++ digits ++ after)) =
      (power, mark :: (second ++ digits ++ after)) := by
    refine power_append hpower (fun c hc => ?_) (fun c hc => ?_) <;>
      obtain rfl := Option.some.inj hc
    · rcases hmark with rfl | rfl <;> decide
    · rcases hmark with rfl | rfl <;> decide
  have hmarked : Scan.secondName (mark :: (second ++ digits ++ after)) =
      (mark :: second, digits ++ after) := by
    rw [List.append_assoc, secondName_of_startsWithDigit hmark hsecond hdigit]
  have hne : name.isEmpty = false := by simpa using hname.1
  simp only [Scan.unit?, hletters, hne, Bool.false_eq_true, if_false, Scan.andThen, hscan,
    hmarked] at hunit
  obtain ⟨-, rfl⟩ := Prod.mk.inj (Option.some.inj hunit)
  exact hdigit

end

theorem pieces_of_isDigit {d : Char} (previous : Option TokenKind) (hd : d.isDigit = true)
    (cs : List Char) :
    ∃ value lexeme more, pieces previous (d :: cs) = .token (.number value) lexeme :: more := by
  obtain ⟨_, _, hnumber⟩ := exists_numberAt?_of_isDigit previous hd cs
  rcases firstPieces_cases previous (isBlank_of_isDigit hd) cs with ⟨lexeme, rest, -, hfirst⟩ |
    ⟨hnone, -⟩
  · rw [pieces, hfirst]
    exact ⟨_, _, _, rfl⟩
  · rw [hnumber] at hnone
    cases hnone

/-- A unit takes the letters of a cell label only in its second name. For every text, a digit stands
right behind a unit token if and only if the text at the token is a unit name with a separator and a
cell label behind it. If it is a digit from 0 to 9, a number token starts there, so that the letters
and the digits of the label are in two tokens. -/
theorem startsWithDigit_unit_iff {text : String} {t : Token} (ht : t ∈ (lex text).tokens)
    (hunit : t.kind = .unit) :
    (StartsWithDigit (text.toList.drop t.stop) ↔ NamesCell (text.toList.drop t.position)) ∧
    ∀ d ∈ (text.toList.drop t.stop).head?, d.isDigit = true →
      ∃ n ∈ (lex text).tokens, n.position = t.stop ∧ ∃ value, n.kind = .number value := by
  obtain ⟨before, after, hsplit⟩ := List.append_of_mem ht
  rw [tokens_lex] at hsplit
  obtain ⟨front, kind, label, back, hpieces, rfl, rfl⟩ := exists_piece_of_placedTokens hsplit
  obtain rfl : kind = .unit := hunit
  obtain ⟨-, rest, hscan, hcell, rfl⟩ := unit_of_pieces hpieces
  have htext : text.toList = front.flatMap Piece.chars ++ (label ++ rest) := by
    rw [← pieces_flatMap_chars none text.toList, hpieces, List.flatMap_append, List.flatMap_cons,
      pieces_flatMap_chars]
    rfl
  have hposition : text.toList.drop (0 + (front.flatMap Piece.chars).length) = label ++ rest := by
    rw [Nat.zero_add, htext, List.drop_left]
  have hstop : text.toList.drop (Token.stop ⟨.unit, String.ofList label,
      0 + (front.flatMap Piece.chars).length⟩) = rest := by
    rw [Token.stop, ← List.drop_drop, hposition, String.length_ofList, List.drop_left]
  rw [hstop, hposition]
  refine ⟨⟨namesCell_of_startsWithDigit hscan hcell, startsWithDigit_of_namesCell hscan⟩,
    fun d hd hdigit => ?_⟩
  obtain ⟨tail, rfl⟩ : ∃ tail, rest = d :: tail := ⟨_, List.eq_cons_of_mem_head? hd⟩
  obtain ⟨value, lexeme, more, hnumber⟩ := pieces_of_isDigit (some .unit) hdigit tail
  rw [tokens_lex, hpieces, hnumber, placedTokens_append]
  refine ⟨⟨.number value, String.ofList lexeme, _⟩, List.mem_append_right _
    (List.mem_cons_of_mem _ List.mem_cons_self), ?_, value, rfl⟩
  rw [Token.stop, String.length_ofList]

theorem unit_mem_lex_kipPerCell : ⟨.unit, "kip/A", 2⟩ ∈ (lex "5 kip/A1").tokens :=
  List.mem_of_getElem? (i := 2) (by decide +kernel)

theorem startsWithDigit_unit_iff_kipPerCell :
    (⟨.unit, "kip/A", 2⟩ : Token) ∈ (lex "5 kip/A1").tokens ∧
    (StartsWithDigit ['1'] ↔ NamesCell ['k', 'i', 'p', '/', 'A', '1']) ∧
    ∃ n ∈ (lex "5 kip/A1").tokens, n.position = 7 ∧ ∃ value, n.kind = .number value :=
  have hmem := unit_mem_lex_kipPerCell
  have h := startsWithDigit_unit_iff hmem rfl
  ⟨hmem, h.1, h.2 '1' rfl rfl⟩

/-- The cell label behind the slash is cut in two. -/
theorem lex_kipPerCell : ∃ t ∈ (lex "5 kip/A1").tokens, t.kind = .unit ∧
    StartsWithDigit ("5 kip/A1".toList.drop t.stop) :=
  ⟨_, unit_mem_lex_kipPerCell, rfl, '1', rfl, by decide⟩

end UnitSheet
