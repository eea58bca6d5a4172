import UnitSheet.Proofs.Token.Texts

set_option autoImplicit false

/-!
Tokens do not depend on the blanks between them. Where a text without stray characters is written
with other blanks, but with some wherever it has some, it is cut into the same tokens.
-/

namespace UnitSheet

/-- The text writes the pieces in turn. Between them it may have any blanks, and where the pieces
have blanks it has some, or it ends. -/
inductive Respaced : List Piece → List Char → Prop
  | nil : Respaced [] []
  | blank {b : Char} {ps : List Piece} {ds : List Char} :
      isBlank b = true → Respaced ps ds → Respaced ps (b :: ds)
  | gap {chars : List Char} {ps : List Piece} {ds : List Char} :
      (∀ c ∈ chars, isBlank c = true) → (∀ c ∈ ds.head?, isBlank c = true) → Respaced ps ds →
        Respaced (.token .whitespace chars :: ps) ds
  | token {kind : TokenKind} {chars : List Char} {ps : List Piece} {ds : List Char} :
      kind.isWhitespace = false → IsTokenText chars → Respaced ps ds →
        Respaced (.token kind chars :: ps) (chars ++ ds)

def Piece.isShown : Piece → Bool
  | .token kind _ => !kind.isWhitespace
  | .stray _ => true

section
variable {ps : List Piece} {ds chars : List Char} {kind : TokenKind}

theorem IsTokenText.blank (h : IsTokenText chars) : ∀ c ∈ chars, isBlank c = false := by
  intro c hc
  have hplain := h.plain c hc
  rw [isPlainChar, Bool.and_eq_true, Bool.not_eq_true'] at hplain
  exact hplain.1

theorem Respaced.blanks {bs : List Char} (hbs : ∀ b ∈ bs, isBlank b = true) (h : Respaced ps ds) :
    Respaced ps (bs ++ ds) := by
  induction bs with
  | nil => exact h
  | cons b bs ih =>
    exact .blank (hbs b List.mem_cons_self) (ih fun b' hb' => hbs b' (List.mem_cons_of_mem b hb'))

theorem respaced_self (h : ∀ p ∈ ps, p.IsClean) : Respaced ps (ps.flatMap Piece.chars) := by
  induction ps with
  | nil => exact .nil
  | cons p ps ih =>
    have hp := h p List.mem_cons_self
    have hps := ih fun q hq => h q (List.mem_cons_of_mem p hq)
    rw [List.flatMap_cons]
    cases hp with
    | token hwrites => exact .token hwrites.shown hwrites.isTokenText hps
    | @blanks chars hne hblank =>
      refine .gap hblank (fun c hc => hblank c ?_) (hps.blanks hblank)
      obtain ⟨d, tail, rfl⟩ := List.exists_cons_of_ne_nil hne
      obtain rfl := Option.some.inj hc
      exact List.mem_cons_self

theorem Respaced.follows (h : Respaced ps ds) : Follows (ps.flatMap Piece.chars) ds := by
  induction h with
  | nil => exact .done _
  | blank hb => exact .blank hb _ _
  | @gap chars ps ds _ hhead _ =>
    cases ds with
    | nil => exact .done _
    | cons d ds => exact .blank (hhead d rfl) _ _
  | token _ _ _ ih => exact ih.append _

theorem Respaced.of_gap (h : Respaced (.token .whitespace chars :: ps) ds) : Respaced ps ds := by
  generalize hqs : Piece.token .whitespace chars :: ps = qs at h
  induction h with
  | nil => cases hqs
  | blank hb _ ih => exact .blank hb (ih hqs)
  | gap _ _ h =>
    obtain ⟨-, rfl⟩ := List.cons.inj hqs
    exact h
  | token hkind =>
    cases hqs
    cases hkind

theorem Respaced.of_token (hkind : kind.isWhitespace = false)
    (h : Respaced (.token kind chars :: ps) ds) : ∃ bs rest, (∀ b ∈ bs, isBlank b = true) ∧
      ds = bs ++ (chars ++ rest) ∧ IsTokenText chars ∧ Respaced ps rest := by
  generalize hqs : Piece.token kind chars :: ps = qs at h
  induction h with
  | nil => cases hqs
  | @blank b _ _ hb _ ih =>
    obtain ⟨bs, rest, hbs, rfl, hrest⟩ := ih hqs
    exact ⟨b :: bs, rest, List.forall_mem_cons.2 ⟨hb, hbs⟩, rfl, hrest⟩
  | gap =>
    cases hqs
    cases hkind
  | token _ htext h =>
    cases hqs
    exact ⟨[], _, by simp, rfl, htext, h⟩

theorem Respaced.stray_not_mem (h : Respaced ps ds) (c : Char) : Piece.stray c ∉ ps := by
  induction h with
  | nil => simp
  | blank _ _ ih => exact ih
  | gap _ _ _ ih | token _ _ _ ih => simp [ih]

theorem Respaced.dropWhile_of_nil (h : Respaced [] ds) : ds.dropWhile isBlank = [] := by
  generalize hqs : ([] : List Piece) = qs at h
  induction h with
  | nil => rfl
  | blank hb _ ih => rw [List.dropWhile_cons, hb, if_pos rfl, ih hqs]
  | gap | token => cases hqs

end

section
variable {previous : Option TokenKind} {c : Char} {cs ds rest : List Char}

theorem firstPieces_blank (h : isBlank c = true) : firstPieces previous c cs =
    ([.token .whitespace (c :: cs.takeWhile isBlank)], cs.dropWhile isBlank) := by
  rw [firstPieces, if_pos h]

theorem shown_pieces_dropWhile (previous : Option TokenKind) (cs : List Char) :
    (pieces previous (cs.dropWhile isBlank)).filter Piece.isShown =
      (pieces previous cs).filter Piece.isShown := by
  cases cs with
  | nil => rfl
  | cons c cs =>
    rw [List.dropWhile_cons]
    cases h : isBlank c with
    | false => rfl
    | true =>
      rw [if_pos rfl, pieces, firstPieces_blank h]
      rfl

theorem shown_pieces_append {bs : List Char} (hbs : ∀ b ∈ bs, isBlank b = true) :
    (pieces previous (bs ++ cs)).filter Piece.isShown =
      (pieces previous cs).filter Piece.isShown := by
  rw [← shown_pieces_dropWhile, List.dropWhile_append_of_pos hbs, shown_pieces_dropWhile]

theorem unitBehind_cases (cs : List Char) :
    (∃ gap label rest, unitBehind cs = (gap ++ [.token .unit label], rest) ∧
      (gap = [] ∨ ∃ chars, gap = [.token .whitespace chars]) ∧
      Scan.unit? (cs.dropWhile isBlank) = some (label, rest) ∧
      Scan.cell? (cs.dropWhile isBlank) = none) ∨
    (unitBehind cs = ([], cs) ∧ ((∃ label rest, Scan.cell? (cs.dropWhile isBlank) =
      some (label, rest)) ∨ Scan.unit? (cs.dropWhile isBlank) = none)) := by
  unfold unitBehind
  dsimp only
  cases hcell : Scan.cell? (cs.dropWhile isBlank) with
  | some found => exact .inr ⟨rfl, .inl ⟨_, _, rfl⟩⟩
  | none =>
    cases hunit : Scan.unit? (cs.dropWhile isBlank) with
    | none => exact .inr ⟨rfl, .inr rfl⟩
    | some found =>
      refine .inl ⟨_, _, _, rfl, ?_, rfl, rfl⟩
      split
      · exact .inl rfl
      · exact .inr ⟨_, rfl⟩

theorem unitBehind_of_none (h : (∃ label rest, Scan.cell? (cs.dropWhile isBlank) = some (label, rest)) ∨
    Scan.unit? (cs.dropWhile isBlank) = none) : unitBehind cs = ([], cs) := by
  rcases unitBehind_cases cs with ⟨_, _, _, -, -, hunit, hcell⟩ | ⟨hnone, -⟩
  · rcases h with ⟨_, _, h⟩ | h
    · rw [h] at hcell
      cases hcell
    · rw [h] at hunit
      cases hunit
  · exact hnone

theorem dropWhile_blanks {bs : List Char} (hbs : ∀ b ∈ bs, isBlank b = true)
    (hcs : ∀ c ∈ cs.head?, isBlank c = false) : (bs ++ cs).dropWhile isBlank = cs := by
  rw [List.dropWhile_append_of_pos hbs]
  exact (span_of_head hcs).2

theorem IsTokenText.head {chars : List Char} (h : IsTokenText chars) (ds : List Char) :
    ∀ c ∈ (chars ++ ds).head?, isBlank c = false := by
  obtain ⟨c, tail, rfl⟩ := List.exists_cons_of_ne_nil h.ne_nil
  intro d hd
  exact h.blank d (Option.some.inj hd ▸ List.mem_cons_self)

theorem exists_shown_of_pieces (previous : Option TokenKind) (hc : isBlank c = false)
    (cs : List Char) : ∃ p ps, pieces previous (c :: cs) = p :: ps ∧ p.isShown = true := by
  rw [pieces]
  rcases firstPieces_cases previous hc cs with ⟨lexeme, rest, -, hfirst⟩ |
    ⟨-, ⟨kind, hkind, hfirst⟩ | ⟨-, ⟨kind, word, rest, -, hwrites, hfirst⟩ | ⟨-, hfirst⟩⟩⟩
  · rw [hfirst]
    exact ⟨_, _, rfl, rfl⟩
  · rw [hfirst]
    exact ⟨_, _, rfl, by rw [Piece.isShown, (isOperator hkind).shown]; rfl⟩
  · rw [hfirst]
    exact ⟨_, _, rfl, by rw [Piece.isShown, hwrites.shown]; rfl⟩
  · rw [hfirst]
    exact ⟨_, _, rfl, rfl⟩

theorem Respaced.dropWhile_pieces (h : Respaced (pieces previous cs) ds) :
    Respaced (pieces previous (cs.dropWhile isBlank)) ds := by
  cases cs with
  | nil => exact h
  | cons c cs =>
    rw [List.dropWhile_cons]
    split
    · rename_i hblank
      rw [pieces, firstPieces_blank hblank] at h
      exact h.of_gap
    · exact h

theorem Respaced.dropWhile (h : Respaced (pieces previous cs) ds) :
    Respaced (pieces previous (cs.dropWhile isBlank)) (ds.dropWhile isBlank) := by
  have hdrop := h.dropWhile_pieces
  cases hcs : cs.dropWhile isBlank with
  | nil =>
    rw [hcs, pieces] at hdrop
    rw [pieces, hdrop.dropWhile_of_nil]
    exact .nil
  | cons c rest =>
    have hc : isBlank c = false := by
      have hhead := List.head?_dropWhile_not isBlank cs
      rwa [hcs] at hhead
    obtain ⟨p, ps, hps, hp⟩ := exists_shown_of_pieces previous hc rest
    rw [hcs, hps] at hdrop
    rw [hps]
    cases p with
    | stray d => exact absurd List.mem_cons_self (hdrop.stray_not_mem d)
    | token kind chars =>
      have hkind : kind.isWhitespace = false := by simpa [Piece.isShown] using hp
      obtain ⟨bs, more, hbs, rfl, htext, hmore⟩ := hdrop.of_token hkind
      rw [dropWhile_blanks hbs (htext.head more)]
      exact .token hkind htext hmore

theorem isNameStart_of_wordAt? {p : Piece} (h : wordAt? (c :: cs) = some (p, rest)) :
    isNameStart c = true := by
  unfold wordAt? at h
  dsimp only at h
  split at h
  · rename_i hcell
    obtain ⟨d, tail, rfl, hd⟩ := (isCellText_of_cell? hcell).exists_cons
    obtain ⟨hcs, -⟩ := Scan.cell?_append hcell
    obtain rfl := (List.cons.inj hcs).1
    rw [isNameStart, hd, Bool.true_or]
  · split at h
    · assumption
    · cases h

theorem pieces_wordAt? {kind : TokenKind} {word : List Char}
    (h : wordAt? cs = some (.token kind word, rest)) :
    pieces previous cs = .token kind word :: pieces (some kind) rest := by
  obtain ⟨hcs, hne⟩ := wordAt?_append h
  obtain ⟨c, tail, rfl⟩ := List.exists_cons_of_ne_nil hne
  subst hcs
  obtain ⟨_, _, hshown, hwrites⟩ := writes_wordAt? h
  cases hshown
  exact pieces_word (isNameStart_of_wordAt? h) hwrites.shown h

theorem pieces_cell? {label : List Char} (h : Scan.cell? cs = some (label, rest)) :
    pieces previous cs = .token .cellRef label :: pieces (some .cellRef) rest := by
  refine pieces_wordAt? ?_
  obtain ⟨rfl, hne⟩ := Scan.cell?_append h
  obtain ⟨c, tail, rfl⟩ := List.exists_cons_of_ne_nil hne
  rw [List.cons_append] at h ⊢
  rw [wordAt?, h]

theorem unitBehind_respaced_none (h : Respaced (pieces previous cs) ds)
    (hnone : (∃ label rest, Scan.cell? (cs.dropWhile isBlank) = some (label, rest)) ∨
      Scan.unit? (cs.dropWhile isBlank) = none) : unitBehind ds = ([], ds) := by
  refine unitBehind_of_none ?_
  rcases hnone with ⟨label, rest, hcell⟩ | hunit
  · have hdrop := h.dropWhile_pieces
    rw [pieces_cell? hcell] at hdrop
    obtain ⟨bs, more, hbs, rfl, htext, hmore⟩ := hdrop.of_token rfl
    have hfollow := hmore.follows
    rw [pieces_flatMap_chars] at hfollow
    rw [dropWhile_blanks hbs (htext.head more)]
    exact .inl ⟨label, more, Scan.cell?_of_follows hcell hfollow⟩
  · have hfollow := h.dropWhile.follows
    rw [pieces_flatMap_chars] at hfollow
    exact .inr (Scan.unit?_eq_none hunit hfollow)

theorem unitBehind_respaced_unit {gap : List Piece} {label : List Char} {kind : Option TokenKind}
    (hgap : gap = [] ∨ ∃ chars, gap = [.token .whitespace chars])
    (hunit : Scan.unit? (cs.dropWhile isBlank) = some (label, rest))
    (hcell : Scan.cell? (cs.dropWhile isBlank) = none)
    (h : Respaced (gap ++ .token .unit label :: pieces kind rest) ds) :
    ∃ gap' more, unitBehind ds = (gap' ++ [.token .unit label], more) ∧
      (gap' = [] ∨ ∃ chars, gap' = [.token .whitespace chars]) ∧ Respaced (pieces kind rest) more := by
  have hlabel : Respaced (.token .unit label :: pieces kind rest) ds := by
    rcases hgap with rfl | ⟨chars, rfl⟩
    · exact h
    · exact h.of_gap
  obtain ⟨bs, more, hbs, rfl, htext, hmore⟩ := hlabel.of_token rfl
  have hfollow := hmore.follows
  rw [pieces_flatMap_chars] at hfollow
  obtain ⟨hcs, -⟩ := Scan.unit?_append hunit
  have hdrop := dropWhile_blanks hbs (htext.head more)
  have hunit' := Scan.unit?_of_follows hunit hfollow
  have hcell' := Scan.cell?_eq_none (hcs ▸ hcell) (hfollow.append label)
  rcases unitBehind_cases (bs ++ (label ++ more)) with
    ⟨gap', label', rest', hbehind, hgap', hfound, -⟩ | ⟨-, ⟨_, _, hfound⟩ | hfound⟩
  · rw [hdrop, hunit'] at hfound
    obtain ⟨rfl, rfl⟩ := Prod.mk.inj (Option.some.inj hfound)
    exact ⟨gap', _, hbehind, hgap', hmore⟩
  · rw [hdrop, hcell'] at hfound
    cases hfound
  · rw [hdrop, hunit'] at hfound
    cases hfound

theorem lastKind_append {kind : TokenKind} (h : kind.isWhitespace = false) (ps : List Piece)
    (chars : List Char) : lastKind previous (ps ++ [.token kind chars]) = some kind := by
  rw [lastKind, List.foldl_append]
  exact lastKind_token h chars

theorem pieces_numberAt? {lexeme : List Char} (h : numberAt? previous cs = some (lexeme, rest)) :
    pieces previous cs = .token (.number (readNumber lexeme)) lexeme :: ((unitBehind rest).1 ++
      pieces (lastKind previous (.token (.number (readNumber lexeme)) lexeme ::
        (unitBehind rest).1)) (unitBehind rest).2) := by
  have htext : IsTokenText lexeme := (writes_numberAt? h).isTokenText
  obtain ⟨c, tail, rfl⟩ := List.exists_cons_of_ne_nil htext.ne_nil
  obtain ⟨rfl, -⟩ := numberAt?_append h
  rw [List.cons_append] at h ⊢
  have hfirst : firstPieces previous c (tail ++ rest) =
      (.token (.number (readNumber (c :: tail))) (c :: tail) :: (unitBehind rest).1,
        (unitBehind rest).2) := by
    rw [firstPieces, if_neg (by rw [htext.blank c List.mem_cons_self]; decide), h]
  rw [pieces, hfirst]
  rfl

theorem shown_gap {gap : List Piece} (h : gap = [] ∨ ∃ chars, gap = [.token .whitespace chars]) :
    gap.filter Piece.isShown = [] := by
  rcases h with rfl | ⟨chars, rfl⟩ <;> rfl

/-- A text that writes the pieces of another one with other blanks has the same pieces, blanks
apart. -/
theorem shown_pieces_of_respaced (previous : Option TokenKind) (cs : List Char) {ds : List Char}
    (h : Respaced (pieces previous cs) ds) :
    (pieces previous ds).filter Piece.isShown = (pieces previous cs).filter Piece.isShown := by
  cases cs with
  | nil =>
    rw [pieces] at h
    rw [← shown_pieces_dropWhile, h.dropWhile_of_nil]
  | cons c cs =>
    have hlt := firstPieces_length previous c cs
    cases hc : isBlank c with
    | true =>
      have hless : (cs.dropWhile isBlank).length < (c :: cs).length := by
        rwa [firstPieces_blank hc] at hlt
      rw [pieces, firstPieces_blank hc] at h ⊢
      exact shown_pieces_of_respaced previous (cs.dropWhile isBlank) h.of_gap
    | false =>
      rcases firstPieces_cases previous hc cs with ⟨lexeme, rest, hnumber, hfirst⟩ |
        ⟨hnumber, ⟨kind, hkind, hfirst⟩ | ⟨-, ⟨kind, word, rest, hword, hwrites, hfirst⟩ |
          ⟨-, hfirst⟩⟩⟩
      · -- A number, with the unit behind it if there is one.
        rw [hfirst] at hlt
        rw [pieces_numberAt? hnumber] at h ⊢
        obtain ⟨bs, more, hbs, rfl, htext, hmore⟩ := h.of_token rfl
        have hfollow := hmore.follows
        rw [List.flatMap_append, pieces_flatMap_chars, unitBehind_append] at hfollow
        rw [shown_pieces_append hbs, pieces_numberAt? (numberAt?_of_follows hnumber hfollow)]
        rcases unitBehind_cases rest with
          ⟨gap, label, rest', hbehind, hgap, hunit, hcell⟩ | ⟨hbehind, hnone⟩
        · have hless : rest'.length < (c :: cs).length := by rwa [hbehind] at hlt
          rw [hbehind] at hmore ⊢
          rw [← List.cons_append, lastKind_append rfl, List.append_assoc] at hmore
          obtain ⟨gap', more', hbehind', hgap', hmore'⟩ :=
            unitBehind_respaced_unit hgap hunit hcell hmore
          have ih := shown_pieces_of_respaced (some .unit) rest' hmore'
          rw [hbehind']
          simp only [← List.cons_append]
          rw [lastKind_append rfl, lastKind_append rfl]
          simp only [List.filter_append, List.filter_cons, shown_gap hgap, shown_gap hgap', ih]
        · have hless : rest.length < (c :: cs).length := by rwa [hbehind] at hlt
          rw [hbehind] at hmore ⊢
          have ih := shown_pieces_of_respaced _ rest hmore
          rw [unitBehind_respaced_none hmore hnone]
          simp only [List.nil_append, List.filter_cons, ih]
      · have hless : cs.length < (c :: cs).length := by rwa [hfirst] at hlt
        rw [pieces_operator hkind hnumber] at h ⊢
        obtain ⟨bs, more, hbs, rfl, -, hmore⟩ := h.of_token (isOperator hkind).shown
        have hfollow := hmore.follows
        rw [pieces_flatMap_chars] at hfollow
        have ih := shown_pieces_of_respaced (some kind) cs hmore
        rw [shown_pieces_append hbs, List.singleton_append,
          pieces_operator hkind (numberAt?_eq_none hnumber hfollow)]
        simp only [List.filter_cons, ih]
      · have hless : rest.length < (c :: cs).length := by rwa [hfirst] at hlt
        rw [pieces_wordAt? hword] at h ⊢
        obtain ⟨bs, more, hbs, rfl, -, hmore⟩ := h.of_token hwrites.shown
        have hfollow := hmore.follows
        rw [pieces_flatMap_chars] at hfollow
        have ih := shown_pieces_of_respaced (some kind) rest hmore
        have hword' : wordAt? (word ++ more) = some (.token kind word, more) :=
          wordAt?_of_follows hword hfollow
        rw [shown_pieces_append hbs, pieces_wordAt? hword']
        simp only [List.filter_cons, ih]
      · rw [pieces, hfirst] at h
        exact absurd List.mem_cons_self (h.stray_not_mem c)
termination_by cs.length
decreasing_by all_goals subst_vars; assumption

end

end UnitSheet
