import UnitSheet.Proofs.Line.Readable

set_option autoImplicit false

namespace UnitSheet

def StartsNothing (c : Char) : Prop := c = '=' ∨ c = '*' ∨ c = '·'

section
variable {kind : TokenKind} {chars : List Char} {c : Char} {text : String} {s : Statement}
  {tier : Tier}

theorem StartsNothing.isSeparator (hc : StartsNothing c) : IsSeparator c := by
  rcases hc with rfl | rfl | rfl
  · exact isSeparator_equal
  · exact isSeparator_star
  · exact isSeparator_dot

theorem TokenKind.Writes.head_ne (h : kind.Writes chars) (hkind : kind.Opens)
    (hc : StartsNothing c) : chars.head? ≠ some c := by
  intro hhead
  have hmem : c ∈ chars := List.mem_of_mem_head? hhead
  rcases hc with rfl | rfl | rfl
  · obtain rfl := h.eq_equal hmem
    rcases hkind with hkind | hkind | hkind | hkind <;> cases hkind
  · obtain rfl := h.kind_of_mem hmem rfl (by decide) (by decide) (by decide)
    rcases hkind with hkind | hkind | hkind | hkind <;> cases hkind
  · exact h.isTokenText.dot '·' hhead rfl

theorem Statement.IsReadFrom.head_ne (h : s.IsReadFrom text) (hc : StartsNothing c) :
    text.toList.head? ≠ some c := by
  intro hhead
  have hcontents := contents_pieces text
  obtain ⟨t, ts, hts⟩ := List.exists_cons_of_ne_nil h.derives.ne_nil
  have hopens : t.kind.Opens := h.derives.opens t (by rw [hts]; rfl)
  rw [hts] at hcontents
  obtain ⟨gap, chars, behind, hps, hgap, -, hwrites, -⟩ := exists_of_contents_eq_cons h.isClean hcontents
  have htext := pieces_flatMap_chars none text.toList
  rw [hps, List.flatMap_append, List.flatMap_cons, Piece.chars] at htext
  rw [← htext] at hhead
  generalize gap.flatMap Piece.chars = blanks at hgap hhead
  cases blanks with
  | nil =>
    rw [List.nil_append, List.head?_append_of_ne_nil _ hwrites.isTokenText.ne_nil] at hhead
    exact hwrites.head_ne hopens hc hhead
  | cons b blanks =>
    have hb := hgap b List.mem_cons_self
    rw [Option.some.inj hhead, hc.isSeparator.blank] at hb
    cases hb

theorem Statement.IsReadFrom.head_ne_of_foldRepeats (h : s.IsReadFrom (foldRepeats text))
    (hc : StartsNothing c) : text.toList.head? ≠ some c := by
  intro hhead
  obtain ⟨rest, hrest⟩ : ∃ rest, text.toList = [] ++ c :: rest := ⟨_, List.eq_cons_of_mem_head? hhead⟩
  have hnil : (foldRepeats (String.ofList [])).toList = [] := by
    simp [foldRepeats, foldGlued, foldSpaced]
  refine h.head_ne hc ?_
  rw [foldRepeats_append_cons hc.isSeparator hrest, hnil]
  rfl

theorem Statement.IsReadFrom.text_ne (h : s.IsReadFrom (foldRepeats text)) : text.toList ≠ [] := by
  intro hnil
  obtain rfl : text = "" := String.toList_eq_nil_iff.1 hnil
  exact h.derives.ne_nil (by decide +kernel)

/-- The normal form of a line that can be read starts with what a statement can start with. -/
theorem head_ne_of_readLine (h : readLine text = .ok (s, tier)) (hc : StartsNothing c) :
    (normalize text).toList.head? ≠ some c := by
  have hread := isReadFrom_of_readLine h
  rw [preparedText_of_endsOpenly (endsOpenly_of_readLine h)] at hread
  by_cases hequal : (stripRight (normalize text).toList).getLast? = some '='
  · obtain ⟨body, bs, hbody, hbs⟩ := exists_append_of_getLast? hequal
    rw [trimEquals_of_append hbody hbs] at hread
    intro hhead
    have hne := hread.text_ne
    rw [String.toList_ofList] at hne
    refine hread.head_ne_of_foldRepeats hc ?_
    rw [String.toList_ofList]
    obtain ⟨bs', -, hstrip⟩ := exists_append_stripRight body
    rwa [hbody, hstrip, List.append_assoc, List.head?_append_of_ne_nil _ hne] at hhead
  · rw [trimEquals_of_ne hequal] at hread
    exact hread.head_ne_of_foldRepeats hc

end

section
variable {bs cs x : List Char} {c : Char}

theorem head?_spaceUnits (cs : List Char) : (spaceUnits cs).head? = cs.head? := by
  cases cs with
  | nil => rw [spaceUnits]
  | cons c cs =>
    rw [spaceUnits]
    dsimp only
    split
    · split <;> rfl
    · rfl

theorem singleSpaces_append (front : List Char) (hx : ∀ d ∈ x.head?, isBlank d = false) :
    singleSpaces (front ++ x) = singleSpaces front ++ singleSpaces x := by
  cases x with
  | nil => rw [List.append_nil, singleSpaces, List.append_nil]
  | cons c x =>
    have hc : isBlank c = false := hx c rfl
    rw [singleSpaces_append_cons hc, ← List.nil_append (c :: x), singleSpaces_append_cons hc]
    rfl

theorem plainTimes_blank_cons (hblank : ∀ d ∈ x.head?, isBlank d = false) (hdot : x.head? ≠ some '·') :
    plainTimes (' ' :: x) = ' ' :: plainTimes x := by
  have hx : x.dropWhile isBlank = x := by
    cases x with
    | nil => rfl
    | cons d x => rw [List.dropWhile_cons, hblank d rfl, if_neg Bool.false_ne_true]
  have hno : ∀ d word, d ≠ ' ' → ¬ d :: word <+: ' ' :: x := by
    rintro d word hd ⟨rest, hrest⟩
    exact hd (List.cons.inj hrest).1
  have hspace : isBlank ' ' = true := by decide
  have hnone : timesAt? (' ' :: x) = none := by
    rw [timesAt?, if_neg (hno _ _ (by decide)), if_neg (hno _ _ (by decide)),
      if_neg (hno _ _ (by decide)), List.dropWhile_cons, if_pos hspace, hx,
      dotAt?_of_ne fun after hafter => hdot (congrArg List.head? hafter), ite_self]
  rw [plainTimes_cons, hnone]

theorem plainDivide_blank_cons (x : List Char) : plainDivide (' ' :: x) = ' ' :: plainDivide x := by
  rw [plainDivide, if_neg (by decide)]
  intro rest hsign
  exact absurd hsign (by decide)

theorem plainForm_prepend (hbs : ∀ b ∈ bs, isBlank b = true)
    (hblank : ∀ d ∈ x.head?, isBlank d = false) (hdot : x.head? ≠ some '·') :
    plainForm (bs ++ x) = plainForm x ∨ plainForm (bs ++ x) = ' ' :: plainForm x := by
  rw [plainForm, singleSpaces_append bs hblank]
  rcases singleSpaces_blanks hbs with hnone | hone
  · rw [hnone]
    exact .inl rfl
  · have hhead : (spaceUnits (singleSpaces x)).head? = x.head? := by
      rw [head?_spaceUnits]
      cases x with
      | nil => rfl
      | cons c x =>
        rw [singleSpaces, hblank c rfl]
        rfl
    right
    rw [hone, List.singleton_append, spaceUnits, if_neg (by decide),
      plainTimes_blank_cons (hhead ▸ hblank) (hhead ▸ hdot), plainDivide_blank_cons]
    rfl

theorem strip_singleSpaces_cons (x : List Char) :
    strip (singleSpaces (' ' :: x)) = strip (singleSpaces x) := by
  rw [singleSpaces, if_pos (by decide)]
  split
  · rfl
  · exact strip_prepend isBlank_of_mem_space (singleSpaces x)

theorem spacedForm_blank_cons (x : List Char) : spacedForm (' ' :: x) = spacedForm x :=
  strip_singleSpaces_cons (spaceEquals x)

theorem spacedForm_plainForm_stripLeft (hdot : (stripLeft cs).head? ≠ some '·') :
    spacedForm (plainForm cs) = spacedForm (plainForm (stripLeft cs)) := by
  have hblanks : ∀ b ∈ cs.takeWhile isBlank, isBlank b = true := fun b hb => List.mem_takeWhile_imp hb
  have hplain := plainForm_prepend hblanks Scan.head?_dropWhile hdot
  rw [List.takeWhile_append_dropWhile, ← stripLeft] at hplain
  rcases hplain with h | h
  · rw [h]
  · rw [h, spacedForm_blank_cons]

inductive StartsInTimes : List Char → Prop
  | mk {bs : List Char} {c : Char} (x : List Char) :
      (∀ b ∈ bs, isBlank b = true) → c = '·' ∨ c = '*' → StartsInTimes (bs ++ c :: x)

theorem StartsInTimes.none (x : List Char) (hc : c = '·' ∨ c = '*') : StartsInTimes (c :: x) :=
  StartsInTimes.mk x (fun _ hb => absurd hb List.not_mem_nil) hc

theorem StartsInTimes.one (x : List Char) (hc : c = '·' ∨ c = '*') : StartsInTimes (' ' :: c :: x) :=
  StartsInTimes.mk x isBlank_of_mem_space hc

theorem startsInTimes_plainTimes (hbs : bs = [] ∨ bs = [' ']) (x : List Char) :
    StartsInTimes (plainTimes (bs ++ '·' :: x)) := by
  rcases hbs with rfl | rfl
  · rw [List.nil_append, plainTimes_dot_cons]
    exact StartsInTimes.none _ (.inl rfl)
  · rw [List.singleton_append, plainTimes_cons]
    cases timesAt? (' ' :: '·' :: x) with
    | none =>
      dsimp only
      rw [plainTimes_dot_cons]
      exact StartsInTimes.one _ (.inl rfl)
    | some rest => exact StartsInTimes.one _ (.inr rfl)

theorem StartsInTimes.plainDivide (h : StartsInTimes x) : StartsInTimes (plainDivide x) := by
  cases h with
  | @mk bs c x hbs hc =>
    have hhead : UnitSheet.plainDivide (c :: x) = c :: UnitSheet.plainDivide x := by
      rcases hc with rfl | rfl <;> simp [UnitSheet.plainDivide]
    rw [plainDivide_append (by rcases hc with rfl | rfl <;> simp), hhead,
      plainDivide_eq_self fun b hb => isKept_of_isBlank (hbs b hb)]
    exact .mk _ hbs hc

theorem StartsInTimes.plainGlyph (h : StartsInTimes x) : StartsInTimes (x.map plainGlyph) := by
  cases h with
  | @mk bs c x hbs hc =>
    have hhead : UnitSheet.plainGlyph c = c := by rcases hc with rfl | rfl <;> decide
    rw [List.map_append, List.map_cons, hhead,
      map_plainGlyph_eq_self fun b hb => isKept_of_isBlank (hbs b hb)]
    exact .mk _ hbs hc

theorem StartsInTimes.spacedForm (h : StartsInTimes x) :
    ∃ c, (c = '·' ∨ c = '*') ∧ (spacedForm x).head? = some c := by
  cases h with
  | @mk bs c x hbs hc =>
    have hvisible : isBlank c = false := by rcases hc with rfl | rfl <;> decide
    have hsign : c ≠ '=' := by rcases hc with rfl | rfl <;> decide
    have hequals : spaceEquals (bs ++ c :: x) = spaceEquals bs ++ c :: spaceEquals x := by
      rw [spaceEquals, List.flatMap_append, List.flatMap_cons, if_neg hsign]
      rfl
    refine ⟨c, hc, ?_⟩
    rw [UnitSheet.spacedForm, hequals, spaceEquals_blanks hbs, singleSpaces_append_cons hvisible,
      strip_prepend (isBlank_of_mem_singleSpaces hbs), strip, stripLeft, List.dropWhile_cons, hvisible,
      if_neg Bool.false_ne_true, stripRight_cons hvisible]
    rfl

theorem head?_of_dot (h : (stripLeft cs).head? = some '·') :
    ∃ c, (c = '·' ∨ c = '*') ∧ (spacedForm (plainForm cs)).head? = some c := by
  obtain ⟨x, hx⟩ : ∃ x, stripLeft cs = '·' :: x := ⟨_, List.eq_cons_of_mem_head? h⟩
  have hcs : cs = cs.takeWhile isBlank ++ '·' :: x :=
    hx ▸ List.takeWhile_append_dropWhile.symm
  have hunits : ∃ bs, (bs = [] ∨ bs = [' ']) ∧
      spaceUnits (singleSpaces cs) = bs ++ '·' :: spaceUnits (singleSpaces x) := by
    have hspaces : spaceUnits ('·' :: singleSpaces x) = '·' :: spaceUnits (singleSpaces x) := by
      rw [spaceUnits, if_neg (by decide)]
    rw [hcs, singleSpaces_append_cons (by decide)]
    have hblanks : ∀ b ∈ cs.takeWhile isBlank, isBlank b = true := fun b hb => List.mem_takeWhile_imp hb
    rcases singleSpaces_blanks hblanks with hnone | hone
    · exact ⟨[], .inl rfl, by rw [hnone, List.nil_append, hspaces, List.nil_append]⟩
    · refine ⟨[' '], .inr rfl, ?_⟩
      rw [hone, List.singleton_append, spaceUnits, if_neg (by decide), hspaces, List.singleton_append]
  obtain ⟨bs, hbs, hunits⟩ := hunits
  rw [plainForm, hunits]
  exact (startsInTimes_plainTimes hbs _).plainDivide.plainGlyph.spacedForm

/-- No raised dot is the first or the last visible character. -/
def HasNoEndDots (cs : List Char) : Prop :=
  (strip cs).head? ≠ some '·' ∧ (strip cs).getLast? ≠ some '·'

theorem spacedForm_plainForm_strip (h : HasNoEndDots cs) :
    spacedForm (plainForm cs) = spacedForm (plainForm (strip cs)) := by
  obtain ⟨hfirst, hlast⟩ := h
  have hdot : (stripLeft cs).head? ≠ some '·' := by
    intro hhead
    obtain ⟨x, hx⟩ : ∃ x, stripLeft cs = '·' :: x := ⟨_, List.eq_cons_of_mem_head? hhead⟩
    rw [strip, hx, stripRight_cons (by decide)] at hfirst
    exact hfirst rfl
  rw [spacedForm_plainForm_stripLeft hdot, spacedForm_plainForm hlast]
  rfl

theorem hasNoEndDots_of_readLine {text : String} {s : Statement} {tier : Tier}
    (h : readLine text = .ok (s, tier)) : HasNoEndDots (visibleChars text.toList) := by
  constructor
  · intro hfirst
    obtain ⟨c, hc, hnormal⟩ := head?_of_dot (head?_stripLeft_of_strip hfirst)
    rw [← toList_normalize] at hnormal
    refine head_ne_of_readLine h ?_ hnormal
    rcases hc with rfl | rfl
    · exact .inr (.inr rfl)
    · exact .inr (.inl rfl)
  · intro hlast
    obtain ⟨y, c, hnormal, hc⟩ := exists_concat_of_dot (getLast?_stripRight_of_strip hlast)
    rw [← toList_normalize] at hnormal
    have hread := isReadFrom_of_readLine h
    have hopen : (normalize text).toList.getLast? ≠ some '=' := by
      rw [hnormal, List.getLast?_concat]
      rcases hc with rfl | rfl <;> decide
    rw [preparedText_of_endsOpenly (endsOpenly_of_readLine h), trimEquals_normalize_of_ne hopen] at hread
    rcases hc with rfl | rfl
    · exact hread.not_concat isSeparator_dot (by decide) hnormal
    · exact hread.not_concat isSeparator_star (by decide) hnormal

end

section
variable {text shown : String} {s : Statement} {tier : Tier} {rest : List Char}

theorem toList_cellText_of_equal (hshown : shown.toList = '=' :: rest) :
    (cellText shown).toList = spacedForm (plainForm (visibleChars rest)) := by
  have hvisible : visibleChars shown.toList = [] ++ '=' :: visibleChars rest := by
    rw [hshown, visibleChars, List.filter_cons, if_pos (by decide)]
    rfl
  have hnormal : (normalize shown).toList =
      '=' :: stripRight (singleSpaces (' ' :: spaceEquals (plainForm (visibleChars rest)))) := by
    have hequals : ∀ w, spaceEquals ('=' :: w) = [' '] ++ '=' :: (' ' :: spaceEquals w) := fun w => rfl
    rw [toList_normalize, hvisible, plainForm_append_equal, plainForm_nil, List.nil_append, spacedForm,
      hequals, singleSpaces_append_cons (by decide),
      strip_prepend (isBlank_of_mem_singleSpaces isBlank_of_mem_space), strip, stripLeft,
      List.dropWhile_cons, if_neg (by decide), stripRight_cons (by decide)]
  rw [cellText, hnormal]
  refine (String.toList_ofList ..).trans ?_
  rw [strip_stripRight, strip_singleSpaces_cons, spacedForm]

/-- A reference to a cell reads the normal form of the line of the cell, if the line can be read. -/
theorem cellText_of_equal (hshown : shown.toList = '=' :: rest)
    (h : readLine (String.ofList (strip rest)) = .ok (s, tier)) :
    cellText shown = normalize (String.ofList (strip rest)) := by
  obtain ⟨bs, bs', hbs, hbs', hrest⟩ := exists_append_strip rest
  have hdots := hasNoEndDots_of_readLine h
  rw [String.toList_ofList] at hdots
  have hvisible : visibleChars rest =
      visibleChars bs ++ (visibleChars (strip rest) ++ visibleChars bs') := by
    conv_lhs => rw [hrest]
    simp only [visibleChars, List.filter_append]
  have hstrip : strip (visibleChars rest) = strip (visibleChars (strip rest)) := by
    have hfront : ∀ b ∈ visibleChars bs, isBlank b = true :=
      fun b hb => hbs b (List.mem_of_mem_filter hb)
    have hback : ∀ b ∈ visibleChars bs', isBlank b = true :=
      fun b hb => hbs' b (List.mem_of_mem_filter hb)
    rw [hvisible, strip_prepend hfront, strip_append hback]
  have hdots' : HasNoEndDots (visibleChars rest) := by rwa [HasNoEndDots, hstrip]
  rw [← String.toList_inj, toList_cellText_of_equal hshown, toList_normalize, String.toList_ofList,
    spacedForm_plainForm_strip hdots', hstrip, ← spacedForm_plainForm_strip hdots]

theorem cellText_of_readLine (h : readLine shown = .ok (s, tier)) : cellText shown = normalize shown := by
  unfold cellText
  split
  · rename_i rest hrest
    exact absurd (by rw [hrest]; rfl) (head_ne_of_readLine h (.inl rfl))
  · exact String.ofList_toList

end

end UnitSheet
