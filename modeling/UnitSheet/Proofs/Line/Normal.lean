import UnitSheet.Proofs.Text.Blanks
import UnitSheet.Proofs.Token.Spacing
import UnitSheet.Proofs.Unit.Exponents

set_option autoImplicit false

namespace UnitSheet

section
variable {ps : List Piece} {front tail rest bs bs' cs : List Char} {x y : Char}

/-- A text of pieces that is cut in two is cut inside a token, or else what follows the cut writes
pieces of its own and may be written in another way. -/
theorem Respaced.cut (h : Respaced ps (front ++ tail)) :
    (∃ qs, Respaced qs tail ∧
      ∀ tail', Respaced qs tail' → Respaced ps (front ++ tail')) ∨
    ∃ lead before behind rest, IsTokenText (before ++ behind) ∧ before ≠ [] ∧ behind ≠ [] ∧
      front = lead ++ before ∧ tail = behind ++ rest := by
  generalize hds : front ++ tail = ds at h
  induction h generalizing front with
  | nil =>
    obtain ⟨rfl, rfl⟩ := List.append_eq_nil_iff.1 hds
    exact .inl ⟨[], .nil, fun _ htail => htail⟩
  | @blank b ps ds hb h ih =>
    cases front with
    | nil =>
      obtain rfl : tail = b :: ds := hds
      exact .inl ⟨ps, .blank hb h, fun _ htail => htail⟩
    | cons f front =>
      obtain ⟨rfl, htail⟩ := List.cons.inj hds
      rcases ih htail with ⟨qs, hqs, hput⟩ | ⟨lead, before, behind, rest, htext, hne, hne', rfl, heq⟩
      · exact .inl ⟨qs, hqs, fun tail' htail' => .blank hb (hput tail' htail')⟩
      · exact .inr ⟨f :: lead, before, behind, rest, htext, hne, hne', rfl, heq⟩
  | @gap chars ps ds hchars hhead h ih =>
    cases front with
    | nil =>
      obtain rfl : tail = ds := hds
      exact .inl ⟨_, .gap hchars hhead h, fun _ htail => htail⟩
    | cons f front =>
      rcases ih hds with ⟨qs, htail, hput⟩ | hinside
      · refine .inl ⟨qs, htail, fun tail' htail' => .gap hchars (fun c hc => ?_) (hput tail' htail')⟩
        exact hhead c (hds ▸ hc)
      · exact .inr hinside
  | @token kind chars ps ds hkind htext h ih =>
    rcases List.append_eq_append_iff.1 hds with ⟨behind, rfl, htail⟩ | ⟨front', rfl, rfl⟩
    · by_cases hbehind : behind = []
      · subst hbehind
        rw [List.append_nil] at htext ⊢
        exact .inl ⟨ps, htail ▸ h, fun tail' htail' => .token hkind htext htail'⟩
      · by_cases hfront : front = []
        · subst hfront
          exact .inl ⟨_, htail ▸ .token hkind htext h, fun _ htail => htail⟩
        · exact .inr ⟨[], front, behind, ds, htext, hfront, hbehind, rfl, htail⟩
    · rcases ih rfl with ⟨qs, htail, hput⟩ | ⟨lead, before, behind, rest, hinside, hne, hne', rfl, heq⟩
      · refine .inl ⟨qs, htail, fun tail' htail' => ?_⟩
        rw [List.append_assoc]
        exact .token hkind htext (hput tail' htail')
      · exact .inr ⟨chars ++ lead, before, behind, rest, hinside, hne, hne',
          (List.append_assoc ..).symm, heq⟩

theorem Respaced.respace_front (h : Respaced ps (bs ++ rest)) (hbs : ∀ b ∈ bs, isBlank b = true)
    (hbs' : ∀ b ∈ bs', isBlank b = true) (hsome : bs' = [] → bs = [] ∨ rest = []) :
    Respaced ps (bs' ++ rest) := by
  generalize hds : bs ++ rest = ds at h
  induction h generalizing bs with
  | nil =>
    obtain ⟨-, rfl⟩ := List.append_eq_nil_iff.1 hds
    exact Respaced.nil.blanks hbs'
  | @blank b ps ds hb h ih =>
    cases bs with
    | nil =>
      rw [List.nil_append] at hds
      rw [hds]
      exact (Respaced.blank hb h).blanks hbs'
    | cons d bs =>
      refine ih (fun b hb => hbs b (List.mem_cons_of_mem d hb)) (fun hnil => ?_)
        (List.cons.inj hds).2
      exact (hsome hnil).imp (fun hcons => absurd hcons (List.cons_ne_nil d bs)) id
  | @gap chars ps ds hchars hhead h ih =>
    refine .gap hchars (fun c hc => ?_) (ih hbs hsome hds)
    cases bs' with
    | nil =>
      rcases hsome rfl with rfl | rfl
      · exact hhead c (hds ▸ hc)
      · cases hc
    | cons d bs' => exact hbs' c (Option.some.inj hc ▸ List.mem_cons_self)
  | @token kind chars ps ds hkind htext h ih =>
    cases bs with
    | nil =>
      rw [List.nil_append] at hds
      rw [hds]
      exact (Respaced.token hkind htext h).blanks hbs'
    | cons d bs =>
      have hhead := htext.head ds d (by rw [← hds]; rfl)
      rw [hbs d List.mem_cons_self] at hhead
      cases hhead

/-- Blanks anywhere may be replaced by others, and dropped at the end. -/
theorem Respaced.respace (h : Respaced ps (front ++ (bs ++ rest))) (bs' : List Char)
    (hne : bs ≠ []) (hbs : ∀ b ∈ bs, isBlank b = true) (hbs' : ∀ b ∈ bs', isBlank b = true)
    (hsome : bs' = [] → rest = []) : Respaced ps (front ++ (bs' ++ rest)) := by
  rcases h.cut with ⟨qs, htail, hput⟩ | ⟨lead, before, behind, more, htext, -, hne', -, htail⟩
  · exact hput _ (htail.respace_front hbs hbs' fun hnil => .inr (hsome hnil))
  · obtain ⟨b, bs, rfl⟩ := List.exists_cons_of_ne_nil hne
    obtain ⟨d, behind, rfl⟩ := List.exists_cons_of_ne_nil hne'
    have hd := htext.blank d (by simp)
    rw [← (List.cons.inj htail).1, hbs b List.mem_cons_self] at hd
    cases hd

theorem Respaced.part (h : Respaced ps (front ++ x :: y :: rest)) (hparts : Parts x y) :
    Respaced ps (front ++ x :: ' ' :: y :: rest) := by
  have hblank : isBlank ' ' = true := by decide
  rw [List.append_cons] at h ⊢
  rcases h.cut with ⟨qs, htail, hput⟩ | ⟨lead, before, behind, more, htext, hne, hne', hfront, htail⟩
  · exact hput _ (.blank hblank htail)
  · obtain ⟨before, d, rfl⟩ := List.eq_nil_or_concat' before |>.resolve_left hne
    obtain ⟨e, behind, rfl⟩ := List.exists_cons_of_ne_nil hne'
    rw [← List.append_assoc] at hfront
    obtain rfl : x = d := by simpa using (List.append_inj_right' hfront rfl)
    obtain rfl := (List.cons.inj htail).1
    have hwhole := htext.whole
    rw [List.append_assoc] at hwhole
    exact absurd hparts (List.isChain_append_cons_cons.1 hwhole).2.1

theorem Respaced.spaceEqual (h : Respaced ps (front ++ '=' :: rest)) :
    Respaced ps (front ++ ' ' :: '=' :: ' ' :: rest) := by
  have hblank : isBlank ' ' = true := by decide
  have hequal : isBlank '=' = false := by decide
  rcases h.cut with ⟨qs, htail, hput⟩ | ⟨lead, before, behind, more, htext, hne, hne', -, htail⟩
  · refine hput _ ?_
    generalize hds : '=' :: rest = ds at htail
    cases htail with
    | nil => cases hds
    | blank hb =>
      rw [← (List.cons.inj hds).1, hequal] at hb
      cases hb
    | gap _ hhead =>
      rw [← hds] at hhead
      have hhead := hhead '=' rfl
      rw [hequal] at hhead
      cases hhead
    | @token kind chars ps ds hkind htext h =>
      obtain ⟨c, chars, rfl⟩ := List.exists_cons_of_ne_nil htext.ne_nil
      obtain ⟨rfl, hrest⟩ := List.cons.inj hds
      obtain rfl : chars = [] := (List.cons.inj (htext.equals List.mem_cons_self)).2
      obtain rfl : rest = ds := hrest
      exact .blank hblank (.token hkind htext (.blank hblank h))
  · obtain ⟨c, behind, rfl⟩ := List.exists_cons_of_ne_nil hne'
    obtain rfl := (List.cons.inj htail).1
    obtain ⟨d, before, rfl⟩ := List.exists_cons_of_ne_nil hne
    have hsingle := (List.cons.inj (htext.equals (by simp))).2
    simp at hsingle

theorem Respaced.kept {ds : List Char} (h : Respaced ps ds) : ∀ c ∈ ds, isKept c = true := by
  induction h with
  | nil => simp
  | blank hb _ ih =>
    intro c hc
    rcases List.mem_cons.1 hc with rfl | hc
    · exact isKept_of_isBlank hb
    · exact ih c hc
  | gap _ _ _ ih => exact ih
  | token _ htext _ ih =>
    intro c hc
    rcases List.mem_append.1 hc with hc | hc
    · exact (Bool.and_eq_true_iff.1 (htext.plain c hc)).2
    · exact ih c hc

theorem Respaced.dot_not_behind_blank (h : Respaced ps (front ++ (bs ++ '·' :: rest)))
    (hne : bs ≠ []) (hbs : ∀ b ∈ bs, isBlank b = true) : False := by
  have hdot : isBlank '·' = false := by decide
  rw [← List.append_assoc] at h
  rcases h.cut with ⟨qs, htail, -⟩ | ⟨lead, before, behind, more, htext, hbefore, -, hfront, -⟩
  · generalize hds : '·' :: rest = ds at htail
    cases htail with
    | nil => cases hds
    | blank hb =>
      rw [← (List.cons.inj hds).1, hdot] at hb
      cases hb
    | gap _ hhead =>
      have hhead := hhead '·' (hds ▸ rfl)
      rw [hdot] at hhead
      cases hhead
    | @token kind chars _ _ _ htext =>
      obtain ⟨c, chars, rfl⟩ := List.exists_cons_of_ne_nil htext.ne_nil
      exact htext.dot c rfl (List.cons.inj hds).1.symm
  · obtain ⟨before, d, rfl⟩ := List.eq_nil_or_concat' before |>.resolve_left hbefore
    obtain ⟨bs, b, rfl⟩ := List.eq_nil_or_concat' bs |>.resolve_left hne
    rw [← List.append_assoc, ← List.append_assoc] at hfront
    obtain rfl : b = d := by simpa using List.append_inj_right' hfront rfl
    have hb := htext.blank b (by simp)
    rw [hbs b (by simp)] at hb
    cases hb

theorem Respaced.plainTimes_eq (front : List Char) (h : Respaced ps (front ++ cs)) :
    plainTimes cs = cs := by
  have hkept := h.kept
  fun_induction plainTimes cs generalizing front with
  | case1 => rfl
  | case2 | case3 => exact absurd (hkept '\\' (by simp)) (by decide)
  | case4 => exact absurd (hkept '×' (by simp)) (by decide)
  | case5 c cs _ _ _ hc after hdot =>
    have hbehind : Respaced ps (front ++ (c :: cs.takeWhile isBlank ++ '·' :: after)) := by
      rwa [← hdot, List.cons_append, List.takeWhile_append_dropWhile]
    refine (hbehind.dot_not_behind_blank (List.cons_ne_nil c _) fun b hb => ?_).elim
    rcases List.mem_cons.1 hb with rfl | hb
    · exact hc
    · exact List.mem_takeWhile_imp hb
  | case6 c cs _ _ _ _ _ _ _ ih | case7 c cs _ _ _ _ _ ih | case8 c cs _ _ _ _ ih =>
    rw [List.append_cons] at h
    rw [ih _ h h.kept]

theorem plainDivide_eq_self (h : ∀ c ∈ cs, isKept c = true) : plainDivide cs = cs := by
  fun_induction plainDivide cs with
  | case1 => rfl
  | case2 => exact absurd (h '\\' (by simp)) (by decide)
  | case3 c cs _ ih =>
    have hc : c ≠ '÷' := by
      rintro rfl
      exact absurd (h '÷' List.mem_cons_self) (by decide)
    rw [if_neg hc, ih fun d hd => h d (List.mem_cons_of_mem c hd)]

theorem map_plainGlyph_eq_self (h : ∀ c ∈ cs, isKept c = true) : cs.map plainGlyph = cs := by
  refine (List.map_congr_left fun c hc => ?_).trans (List.map_id cs)
  have hc := h c hc
  simp only [isKept, Bool.and_eq_true, beq_iff_eq] at hc
  exact hc.1.1.1.2

theorem filter_visible_eq_self (h : ∀ c ∈ cs, isKept c = true) :
    cs.filter (fun c => !isInvisible c) = cs := by
  refine List.filter_eq_self.2 fun c hc => ?_
  have hc := h c hc
  simp only [isKept, Bool.and_eq_true] at hc
  exact hc.1.1.1.1

theorem Respaced.singleSpaces (front : List Char) (h : Respaced ps (front ++ cs)) :
    Respaced ps (front ++ singleSpaces cs) := by
  fun_induction UnitSheet.singleSpaces cs generalizing front with
  | case1 => exact h
  | case2 c cs hc hnext ih =>
    cases cs with
    | nil => cases hnext
    | cons b cs =>
      have hb : isBlank b = true := hnext
      have hblanks : Respaced ps (front ++ ([c, b] ++ cs)) := h
      exact ih front (hblanks.respace [b] (by simp) (by simp [hc, hb]) (by simp [hb]) (by simp))
  | case3 c cs hc _ ih =>
    have hblank : Respaced ps (front ++ ([c] ++ cs)) := h
    have hspace := hblank.respace [' '] (by simp) (by simp [hc]) (by simp; decide) (by simp)
    rw [List.append_cons]
    exact ih _ (List.append_assoc front [' '] cs ▸ hspace)
  | case4 c cs _ ih =>
    rw [List.append_cons] at h ⊢
    exact ih _ h

theorem Respaced.spaceEquals (front : List Char) (h : Respaced ps (front ++ cs)) :
    Respaced ps (front ++ spaceEquals cs) := by
  induction cs generalizing front with
  | nil => exact h
  | cons c cs ih =>
    rw [UnitSheet.spaceEquals, List.flatMap_cons]
    split
    · rename_i hc
      subst hc
      have hspaced := h.spaceEqual
      rw [← List.append_assoc]
      refine ih _ ?_
      rw [List.append_assoc]
      exact hspaced
    · rw [← List.append_assoc]
      refine ih _ ?_
      rw [List.append_assoc]
      exact h

theorem exists_cons_of_isUnitName {word : List Char} (h : isUnitName (String.ofList word) = true) :
    ∃ y tail, word = y :: tail ∧ y.isAlpha = true ∧ y ≠ 'e' ∧ y ≠ 'E' := by
  have hall : ∀ e ∈ unitRegistry,
      (e.1.toList.head?.map fun y => y.isAlpha && y != 'e' && y != 'E').getD false = true := by
    decide +kernel
  obtain ⟨u, hu⟩ := Option.isSome_iff_exists.1 h
  have hhead := hall _ (unitDef?_eq_some_mem hu)
  rw [String.toList_ofList] at hhead
  cases word with
  | nil => cases hhead
  | cons y tail => exact ⟨y, tail, rfl, by simpa [and_assoc] using hhead⟩

theorem Respaced.spaceUnit {number word : List Char} (hnumber : ∃ init x, number = init ++ [x] ∧
    isNumberChar x = true) (hword : isUnitName (String.ofList word) = true)
    (hbs : ∀ b ∈ bs, isBlank b = true) (h : Respaced ps (front ++ (number ++ (bs ++ (word ++ rest))))) :
    Respaced ps (front ++ (number ++ ' ' :: word ++ rest)) := by
  obtain ⟨init, x, rfl, hx⟩ := hnumber
  obtain ⟨y, tail, rfl, hy⟩ := exists_cons_of_isUnitName hword
  have hblank : isBlank ' ' = true := by decide
  cases bs with
  | nil =>
    have htouching : Respaced ps (front ++ init ++ x :: y :: (tail ++ rest)) := by simpa using h
    simpa using htouching.part ⟨hx, hy⟩
  | cons b bs =>
    have happart : Respaced ps (front ++ init ++ [x] ++ (b :: bs ++ (y :: tail ++ rest))) := by
      simpa using h
    have hspaced := happart.respace [' '] (List.cons_ne_nil b bs) hbs (by simpa using hblank) (by simp)
    simpa using hspaced

theorem Respaced.spaceUnits (front : List Char) (h : Respaced ps (front ++ cs)) :
    Respaced ps (front ++ spaceUnits cs) := by
  fun_induction UnitSheet.spaceUnits cs generalizing front with
  | case1 => exact h
  | case2 c cs hc number after word hword ih =>
    have hcs : c :: cs = number ++ ((cs.dropWhile isNumberChar).takeWhile isBlank ++
        (word ++ after.dropWhile isWord)) := by
      rw [List.takeWhile_append_dropWhile, List.takeWhile_append_dropWhile, List.cons_append,
        List.takeWhile_append_dropWhile]
    rw [hcs] at h
    have hspaced := h.spaceUnit (exists_concat_number hc cs) hword fun b hb => List.mem_takeWhile_imp hb
    rw [← List.append_assoc]
    refine ih _ ?_
    rw [List.append_assoc]
    exact hspaced
  | case3 c cs hc number after word _ ih =>
    rw [← List.append_assoc]
    refine ih _ ?_
    rwa [List.append_assoc, List.cons_append, List.takeWhile_append_dropWhile]
  | case4 c cs _ ih =>
    rw [List.append_cons] at h ⊢
    exact ih _ h

theorem Respaced.stripRight (h : Respaced ps cs) : Respaced ps (stripRight cs) := by
  obtain ⟨bs, hbs, hcs⟩ := exists_append_stripRight cs
  cases bs with
  | nil =>
    rw [List.append_nil] at hcs
    rwa [← hcs]
  | cons b bs =>
    rw [hcs, ← List.append_nil (b :: bs)] at h
    have hstrip := h.respace [] (List.cons_ne_nil b bs) hbs (by simp) fun _ => rfl
    simpa using hstrip

/-- The normal form of a text without stray characters writes the pieces of the text, but for blanks
in front. -/
theorem respaced_normalize {text : String} (h : ∀ c, Piece.stray c ∉ pieces none text.toList) :
    Respaced (pieces none (text.toList.dropWhile isBlank)) (normalize text).toList := by
  have hself : Respaced (pieces none text.toList) text.toList := by
    have hself := respaced_self (isClean_pieces h)
    rwa [pieces_flatMap_chars] at hself
  have hspaced : Respaced (pieces none text.toList) (spaceUnits (singleSpaces text.toList)) :=
    Respaced.spaceUnits [] (Respaced.singleSpaces [] hself)
  have hends := (Respaced.singleSpaces [] (Respaced.spaceEquals [] hspaced)).dropWhile.stripRight
  unfold normalize
  dsimp only
  rw [String.toList_ofList, filter_visible_eq_self hself.kept, hspaced.plainTimes_eq [],
    plainDivide_eq_self hspaced.kept, map_plainGlyph_eq_self hspaced.kept]
  exact hends

def Token.content (t : Token) : TokenKind × String := (t.kind, t.text)

def Piece.content? : Piece → Option (TokenKind × String)
  | .token kind chars => some (kind, String.ofList chars)
  | .stray _ => none

theorem content_significant (text : String) :
    (Token.significant (lex text).tokens).map Token.content =
      ((pieces none text.toList).filter Piece.isShown).filterMap Piece.content? := by
  rw [significant_lex]
  generalize 0 = start
  generalize pieces none text.toList = ps
  induction ps generalizing start with
  | nil => rfl
  | cons p ps ih =>
    cases p with
    | stray c => exact ih _
    | token kind chars =>
      rw [shownTokens, List.filter_cons, Piece.isShown]
      cases kind.isWhitespace with
      | true => exact ih _
      | false => exact congrArg ((kind, String.ofList chars) :: ·) (ih _)

theorem mem_positions {p : Piece} {ps : List Piece} (h : p ∈ ps) (start : Nat) :
    ∃ position, (position, p) ∈ positions start ps := by
  induction ps generalizing start with
  | nil => cases h
  | cons q ps ih =>
    rcases List.mem_cons.1 h with rfl | h
    · exact ⟨start, List.mem_cons_self⟩
    · obtain ⟨position, hp⟩ := ih h (start + q.chars.length)
      exact ⟨position, List.mem_cons_of_mem _ hp⟩

theorem stray_not_mem_of_lex {text : String} (h : (lex text).strays = []) (c : Char) :
    Piece.stray c ∉ pieces none text.toList := by
  intro hc
  obtain ⟨position, hp⟩ := mem_positions hc 0
  have hstray : (⟨c, position⟩ : StrayChar) ∈ (lex text).strays :=
    List.mem_filterMap.2 ⟨_, hp, rfl⟩
  rw [h] at hstray
  cases hstray

/-- A text without stray characters has a normal form without any, and the normal form has the same
tokens, blanks and positions apart. -/
theorem lex_normalize {text : String} (h : (lex text).strays = []) :
    (lex (normalize text)).strays = [] ∧
      (Token.significant (lex (normalize text)).tokens).map Token.content =
        (Token.significant (lex text).tokens).map Token.content := by
  have hclean := stray_not_mem_of_lex h
  have hpieces := (shown_pieces_of_respaced none _ (respaced_normalize hclean)).trans
    (shown_pieces_dropWhile none text.toList)
  refine ⟨strays_lex fun c hc => ?_, ?_⟩
  · have hshown : Piece.stray c ∈ (pieces none (normalize text).toList).filter Piece.isShown :=
      List.mem_filter.2 ⟨hc, rfl⟩
    rw [hpieces] at hshown
    exact hclean c (List.mem_of_mem_filter hshown)
  · rw [content_significant, content_significant, hpieces]

end

theorem lex_normalize_load :
    (lex " f'=  -2.5e3kip/ft *B12+3 in^2= ").strays = [] ∧
      (lex (normalize " f'=  -2.5e3kip/ft *B12+3 in^2= ")).strays = [] ∧
      (Token.significant (lex (normalize " f'=  -2.5e3kip/ft *B12+3 in^2= ")).tokens).map
          Token.content =
        (Token.significant (lex " f'=  -2.5e3kip/ft *B12+3 in^2= ").tokens).map Token.content := by
  have hstrays : (lex " f'=  -2.5e3kip/ft *B12+3 in^2= ").strays = [] := by decide +kernel
  exact ⟨hstrays, lex_normalize hstrays⟩

end UnitSheet
