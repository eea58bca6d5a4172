import UnitSheet.Proofs.Document.Pass
import UnitSheet.Proofs.Grammar.Exactness
import UnitSheet.Proofs.Line.Separators
import UnitSheet.Proofs.Line.Tiers

set_option autoImplicit false

namespace UnitSheet

section
variable {cs bs x : List Char}

theorem trimEquals_of_append {text : String} {body : List Char} (h : text.toList = body ++ '=' :: bs)
    (hbs : ∀ b ∈ bs, isBlank b = true) : trimEquals text = String.ofList (stripRight body) := by
  have hstrip : stripRight text.toList = body ++ ['='] := by
    rw [h, List.append_cons, stripRight_append hbs, stripRight_of_getLast?]
    intro d hd
    rw [List.getLast?_concat] at hd
    exact Option.some.inj hd ▸ (by decide)
  rw [trimEquals, hstrip, List.reverse_append, List.reverse_singleton, List.singleton_append]
  exact congrArg (fun cs => String.ofList (stripRight cs)) (List.reverse_reverse body)

theorem exists_append_of_getLast? {c : Char} (h : (stripRight cs).getLast? = some c) :
    ∃ body bs, cs = body ++ c :: bs ∧ ∀ b ∈ bs, isBlank b = true := by
  obtain ⟨body, hbody⟩ := List.getLast?_eq_some_iff.1 h
  obtain ⟨bs, hbs, hcs⟩ := exists_append_stripRight cs
  refine ⟨body, bs, ?_, hbs⟩
  rw [hbody, List.append_assoc] at hcs
  exact hcs

theorem trimEquals_of_ne {text : String} (h : (stripRight text.toList).getLast? ≠ some '=') :
    trimEquals text = text := by
  unfold trimEquals
  split
  · rename_i before hreverse
    refine absurd ?_ h
    rw [← List.head?_reverse, hreverse]
    rfl
  · rfl

theorem mem_of_mem_trimEquals {text : String} {c : Char}
    (h : c ∈ (trimEquals text).toList) : c ∈ text.toList := by
  unfold trimEquals at h
  split at h
  · rename_i before hreverse
    rw [String.toList_ofList] at h
    refine mem_of_mem_stripRight (List.mem_reverse.1 ?_)
    rw [hreverse]
    exact List.mem_cons_of_mem _ (List.mem_reverse.1 (mem_of_mem_stripRight h))
  · exact h

theorem getLast?_trimEquals {text : String} (h : ∀ d ∈ text.toList.getLast?, isBlank d = false) :
    ∀ d ∈ (trimEquals text).toList.getLast?, isBlank d = false := by
  unfold trimEquals
  split
  · rw [String.toList_ofList]
    exact getLast?_stripRight _
  · exact h

end

def visibleChars (cs : List Char) : List Char := cs.filter fun c => !isInvisible c

def plainForm (cs : List Char) : List Char :=
  (plainDivide (plainTimes (spaceUnits (singleSpaces cs)))).map plainGlyph

def spacedForm (cs : List Char) : List Char := strip (singleSpaces (spaceEquals cs))

theorem toList_normalize (text : String) :
    (normalize text).toList = spacedForm (plainForm (visibleChars text.toList)) :=
  String.toList_ofList

theorem getLast?_normalize (text : String) :
    ∀ d ∈ (normalize text).toList.getLast?, isBlank d = false := by
  rw [toList_normalize]
  exact getLast?_stripRight _

theorem trimEquals_normalize_of_ne {text : String} (h : (normalize text).toList.getLast? ≠ some '=') :
    trimEquals (normalize text) = normalize text := by
  refine trimEquals_of_ne ?_
  rwa [stripRight_of_getLast? (getLast?_normalize text)]

section
variable {cs bs x y : List Char}

theorem plainForm_nil : plainForm [] = [] := by
  rw [plainForm, singleSpaces, spaceUnits, plainTimes]
  rfl

theorem plainForm_append_equal (x y : List Char) :
    plainForm (x ++ '=' :: y) = plainForm x ++ '=' :: plainForm y := by
  have hunits : spaceUnits ('=' :: singleSpaces y) = '=' :: spaceUnits (singleSpaces y) := by
    rw [spaceUnits, if_neg (by decide)]
  have htimes : plainTimes ('=' :: spaceUnits (singleSpaces y)) =
      '=' :: plainTimes (spaceUnits (singleSpaces y)) := by
    rw [plainTimes_cons]
    rfl
  rw [plainForm, singleSpaces_append_cons (by decide), spaceUnits_append (.equal _), hunits,
    plainTimes_append (.equal _) _ (fun h => absurd (List.cons.inj h).1 (by decide)), htimes,
    plainDivide_append (IsTail.not_mem_head (.equal _) (by decide) (by decide)), List.map_append]
  rfl

theorem getLast?_singleSpaces (hcs : ∀ d ∈ cs.getLast?, isBlank d = false) :
    (singleSpaces cs).getLast? = cs.getLast? := by
  rcases List.eq_nil_or_concat' cs with rfl | ⟨cs, c, rfl⟩
  · rfl
  · have hc : isBlank c = false := hcs c List.getLast?_concat
    rw [singleSpaces_append_cons hc, List.getLast?_concat]
    exact List.getLast?_concat

theorem getLast?_spaceUnits (cs : List Char) : (spaceUnits cs).getLast? = cs.getLast? := by
  fun_induction spaceUnits cs with
  | case1 => rfl
  | case2 c cs hc number after word hunit ih =>
    have hcs : c :: cs = number ++ ((cs.dropWhile isNumberChar).takeWhile isBlank ++ word) ++
        after.dropWhile isWord := by
      rw [List.append_assoc, List.append_assoc, List.takeWhile_append_dropWhile,
        List.takeWhile_append_dropWhile, List.cons_append, List.takeWhile_append_dropWhile]
    have hne : word ≠ [] := by
      intro hnil
      rw [hnil] at hunit
      exact absurd hunit (by decide)
    have hlast : ∀ front, (front ++ word).getLast? = word.getLast? :=
      fun front => List.getLast?_append_of_ne_nil front hne
    have hspaced : (number ++ ' ' :: word).getLast? = word.getLast? := by
      rw [List.append_cons, hlast]
    rw [List.getLast?_append, ih, hspaced, hcs, List.getLast?_append, ← List.append_assoc, hlast]
  | case3 c cs hc number after word hunit ih =>
    have hcs : c :: cs = number ++ cs.dropWhile isNumberChar := by
      rw [List.cons_append, List.takeWhile_append_dropWhile]
    rw [hcs, List.getLast?_append, List.getLast?_append, ih]
  | case4 c cs _ ih =>
    rw [← List.singleton_append, List.getLast?_append, ih, ← List.getLast?_append]
    rfl

theorem plainForm_append_blanks (hbs : ∀ b ∈ bs, isBlank b = true)
    (hx : ∀ d ∈ x.getLast?, isBlank d = false ∧ d ≠ '·') :
    plainForm (x ++ bs) = plainForm x ∨ plainForm (x ++ bs) = plainForm x ++ [' '] := by
  have hblank : ∀ d ∈ x.getLast?, isBlank d = false := fun d hd => (hx d hd).1
  have hsingle : singleSpaces (x ++ bs) = singleSpaces x ++ singleSpaces bs := by
    rcases List.eq_nil_or_concat' x with rfl | ⟨x, c, rfl⟩
    · rfl
    · have hc : isBlank c = false := hblank c List.getLast?_concat
      rw [List.append_assoc, List.singleton_append, singleSpaces_append_cons hc,
        singleSpaces_append_cons hc, List.append_assoc]
      rfl
  have hspaces : spaceUnits [' '] = [' '] := by
    rw [spaceUnits, if_neg (by decide), spaceUnits]
  have htimes : plainTimes [' '] = [' '] := by
    rw [plainTimes_cons]
    exact congrArg (' ' :: ·) (by rw [plainTimes])
  rw [plainForm, hsingle]
  rcases singleSpaces_blanks hbs with hnone | hone
  · rw [hnone, List.append_nil]
    exact .inl rfl
  · have hlast : (spaceUnits (singleSpaces x)).getLast? = x.getLast? := by
      rw [getLast?_spaceUnits, getLast?_singleSpaces hblank]
    rw [hone, spaceUnits_append .blank, hspaces,
      plainTimes_append .blank _ fun _ d hd => hx d (hlast ▸ hd), htimes,
      plainDivide_append (IsTail.blank.not_mem_head (by decide) (by decide)), List.map_append]
    exact .inr rfl

theorem spaceEquals_append_blank (x : List Char) :
    spaceEquals (x ++ [' ']) = spaceEquals x ++ [' '] := by
  rw [spaceEquals, List.flatMap_append]
  rfl

theorem spacedForm_append_blank (x : List Char) : spacedForm (x ++ [' ']) = spacedForm x := by
  rw [spacedForm, spacedForm, spaceEquals_append_blank]
  rcases singleSpaces_append_blank (spaceEquals x) with h | h
  · rw [h]
  · rw [h, strip_append_blank]

theorem spacedForm_append_equal (x : List Char) (hbs : ∀ b ∈ bs, isBlank b = true) :
    spacedForm (x ++ '=' :: bs) = stripLeft (singleSpaces (spaceEquals x ++ [' '])) ++ ['='] := by
  have hblanks : ∀ b ∈ ' ' :: spaceEquals bs, isBlank b = true := by
    intro b hb
    rcases List.mem_cons.1 hb with rfl | hb
    · decide
    · obtain ⟨d, hd, hb⟩ := List.mem_flatMap.1 hb
      rw [if_neg (ne_of_isBlank (hbs d hd) (by decide)), List.mem_singleton] at hb
      exact hb ▸ hbs d hd
  have hequals : spaceEquals (x ++ '=' :: bs) =
      spaceEquals x ++ [' '] ++ '=' :: (' ' :: spaceEquals bs) := by
    rw [spaceEquals, List.flatMap_append, List.flatMap_cons, if_pos rfl, ← spaceEquals,
      List.append_assoc]
    rfl
  rw [spacedForm, hequals, singleSpaces_append_cons (by decide), strip, stripLeft,
    dropWhile_stop (by decide), List.append_cons, stripRight_append (isBlank_of_mem_singleSpaces hblanks),
    stripRight_of_getLast?]
  · rfl
  · intro d hd
    rw [List.getLast?_concat] at hd
    exact Option.some.inj hd ▸ (by decide)

theorem spacedForm_plainForm (hcs : (stripRight cs).getLast? ≠ some '·') :
    spacedForm (plainForm cs) = spacedForm (plainForm (stripRight cs)) := by
  obtain ⟨bs, hbs, heq⟩ := exists_append_stripRight cs
  have hlast : ∀ d ∈ (stripRight cs).getLast?, isBlank d = false ∧ d ≠ '·' := by
    refine fun d hd => ⟨getLast?_stripRight cs d hd, ?_⟩
    rintro rfl
    exact hcs hd
  have hplain := plainForm_append_blanks hbs hlast
  rw [← heq] at hplain
  rcases hplain with h | h
  · rw [h]
  · rw [h, spacedForm_append_blank]

end

section
variable {bs x : List Char} {c : Char}

theorem plainTimes_blanks (hbs : ∀ b ∈ bs, isBlank b = true) : plainTimes bs = bs := by
  induction bs with
  | nil => rw [plainTimes]
  | cons b bs ih =>
    have hb : isBlank b = true := hbs b List.mem_cons_self
    have hno : ∀ c word, isBlank c = false → ¬ c :: word <+: b :: bs := by
      rintro c word hc ⟨rest, hrest⟩
      rw [(List.cons.inj hrest).1, hb] at hc
      cases hc
    have hdot : dotAt? [] = none := rfl
    have hnone : timesAt? (b :: bs) = none := by
      rw [timesAt?, if_neg (hno _ _ (by decide)), if_neg (hno _ _ (by decide)),
        if_neg (hno _ _ (by decide)), List.dropWhile_eq_nil_iff.2 hbs, hdot, ite_self]
    rw [plainTimes_cons, hnone]
    exact congrArg (b :: ·) (ih fun d hd => hbs d (List.mem_cons_of_mem b hd))

theorem spaceEquals_blanks (hbs : ∀ b ∈ bs, isBlank b = true) : spaceEquals bs = bs := by
  induction bs with
  | nil => rfl
  | cons b bs ih =>
    rw [spaceEquals, List.flatMap_cons, ← spaceEquals, ih fun d hd => hbs d (List.mem_cons_of_mem b hd),
      if_neg (ne_of_isBlank (hbs b List.mem_cons_self) (by decide))]
    rfl

inductive EndsInTimes : List Char → Prop
  | mk (x : List Char) {c : Char} {bs : List Char} :
      c = '·' ∨ c = '*' → (∀ b ∈ bs, isBlank b = true) → EndsInTimes (x ++ c :: bs)

theorem EndsInTimes.append (h : EndsInTimes x) (front : List Char) : EndsInTimes (front ++ x) := by
  obtain ⟨x, hc, hbs⟩ := h
  rw [← List.append_assoc]
  exact .mk _ hc hbs

theorem plainTimes_dot_cons (x : List Char) : plainTimes ('·' :: x) = '·' :: plainTimes x := by
  have hnone : timesAt? ('·' :: x) = none := by
    simp [timesAt?, (by decide : isBlank '·' = false)]
  rw [plainTimes_cons, hnone]

theorem endsInTimes_plainTimes (x : List Char) (hbs : ∀ b ∈ bs, isBlank b = true) :
    EndsInTimes (plainTimes (x ++ '·' :: bs)) := by
  cases x with
  | nil =>
    rw [List.nil_append, plainTimes_dot_cons]
    exact .mk [] (.inl rfl) (by rwa [plainTimes_blanks hbs])
  | cons c x =>
    rw [List.cons_append, plainTimes_cons]
    cases hrest : timesAt? (c :: (x ++ '·' :: bs)) with
    | none => exact (endsInTimes_plainTimes x hbs).append [c]
    | some rest =>
      obtain ⟨front, hfront, heq⟩ := exists_append_of_timesAt? hrest
      rw [← List.cons_append] at heq
      have hmore : ∀ x', rest = x' ++ '·' :: bs → x'.length < (c :: x).length →
          EndsInTimes (' ' :: '*' :: ' ' :: plainTimes rest) := by
        rintro x' rfl hless
        exact (endsInTimes_plainTimes x' hbs).append [' ', '*', ' ']
      rcases List.append_eq_append_iff.1 heq with ⟨more, rfl, hbehind⟩ | ⟨more, hcons, hbehind⟩
      · cases more with
        | nil => exact hmore [] hbehind.symm (Nat.zero_lt_succ _)
        | cons d more =>
          have hblank : ∀ b ∈ rest, isBlank b = true := fun b hb =>
            hbs b ((List.cons.inj hbehind).2 ▸ List.mem_append_right more hb)
          dsimp only
          rw [plainTimes_blanks hblank]
          exact .mk [' '] (.inr rfl) (List.forall_mem_cons.2 ⟨by decide, hblank⟩)
      · refine hmore more hbehind ?_
        rw [hcons, List.length_append]
        exact Nat.lt_add_of_pos_left (List.length_pos_iff.2 hfront)
termination_by x.length
decreasing_by
  · subst_vars
    exact Nat.lt_succ_self _
  · subst_vars
    exact hless

theorem EndsInTimes.plainDivide (h : EndsInTimes x) : EndsInTimes (plainDivide x) := by
  cases h with
  | @mk x c bs hc hbs =>
    have hkept : ∀ d ∈ c :: bs, isKept d = true :=
      List.forall_mem_cons.2 ⟨by rcases hc with rfl | rfl <;> decide, fun b hb => isKept_of_isBlank (hbs b hb)⟩
    rw [plainDivide_append (by rcases hc with rfl | rfl <;> simp), plainDivide_eq_self hkept]
    exact .mk _ hc hbs

theorem EndsInTimes.plainGlyph (h : EndsInTimes x) : EndsInTimes (x.map plainGlyph) := by
  cases h with
  | @mk x c bs hc hbs =>
    have hkept : ∀ d ∈ c :: bs, isKept d = true :=
      List.forall_mem_cons.2 ⟨by rcases hc with rfl | rfl <;> decide, fun b hb => isKept_of_isBlank (hbs b hb)⟩
    rw [List.map_append, map_plainGlyph_eq_self hkept]
    exact .mk _ hc hbs

theorem EndsInTimes.spacedForm (h : EndsInTimes x) :
    ∃ y c, spacedForm x = y ++ [c] ∧ (c = '·' ∨ c = '*') := by
  cases h with
  | @mk x c bs hc hbs =>
    have hvisible : isBlank c = false := by rcases hc with rfl | rfl <;> decide
    have hsign : c ≠ '=' := by rcases hc with rfl | rfl <;> decide
    have hblanks : ∀ b ∈ singleSpaces (spaceEquals bs), isBlank b = true := by
      rw [spaceEquals_blanks hbs]
      exact isBlank_of_mem_singleSpaces hbs
    have hequals : spaceEquals (x ++ c :: bs) = spaceEquals x ++ c :: spaceEquals bs := by
      rw [spaceEquals, List.flatMap_append, List.flatMap_cons, if_neg hsign]
      rfl
    refine ⟨stripLeft (singleSpaces (spaceEquals x)), c, ?_, hc⟩
    rw [UnitSheet.spacedForm, hequals, singleSpaces_append_cons hvisible, strip, stripLeft,
      dropWhile_stop hvisible, List.append_cons, stripRight_append hblanks, stripRight_of_getLast?]
    · rfl
    · intro d hd
      rw [List.getLast?_concat] at hd
      exact Option.some.inj hd ▸ hvisible

theorem exists_concat_of_dot {cs : List Char} (h : (stripRight cs).getLast? = some '·') :
    ∃ y c, spacedForm (plainForm cs) = y ++ [c] ∧ (c = '·' ∨ c = '*') := by
  obtain ⟨body, bs, rfl, hbs⟩ := exists_append_of_getLast? h
  have hdot : (spaceUnits (singleSpaces body ++ ['·'])).getLast? = some '·' := by
    rw [getLast?_spaceUnits, List.getLast?_concat]
  obtain ⟨x, hx⟩ := List.getLast?_eq_some_iff.1 hdot
  have hunits : ∃ bs', (∀ b ∈ bs', isBlank b = true) ∧
      spaceUnits (singleSpaces (body ++ '·' :: bs)) = x ++ '·' :: bs' := by
    rw [singleSpaces_append_cons (by decide), List.append_cons]
    rcases singleSpaces_blanks hbs with hnone | hone
    · exact ⟨[], by simp, by rw [hnone, List.append_nil, hx]⟩
    · have hspace : spaceUnits [' '] = [' '] := by
        rw [spaceUnits, if_neg (by decide), spaceUnits]
      refine ⟨[' '], isBlank_of_mem_space, ?_⟩
      rw [hone, spaceUnits_append .blank, hx, hspace, List.append_assoc]
      rfl
  obtain ⟨bs', hbs', hunits⟩ := hunits
  rw [plainForm, hunits]
  exact (endsInTimes_plainTimes x hbs').plainDivide.plainGlyph.spacedForm

end

/-- Where the normal form of the text ends in an equals sign, so does the text itself, and no raised
dot stands before the sign. -/
def EndsOpenly (text : String) : Prop :=
  (normalize text).toList.getLast? = some '=' →
    (stripRight text.toList).getLast? = some '=' ∧
      (stripRight (visibleChars (trimEquals text).toList)).getLast? ≠ some '·'

instance (text : String) : Decidable (EndsOpenly text) :=
  inferInstanceAs (Decidable (_ → _))

theorem normalize_of_getLast? {text : String} {body bs : List Char}
    (htext : text.toList = body ++ '=' :: bs) (hbs : ∀ b ∈ bs, isBlank b = true) :
    (normalize text).toList =
      stripLeft (singleSpaces (spaceEquals (plainForm (visibleChars body)) ++ [' '])) ++ ['='] := by
  have hvisible : visibleChars text.toList = visibleChars body ++ '=' :: visibleChars bs := by
    rw [htext, visibleChars, List.filter_append, List.filter_cons, if_pos (by decide)]
    rfl
  have hblanks : ∀ b ∈ visibleChars bs, isBlank b = true :=
    fun b hb => hbs b (List.mem_of_mem_filter hb)
  have hplain : ∀ b ∈ plainForm (visibleChars bs), isBlank b = true := by
    rcases plainForm_append_blanks (x := []) hblanks (by simp) with h | h
    · rw [List.nil_append, plainForm_nil] at h
      rw [h]
      simp
    · rw [List.nil_append, plainForm_nil] at h
      rw [h]
      exact isBlank_of_mem_space
  rw [toList_normalize, hvisible, plainForm_append_equal, spacedForm_append_equal _ hplain]

/-- Dropping the equals sign at the end before or after the step to the normal form comes to the
same. -/
theorem normalize_trimEquals {text : String} (h : EndsOpenly text) :
    normalize (trimEquals text) = trimEquals (normalize text) := by
  by_cases hraw : (stripRight text.toList).getLast? = some '='
  · obtain ⟨body, bs, htext, hbs⟩ := exists_append_of_getLast? hraw
    have hnormal := normalize_of_getLast? htext hbs
    have htrim := trimEquals_of_append htext hbs
    obtain ⟨-, hdot⟩ := h (by rw [hnormal, List.getLast?_concat])
    obtain ⟨bs', hbs', hbody⟩ := exists_append_stripRight body
    have hvisible : stripRight (visibleChars body) = stripRight (visibleChars (stripRight body)) := by
      rw [hbody, visibleChars, List.filter_append, stripRight_append, ← hbody]
      · rfl
      · exact fun b hb => hbs' b (List.mem_of_mem_filter hb)
    rw [htrim, String.toList_ofList] at hdot
    have hforms : spacedForm (plainForm (visibleChars (stripRight body))) =
        spacedForm (plainForm (visibleChars body)) := by
      have hdot' : (stripRight (visibleChars body)).getLast? ≠ some '·' := hvisible ▸ hdot
      rw [spacedForm_plainForm hdot, spacedForm_plainForm hdot', hvisible]
    have hnormalize := toList_normalize (String.ofList (stripRight body))
    rw [String.toList_ofList, hforms, ← spacedForm_append_blank, spacedForm,
      spaceEquals_append_blank] at hnormalize
    rw [trimEquals_of_append hnormal (by simp), htrim, ← String.toList_inj, hnormalize,
      String.toList_ofList, strip]
  · rw [trimEquals_of_ne hraw, trimEquals_normalize_of_ne fun hequal => hraw (h hequal).1]

theorem preparedText_of_endsOpenly {text : String} (h : EndsOpenly text) :
    preparedText text = foldRepeats (trimEquals (normalize text)) := by
  rw [preparedText, normalize_trimEquals h]

theorem computeLine_congr {t₁ t₂ : String} (h : preparedText t₁ = preparedText t₂) (o : Options)
    (s : Scope) : computeLine o s t₁ = computeLine o s t₂ := by
  unfold computeLine evaluateLine evaluateLineWith readLine
  rw [h]

/-- A line amounts to the same with any two texts that have one normal form and that end openly:
its kind, its outcome, the names that it leaves and the fault that it raises, if any. -/
theorem recompute_of_normalize_eq (o : Options) (s : Scope) (l : Line) {t₁ t₂ : String}
    (h : normalize t₁ = normalize t₂) (h₁ : EndsOpenly t₁) (h₂ : EndsOpenly t₂) :
    let turn (text : String) : Turn := Line.recompute o s { l with text }
    (turn t₁).line = { (turn t₂).line with text := t₁ } ∧ (turn t₁).store = (turn t₂).store ∧
      (turn t₁).fault = (turn t₂).fault := by
  have hprepared : preparedText t₁ = preparedText t₂ := by
    rw [preparedText_of_endsOpenly h₁, preparedText_of_endsOpenly h₂, h]
  dsimp only [Line.recompute]
  rw [h, computeLine_congr hprepared o s]
  generalize lineKind (normalize t₂) = kind
  generalize computeLine o s t₂ = computed
  by_cases hkind : kind = .text
  · rw [if_pos hkind, if_pos hkind]
    exact ⟨rfl, rfl, rfl⟩
  · rw [if_neg hkind, if_neg hkind]
    match computed with
    | .error (.fault fault) => exact ⟨rfl, rfl, rfl⟩
    | .error (.mistake error) => exact ⟨rfl, rfl, rfl⟩
    | .ok c => exact ⟨rfl, rfl, rfl⟩

theorem outcome_with_text (l : Line) (text : String) : { l with text }.outcome = l.outcome := rfl

theorem recompute_of_normalize_eq_minus :
    normalize "a = 5 ft − 2ft = " = normalize " a=5ft\u200b - 2 ft =" ∧
      EndsOpenly "a = 5 ft − 2ft = " ∧ EndsOpenly " a=5ft\u200b - 2 ft =" ∧
      let turn (text : String) : Turn := Line.recompute {} .empty { id := "1", text }
      (turn "a = 5 ft − 2ft = ").line.outcome = (turn " a=5ft\u200b - 2 ft =").line.outcome ∧
        (turn "a = 5 ft − 2ft = ").store = (turn " a=5ft\u200b - 2 ft =").store := by
  have hnormal : normalize "a = 5 ft − 2ft = " = normalize " a=5ft\u200b - 2 ft =" := by
    decide +kernel
  have hfirst : EndsOpenly "a = 5 ft − 2ft = " := by decide +kernel
  have hsecond : EndsOpenly " a=5ft\u200b - 2 ft =" := by decide +kernel
  obtain ⟨hline, hstore, -⟩ :=
    recompute_of_normalize_eq {} .empty { id := "1", text := "" } hnormal hfirst hsecond
  -- By the lemma about any line, for on these two the kernel would compute both turns.
  have houtcome := (congrArg Line.outcome hline).trans (outcome_with_text _ _)
  exact ⟨hnormal, hfirst, hsecond, houtcome, hstore⟩

theorem readLine_eq_error {text : String} (hstrays : (lex (preparedText text)).strays = [])
    (h : ∀ s, Grammar.parse (lex (preparedText text)).tokens ≠ .ok s) :
    ∃ e, readLine text = .error (.parse e) := by
  unfold readLine
  dsimp only
  rw [hstrays]
  dsimp only
  cases hrestricted : Grammar.Restricted.parse (lex (preparedText text)).tokens with
  | parsed s => exact absurd (Grammar.Restricted.parse_of_parsed (sumsSpelled_lex _) hrestricted).1 (h s)
  | needsFull | failed =>
    cases hfull : Grammar.parse (lex (preparedText text)).tokens with
    | ok s => exact absurd hfull (h s)
    | error e => exact ⟨e, rfl⟩

/-- An invisible character behind the equals sign keeps it on the line, which is then refused. -/
theorem recompute_hiddenEquals :
    normalize "1 ft + 2 ft =\u200b" = normalize "1 ft + 2 ft =" ∧
      (Line.recompute {} .empty { id := "1", text := "1 ft + 2 ft =" }).line.outcome.shown? =
        some "3\u2009ft" ∧
      ∃ e, (Line.recompute {} .empty { id := "1", text := "1 ft + 2 ft =\u200b" }).line.outcome =
        .failed (.parse e) := by
  refine ⟨by decide +kernel, by decide +kernel, ?_⟩
  have hprepared : preparedText "1 ft + 2 ft =\u200b" = "1 ft + 2 ft =" := by decide +kernel
  have hstrays : (lex "1 ft + 2 ft =").strays = [] := by decide +kernel
  have htokens : Token.significant (lex "1 ft + 2 ft =").tokens =
      [⟨.number 1, "1", 0⟩, ⟨.unit, "ft", 2⟩, ⟨.plus, "+", 5⟩, ⟨.number 2, "2", 7⟩,
        ⟨.unit, "ft", 9⟩, ⟨.equal, "=", 12⟩] := by decide +kernel
  have hrefused : ∀ s, Grammar.parse (lex "1 ft + 2 ft =").tokens ≠ .ok s := by
    intro s hs
    have hderives := Grammar.parse_eq_ok_iff.1 hs
    rw [htokens] at hderives
    cases hderives with
    | formula h => exact h.kind_ne_equal ⟨.equal, "=", 12⟩ (by simp) rfl
    | definition hname => cases hname
  rw [← hprepared] at hstrays hrefused
  obtain ⟨e, he⟩ := readLine_eq_error hstrays hrefused
  have hkind : lineKind (normalize "1 ft + 2 ft =\u200b") ≠ .text := by decide +kernel
  have hcompute : computeLine {} .empty "1 ft + 2 ft =\u200b" = .error (.mistake (.parse e)) := by
    rw [computeLine, evaluateLine, evaluateLineWith, he]
  rw [recompute_of_error (l := { id := "1", text := "1 ft + 2 ft =\u200b" }) hkind hcompute]
  exact ⟨e, rfl⟩

end UnitSheet
