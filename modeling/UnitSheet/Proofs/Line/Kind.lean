import UnitSheet.Proofs.Line.Readable

set_option autoImplicit false

namespace UnitSheet

/-- What stands in front of the first equals sign of a line, in the normal form of its text. -/
def lineHead (text : String) : String :=
  String.ofList ((trimEquals (normalize text)).toList.takeWhile (· ≠ '='))

/-- There are no repeats to fold in front of the equals sign. -/
def HasPlainHead (text : String) : Prop := foldRepeats (lineHead text) = lineHead text

instance (text : String) : Decidable (HasPlainHead text) :=
  inferInstanceAs (Decidable (foldRepeats (lineHead text) = lineHead text))

section
variable {bs bs' name cs rest : List Char} {c : Char} {text : String}

theorem isNumberChar_of_isNameChar (h : isNameChar c = true) : isNumberChar c = false := by
  simp only [isNameChar, isNameStart, Bool.or_eq_true, beq_iff_eq] at h
  rcases h with (h | rfl) | rfl
  · exact isNumberChar_of_isAlpha h
  · decide
  · decide

theorem isBlank_of_isNameChar (h : isNameChar c = true) : isBlank c = false := by
  simp only [isNameChar, isNameStart, Bool.or_eq_true, beq_iff_eq] at h
  rcases h with (h | rfl) | rfl
  · exact isBlank_of_isAlpha h
  · decide
  · decide

theorem blanks_of_word {b : Char} (hbs : ∀ b ∈ bs, isBlank b = true)
    (hbs' : ∀ b ∈ bs', isBlank b = true) (hname : ∀ c ∈ name, isNameChar c = true)
    (h : cs ++ b :: rest = bs ++ (name ++ bs')) (hb : isBlank b = true) :
    (∀ c ∈ cs, isBlank c = true) ∨ ∀ c ∈ rest, isBlank c = true := by
  rcases List.append_eq_append_iff.1 h with ⟨more, rfl, -⟩ | ⟨more, rfl, hmore⟩
  · exact .inl fun c hc => hbs c (List.mem_append_left more hc)
  · rcases List.append_eq_append_iff.1 hmore with ⟨more', rfl, hrest⟩ | ⟨more', rfl, hrest⟩
    · exact .inr fun c hc => hbs' c (by rw [hrest]; simp [hc])
    · cases more' with
      | nil =>
        rw [List.nil_append] at hrest
        exact .inr fun c hc => hbs' c (hrest ▸ List.mem_cons_of_mem b hc)
      | cons d more' =>
        obtain rfl := (List.cons.inj hrest).1
        rw [isBlank_of_isNameChar (hname b (by simp))] at hb
        cases hb

theorem foldRepeats_word (hbs : ∀ b ∈ bs, isBlank b = true) (hbs' : ∀ b ∈ bs', isBlank b = true)
    (hname : ∀ c ∈ name, isNameChar c = true) (htext : text.toList = bs ++ (name ++ bs')) :
    foldRepeats text = text := by
  have hnumber : ∀ c ∈ text.toList, isNumberChar c = false := by
    intro c hc
    rw [htext, List.mem_append, List.mem_append] at hc
    rcases hc with hc | hc | hc
    · exact isNumberChar_of_isBlank (hbs c hc)
    · exact isNumberChar_of_isNameChar (hname c hc)
    · exact isNumberChar_of_isBlank (hbs' c hc)
  have hglued : foldGlued text.toList = text.toList := by
    refine foldGlued_eq_of_forall fun x after hx hsuffix => ?_
    rw [hnumber x (hsuffix.subset List.mem_cons_self)] at hx
    cases hx
  have hspaced : foldSpaced text.toList = text.toList := by
    refine foldSpaced_eq_of_forall fun word rest hword hsuffix => ?_
    obtain ⟨y, tail, rfl, hy, -⟩ := exists_cons_of_isUnitName hword
    cases rest with
    | nil => rw [dropRepeats]
    | cons b rest =>
      rw [dropRepeats, if_neg]
      rintro ⟨hb, hrepeat⟩
      obtain ⟨front, hfront⟩ := hsuffix
      have hvisible : ¬ isBlank y = true := by
        rw [isBlank_of_isAlpha hy]
        decide
      have hbehind : y ∈ rest := by
        refine (List.dropWhile_suffix isBlank).subset ((List.takeWhile_prefix isWord).subset ?_)
        rw [hrepeat]
        exact List.mem_cons_self
      rw [htext, ← List.append_assoc] at hfront
      rcases blanks_of_word hbs hbs' hname hfront hb with hblank | hblank
      · exact hvisible (hblank y (by simp))
      · exact hvisible (hblank y hbehind)
  rw [foldRepeats, hglued, hspaced, String.ofList_toList]

theorem spans_of_definition (hbs : ∀ b ∈ bs, isBlank b = true) (hbs' : ∀ b ∈ bs', isBlank b = true)
    (hname : IsNameText name) (rest : List Char) :
    stripLeft (bs ++ (name ++ bs') ++ '=' :: rest) = name ++ (bs' ++ '=' :: rest) ∧
      (name ++ (bs' ++ '=' :: rest)).takeWhile isNameChar = name ∧
      (name ++ (bs' ++ '=' :: rest)).dropWhile isNameChar = bs' ++ '=' :: rest ∧
      stripLeft (bs' ++ '=' :: rest) = '=' :: rest := by
  have hall := isNameChar_of_isNameText hname
  have hsign : ∀ c ∈ (bs' ++ '=' :: rest).head?, isNameChar c = false := by
    cases bs' with
    | nil => exact fun c hc => Option.some.inj hc ▸ rfl
    | cons b bs' =>
      intro c hc
      have hb := hbs' b List.mem_cons_self
      rw [← Option.some.inj hc, ← Bool.not_eq_true]
      intro hchar
      rw [isBlank_of_isNameChar hchar] at hb
      cases hb
  obtain ⟨htake, hdrop⟩ := span_append hall hsign
  have hequal : ∀ c ∈ ('=' :: rest).head?, isBlank c = false :=
    fun c hc => Option.some.inj hc ▸ by decide
  refine ⟨?_, htake, hdrop, (span_append hbs' hequal).2⟩
  obtain ⟨d, tail, hd, -, rfl⟩ := hname
  rw [List.append_assoc, List.append_assoc]
  refine (span_append hbs fun c hc => ?_).2
  rw [← Option.some.inj hc]
  exact isBlank_of_isNameChar (hall d List.mem_cons_self)

theorem definition?_eq_some (htext : (trimEquals text).toList = bs ++ (name ++ bs') ++ '=' :: rest)
    (hbs : ∀ b ∈ bs, isBlank b = true) (hbs' : ∀ b ∈ bs', isBlank b = true) (hname : IsNameText name)
    (hrest : ∃ c ∈ rest, isBlank c = false) (hline : '\n' ∉ rest) :
    definition? text = some ⟨String.ofList name, String.ofList (strip rest)⟩ := by
  obtain ⟨hstart, htake, hdrop, hsign⟩ := spans_of_definition hbs hbs' hname rest
  have hcheck : ((name.head?.map isNameStart).getD false && !(strip rest).isEmpty &&
      !(strip rest).contains '\n') = true := by
    obtain ⟨d, tail, hd, -, rfl⟩ := hname
    have hbreak : '\n' ∉ strip rest := fun hbreak => hline (mem_of_mem_strip hbreak)
    simp [hd, strip_ne_nil hrest, hbreak]
  unfold definition?
  rw [htext, hstart]
  dsimp only
  rw [htake, hdrop, hsign]
  exact if_pos hcheck

theorem exists_of_definition? {d : Definition} (h : definition? text = some d) :
    ∃ bs bs' rest, (trimEquals text).toList = bs ++ (d.name.toList ++ bs') ++ '=' :: rest ∧
      (∀ b ∈ bs, isBlank b = true) ∧ (∀ b ∈ bs', isBlank b = true) ∧ IsNameText d.name.toList := by
  unfold definition? at h
  dsimp only at h
  generalize hcs : stripLeft (trimEquals text).toList = cs at h
  split at h
  · rename_i behind hbehind
    split at h
    · rename_i hcheck
      obtain rfl := Option.some.inj h
      refine ⟨(trimEquals text).toList.takeWhile isBlank, (cs.dropWhile isNameChar).takeWhile isBlank,
        behind, ?_, fun b hb => List.mem_takeWhile_imp hb, fun b hb => List.mem_takeWhile_imp hb, ?_⟩
      · rw [← hbehind, stripLeft, String.toList_ofList, List.append_assoc, List.append_assoc,
          List.takeWhile_append_dropWhile, List.takeWhile_append_dropWhile, ← hcs, stripLeft,
          List.takeWhile_append_dropWhile]
      · rw [String.toList_ofList]
        have hall : ∀ c ∈ cs.takeWhile isNameChar, isNameChar c = true :=
          fun c hc => List.mem_takeWhile_imp hc
        simp only [Bool.and_eq_true] at hcheck
        generalize cs.takeWhile isNameChar = name at hcheck hall
        cases name with
        | nil => cases hcheck.1.1
        | cons c tail =>
          exact ⟨c, tail, hcheck.1.1, fun d hd => hall d (List.mem_cons_of_mem c hd), rfl⟩
    · cases h
  · cases h

theorem definition?_congr {text' : String} (h : trimEquals text = trimEquals text') :
    definition? text = definition? text' := by
  unfold definition?
  rw [h]

theorem lineKind_eq_definition_iff :
    lineKind text = .definition ↔ (definition? (trimEquals text)).isSome = true := by
  unfold lineKind
  dsimp only
  split
  · rename_i h
    exact iff_of_true rfl h
  · rename_i h
    split
    · exact iff_of_false nofun h
    · exact iff_of_false nofun h

theorem eq_space_of_mem_singleSpaces (h : c ∈ singleSpaces cs) (hc : isBlank c = true) : c = ' ' := by
  fun_induction singleSpaces cs with
  | case1 => cases h
  | case2 d cs _ _ ih => exact ih h
  | case3 d cs _ _ ih => exact (List.mem_cons.1 h).elim id ih
  | case4 d cs hd ih =>
    rcases List.mem_cons.1 h with rfl | h
    · exact absurd hc hd
    · exact ih h

theorem newline_not_mem_normalize (text : String) : '\n' ∉ (normalize text).toList := by
  rw [toList_normalize]
  intro hbreak
  have hspace := eq_space_of_mem_singleSpaces (mem_of_mem_strip hbreak) (by decide)
  exact absurd hspace (by decide)

end

section
variable {text : String} {s : Statement} {tier : Tier}

theorem trimEquals_of_readLine (h : readLine text = .ok (s, tier)) :
    trimEquals (trimEquals (normalize text)) = trimEquals (normalize text) := by
  have hread := isReadFrom_of_readLine h
  rw [preparedText_of_endsOpenly (endsOpenly_of_readLine h)] at hread
  refine trimEquals_of_ne ?_
  rw [stripRight_of_getLast? (getLast?_trimEquals (getLast?_normalize text))]
  intro hequal
  obtain ⟨front, hfront⟩ := List.getLast?_eq_some_iff.1 hequal
  exact hread.not_concat isSeparator_equal (by decide) hfront

theorem equal_not_mem_head {bs bs' name : List Char} (hbs : ∀ b ∈ bs, isBlank b = true)
    (hbs' : ∀ b ∈ bs', isBlank b = true) (hname : IsNameText name) : '=' ∉ bs ++ (name ++ bs') := by
  intro hequal
  rw [List.mem_append, List.mem_append] at hequal
  rcases hequal with hequal | hequal | hequal
  · exact absurd (hbs '=' hequal) (by decide)
  · exact absurd (isNameChar_of_isNameText hname '=' hequal) (by decide)
  · exact absurd (hbs' _ hequal) (by decide)

theorem takeWhile_ne_append {head rest : List Char} (h : '=' ∉ head) :
    (head ++ '=' :: rest).takeWhile (· ≠ '=') = head := by
  have hhead : ∀ c ∈ head, decide (c ≠ '=') = true :=
    fun c hc => decide_eq_true (ne_of_mem_of_not_mem hc h)
  exact (span_append hhead fun c hc => by simp [← Option.some.inj hc]).1

theorem name_of_head {bs bs' bs₁ bs₁' name name₁ : List Char} (hbs : ∀ b ∈ bs, isBlank b = true)
    (hbs' : ∀ b ∈ bs', isBlank b = true) (hname : IsNameText name)
    (hbs₁ : ∀ b ∈ bs₁, isBlank b = true) (hbs₁' : ∀ b ∈ bs₁', isBlank b = true)
    (hname₁ : IsNameText name₁) (h : bs ++ (name ++ bs') = bs₁ ++ (name₁ ++ bs₁')) :
    name = name₁ := by
  obtain ⟨hstart, htake, -⟩ := spans_of_definition hbs hbs' hname []
  obtain ⟨hstart₁, htake₁, -⟩ := spans_of_definition hbs₁ hbs₁' hname₁ []
  rw [← htake, ← hstart, h, hstart₁, htake₁]

/-- Where a head has no repeats, it is that of the statement. -/
theorem Statement.IsReadFrom.head {head rest : List Char} (h : s.IsReadFrom (foldRepeats text))
    (htext : text.toList = head ++ '=' :: rest) (hhead : '=' ∉ head)
    (hplain : foldRepeats (String.ofList head) = String.ofList head) :
    ∃ bs bs' n, s.target = some n ∧ head = bs ++ (n.toList ++ bs') ∧ (∀ b ∈ bs, isBlank b = true) ∧
      (∀ b ∈ bs', isBlank b = true) ∧ IsNameText n.toList ∧ ∃ c ∈ rest, isBlank c = false := by
  have hfold : (foldRepeats text).toList =
      head ++ '=' :: (foldRepeats (String.ofList rest)).toList := by
    rw [foldRepeats_append_cons isSeparator_equal htext, hplain, String.toList_ofList]
  rcases h.begins with ⟨-, hnone⟩ | ⟨n, htarget, hdefinition⟩
  · exact absurd (by rw [hfold]; simp) hnone
  · rw [hfold] at hdefinition
    generalize hcs : head ++ '=' :: (foldRepeats (String.ofList rest)).toList = cs at hdefinition
    cases hdefinition with
    | @mk bs bs' behind _ hbs hbs' hname hvisible hsign =>
      obtain ⟨rfl, -, rfl⟩ := (List.append_cons_inj_of_notMem
        (equal_not_mem_head hbs hbs' hname) hsign).1 hcs.symm
      refine ⟨bs, bs', n, htarget, rfl, hbs, hbs', hname, ?_⟩
      by_contra hblank
      have hrest : ∀ b ∈ rest, isBlank b = true := by simpa using hblank
      have hempty : (String.ofList rest).toList = rest ++ ([] ++ []) := by simp
      have hsame := foldRepeats_word hrest (by simp) (by simp) hempty
      rw [hsame, String.toList_ofList] at hvisible
      exact hblank hvisible

/-- A definition by its look is the statement that defines its name, and its head is one word. -/
theorem Statement.IsReadFrom.of_definition? {d : Definition} (h : s.IsReadFrom (foldRepeats text))
    (htrim : trimEquals text = text) (hd : definition? text = some d) :
    s.target = some d.name ∧ foldRepeats (String.ofList (text.toList.takeWhile (· ≠ '='))) =
      String.ofList (text.toList.takeWhile (· ≠ '=')) := by
  obtain ⟨bs, bs', rest, htext, hbs, hbs', hname⟩ := exists_of_definition? hd
  rw [htrim] at htext
  have hnot := equal_not_mem_head hbs hbs' hname
  have hplain : foldRepeats (String.ofList (bs ++ (d.name.toList ++ bs'))) =
      String.ofList (bs ++ (d.name.toList ++ bs')) :=
    foldRepeats_word hbs hbs' (isNameChar_of_isNameText hname) (String.toList_ofList ..)
  obtain ⟨bs₁, bs₁', n, htarget, hsplit, hbs₁, hbs₁', hn, -⟩ := h.head htext hnot hplain
  have hsame : d.name = n := by
    rw [← String.toList_inj]
    exact name_of_head hbs hbs' hname hbs₁ hbs₁' hn hsplit
  rw [htext, takeWhile_ne_append hnot]
  exact ⟨hsame ▸ htarget, hplain⟩

/-- A statement that defines a name looks like a definition where its head has no repeats. -/
theorem Statement.IsReadFrom.isSome_definition? (h : s.IsReadFrom (foldRepeats text))
    (htrim : trimEquals text = text) (hline : '\n' ∉ text.toList) (hsome : s.target.isSome = true)
    (hplain : foldRepeats (String.ofList (text.toList.takeWhile (· ≠ '='))) =
      String.ofList (text.toList.takeWhile (· ≠ '='))) : (definition? text).isSome = true := by
  by_cases hsign : '=' ∈ text.toList
  · obtain ⟨head, rest, htext, hnot⟩ := List.eq_append_cons_of_mem hsign
    rw [htext, takeWhile_ne_append hnot] at hplain
    obtain ⟨bs, bs', n, -, rfl, hbs, hbs', hname, hrest⟩ := h.head htext hnot hplain
    have hbreak : '\n' ∉ rest := fun hbreak => hline (by rw [htext]; simp [hbreak])
    rw [definition?_eq_some (htrim.symm ▸ htext) hbs hbs' hname hrest hbreak]
    rfl
  · have hall : text.toList.takeWhile (· ≠ '=') = text.toList :=
      List.takeWhile_eq_self_iff.2 fun c hc => decide_eq_true (ne_of_mem_of_not_mem hc hsign)
    rw [hall, String.ofList_toList] at hplain
    rw [hplain] at h
    rcases h.begins with ⟨hnone, -⟩ | ⟨n, -, hdefinition⟩
    · rw [hnone] at hsome
      cases hsome
    · exact absurd hdefinition.mem hsign

/-- A line that can be read looks like a definition exactly if its statement defines a name and its
head has no repeats, and then it looks like the definition of that name. -/
theorem kind_of_readLine (h : readLine text = .ok (s, tier)) :
    (lineKind (normalize text) = .definition ↔ s.target.isSome = true ∧ HasPlainHead text) ∧
      (lineKind (normalize text) = .definition →
        (definition? (normalize text)).map Definition.name = s.target) := by
  have hread := isReadFrom_of_readLine h
  have htrim := trimEquals_of_readLine h
  have hline : '\n' ∉ (trimEquals (normalize text)).toList :=
    fun hbreak => newline_not_mem_normalize text (mem_of_mem_trimEquals hbreak)
  rw [preparedText_of_endsOpenly (endsOpenly_of_readLine h)] at hread
  rw [lineKind_eq_definition_iff, ← definition?_congr htrim, HasPlainHead, lineHead]
  refine ⟨⟨fun hsome => ?_, fun ⟨hsome, hplain⟩ => ?_⟩, fun hsome => ?_⟩
  · obtain ⟨d, hd⟩ := Option.isSome_iff_exists.1 hsome
    obtain ⟨htarget, hplain⟩ := hread.of_definition? htrim hd
    exact ⟨Option.isSome_iff_exists.2 ⟨_, htarget⟩, hplain⟩
  · exact hread.isSome_definition? htrim hline hsome hplain
  · obtain ⟨d, hd⟩ := Option.isSome_iff_exists.1 hsome
    rw [hd, (hread.of_definition? htrim hd).1]
    rfl

end

end UnitSheet
