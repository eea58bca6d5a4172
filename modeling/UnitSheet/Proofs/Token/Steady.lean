import UnitSheet.Proofs.Text.Classes
import UnitSheet.Proofs.Token.Words

set_option autoImplicit false

namespace UnitSheet

/-- The second text goes along the first one up to its own end or up to a blank. -/
inductive Follows : List Char → List Char → Prop
  | done (cs : List Char) : Follows cs []
  | blank {c : Char} (h : isBlank c = true) (cs ds : List Char) : Follows cs (c :: ds)
  | step (c : Char) {cs ds : List Char} : Follows cs ds → Follows (c :: cs) (c :: ds)

namespace Follows
variable {cs ds front : List Char}

theorem append (front : List Char) (h : Follows cs ds) : Follows (front ++ cs) (front ++ ds) := by
  induction front with
  | nil => exact h
  | cons c front ih => exact .step c ih

theorem exists_append (hfront : ∀ c ∈ front, isBlank c = false) (h : Follows cs (front ++ ds)) :
    ∃ rest, cs = front ++ rest ∧ Follows rest ds := by
  induction front generalizing cs with
  | nil => exact ⟨cs, rfl, h⟩
  | cons c front ih =>
    cases h with
    | blank hblank =>
      rw [hfront c List.mem_cons_self] at hblank
      cases hblank
    | step _ h =>
      obtain ⟨rest, rfl, hrest⟩ := ih (fun d hd => hfront d (List.mem_cons_of_mem c hd)) h
      exact ⟨rest, rfl, hrest⟩

theorem head {p : Char → Bool} (h : Follows cs ds) (hblank : ∀ c, isBlank c = true → p c = false)
    (hcs : ∀ c ∈ cs.head?, p c = false) : ∀ c ∈ ds.head?, p c = false := by
  intro c hc
  cases h with
  | done => cases hc
  | blank hb => exact hblank c (Option.some.inj hc ▸ hb)
  | step d => exact hcs c hc

end Follows

namespace Scan

/-- What the scanner finds stays the same where the rest is followed. -/
def IsSteady (scan : List Char → List Char × List Char) : Prop :=
  ∀ cs ds, Follows (scan cs).2 ds → scan ((scan cs).1 ++ ds) = ((scan cs).1, ds)

section
variable {scan : List Char → List Char × List Char} {cs ds front rest : List Char}

theorem IsSteady.eq (h : IsSteady scan) (hscan : scan cs = (front, rest))
    (hfollow : Follows rest ds) : scan (front ++ ds) = (front, ds) := by
  have hs := h cs ds
  rw [hscan] at hs
  exact hs hfollow

theorem head?_dropWhile {p : Char → Bool} : ∀ c ∈ (cs.dropWhile p).head?, p c = false := by
  intro c hc
  have h := List.head?_dropWhile_not p cs
  rw [Option.mem_def.1 hc] at h
  exact h

theorem isSteady_run {p : Char → Bool} (h : ∀ c, isBlank c = true → p c = false) :
    IsSteady (run p) := fun _ _ hfollow =>
  UnitSheet.run_append (fun _ hc => List.mem_takeWhile_imp hc) (hfollow.head h head?_dropWhile)

theorem isSteady_digits : IsSteady digits := isSteady_run fun _ => isDecimalDigit_of_isBlank

theorem isSteady_letters : IsSteady letters := isSteady_run fun _ => isAlpha_of_isBlank

theorem groups_cases (cs : List Char) : groups cs = ([], cs) ∨ ∃ a b c rest,
    (isDecimalDigit a && isDecimalDigit b && isDecimalDigit c) = true ∧
      cs = ',' :: a :: b :: c :: rest := by
  unfold groups
  split
  · rename_i a b c rest
    split
    · rename_i h
      exact .inr ⟨a, b, c, rest, h, rfl⟩
    · exact .inl rfl
  · exact .inl rfl

theorem groups_of_follows (h : groups cs = ([], cs)) (hfollow : Follows cs ds) :
    groups ds = ([], ds) := by
  rcases groups_cases ds with hds | ⟨a, b, c, rest, hdigits, rfl⟩
  · exact hds
  · have hvisible : ∀ d ∈ [',', a, b, c], isBlank d = false := by
      simp only [Bool.and_eq_true] at hdigits
      obtain ⟨⟨ha, hb⟩, hc⟩ := hdigits
      simp only [List.mem_cons, List.not_mem_nil, or_false]
      rintro d (rfl | rfl | rfl | rfl)
      · decide
      · exact isBlank_of_isDecimalDigit ha
      · exact isBlank_of_isDecimalDigit hb
      · exact isBlank_of_isDecimalDigit hc
    rw [(rfl : ',' :: a :: b :: c :: rest = [',', a, b, c] ++ rest)] at hfollow
    obtain ⟨more, rfl, -⟩ := hfollow.exists_append hvisible
    rw [List.cons_append, List.cons_append, List.cons_append, List.cons_append, groups,
      if_pos hdigits] at h
    cases h

theorem isSteady_groups : IsSteady groups := by
  intro cs ds hfollow
  fun_induction groups cs with
  | case1 a b c rest hdigits ih =>
    dsimp only [List.cons_append]
    rw [groups, if_pos hdigits, ih hfollow]
  | case2 a b c rest hdigits =>
    refine groups_of_follows ?_ hfollow
    rw [groups, if_neg hdigits]
  | case3 cs hcs =>
    rcases groups_cases cs with h | ⟨a, b, c, rest, -, rfl⟩
    · exact groups_of_follows h hfollow
    · exact (hcs _ _ _ _ rfl).elim

theorem first_of_andThen {first : List Char → List Char × List Char} (cs : List Char)
    (next : List Char → List Char × List Char) (hfirst : IsSteady first)
    (happend : ∀ rest, (next rest).1 ++ (next rest).2 = rest)
    (hfollow : Follows (andThen (first cs) next).2 ds) :
    first ((andThen (first cs) next).1 ++ ds) =
      ((first cs).1, (next (first cs).2).1 ++ ds) := by
  have hrest := hfollow.append (next (first cs).2).1
  dsimp only [andThen] at hrest ⊢
  rw [happend] at hrest
  rw [List.append_assoc, hfirst cs _ hrest]

/-- Two scanners in a row, where the second one may depend on what the first one finds. -/
theorem isSteady_andThen {first : List Char → List Char × List Char}
    (next : List Char → List Char → List Char × List Char) (hfirst : IsSteady first)
    (hnext : ∀ found, IsSteady (next found))
    (happend : ∀ found rest, (next found rest).1 ++ (next found rest).2 = rest) :
    IsSteady fun cs => andThen (first cs) (next (first cs).1) := by
  intro cs ds hfollow
  dsimp only at hfollow ⊢
  rw [first_of_andThen _ _ hfirst (happend _) hfollow]
  dsimp only [andThen] at hfollow ⊢
  rw [hnext _ _ ds hfollow]

theorem isSteady_skip : IsSteady fun cs => ([], cs) := fun _ _ _ => rfl

theorem isSteady_whole : IsSteady whole := by
  refine isSteady_andThen (fun found rest =>
    if 1 ≤ found.length ∧ found.length ≤ 3 then groups rest else ([], rest))
    isSteady_digits (fun found => ?_) fun found rest => ?_
  · split
    · exact isSteady_groups
    · exact isSteady_skip
  · split
    · exact groups_append rest
    · rfl

def marked (isMark : Char → Bool) (lead body : List Char → List Char × List Char) :
    List Char → List Char × List Char
  | [] => ([], [])
  | mark :: rest =>
    if isMark mark then
      optional (mark :: (lead rest).1) (mark :: rest) (body (lead rest).2)
    else ([], mark :: rest)

structure IsLead (lead : List Char → List Char × List Char) : Prop where
  steady : IsSteady lead
  follows : ∀ cs ds, Follows cs ds → Follows (lead cs).2 (lead ds).2
  append : ∀ cs, (lead cs).1 ++ (lead cs).2 = cs

theorem marked_of_head {isMark : Char → Bool} {lead body : List Char → List Char × List Char}
    (h : ∀ c ∈ cs.head?, isMark c = false) : marked isMark lead body cs = ([], cs) := by
  cases cs with
  | nil => rfl
  | cons c cs => rw [marked, h c rfl, if_neg Bool.false_ne_true]

theorem isSteady_marked {isMark : Char → Bool} {lead body : List Char → List Char × List Char}
    (hmark : ∀ c, isBlank c = true → isMark c = false) (hlead : IsLead lead)
    (hbody : IsSteady body) (happend : ∀ cs, (body cs).1 ++ (body cs).2 = cs) :
    IsSteady (marked isMark lead body) := by
  intro cs ds hfollow
  cases cs with
  | nil => exact marked_of_head (hfollow.head hmark (by simp [marked]))
  | cons mark rest =>
    cases hm : isMark mark with
    | false =>
      have hscan : marked isMark lead body (mark :: rest) = ([], mark :: rest) :=
        marked_of_head fun c hc => Option.some.inj hc ▸ hm
      rw [hscan] at hfollow ⊢
      exact marked_of_head (hfollow.head hmark fun c hc => Option.some.inj hc ▸ hm)
    | true =>
      have hscan : marked isMark lead body (mark :: rest) =
          optional (mark :: (lead rest).1) (mark :: rest) (body (lead rest).2) := by
        rw [marked, hm, if_pos rfl]
      rw [hscan] at hfollow ⊢
      cases hempty : (body (lead rest).2).1.isEmpty with
      | true =>
        have hnone := List.isEmpty_iff.1 hempty
        rw [optional, hempty, if_pos rfl] at hfollow ⊢
        rw [List.nil_append]
        cases hfollow with
        | done => rfl
        | blank hblank => exact marked_of_head fun c hc => Option.some.inj hc ▸ hmark _ hblank
        | @step _ _ ds hrest =>
          -- What follows the mark may end within the lead; then there is no body either.
          have hbodyds : body (lead ds).2 = ([], (lead ds).2) := by
            have hall := happend (lead rest).2
            rw [hnone, List.nil_append] at hall
            exact hbody.eq (Prod.ext hnone hall) (hlead.follows rest ds hrest)
          rw [marked, hm, if_pos rfl, hbodyds]
          rfl
      | false =>
        rw [optional, hempty, if_neg Bool.false_ne_true] at hfollow ⊢
        have hrest := hfollow.append (body (lead rest).2).1
        rw [happend] at hrest
        dsimp only [List.cons_append]
        rw [List.append_assoc, marked, hm, if_pos rfl, hlead.steady rest _ hrest]
        dsimp only
        rw [hbody _ ds hfollow, optional, hempty]
        rfl

theorem isLead_skip : IsLead fun cs => ([], cs) :=
  ⟨isSteady_skip, fun _ _ h => h, fun _ => rfl⟩

def single (p : Char → Bool) : List Char → List Char × List Char
  | [] => ([], [])
  | c :: cs => if p c then ([c], cs) else ([], c :: cs)

theorem single_cons (p : Char → Bool) (c : Char) (cs : List Char) :
    single p (c :: cs) = if p c then ([c], cs) else ([], c :: cs) := rfl

theorem single_of_head {p : Char → Bool} (h : ∀ c ∈ cs.head?, p c = false) :
    single p cs = ([], cs) := by
  cases cs with
  | nil => rfl
  | cons c cs => rw [single_cons, h c rfl, if_neg Bool.false_ne_true]

theorem isLead_single {p : Char → Bool} (h : ∀ c, isBlank c = true → p c = false) :
    IsLead (single p) where
  steady := by
    intro cs ds hfollow
    cases cs with
    | nil => exact single_of_head (hfollow.head h (by simp [single]))
    | cons c cs =>
      cases hc : p c with
      | true => simp [single_cons, hc]
      | false =>
        have hscan : single p (c :: cs) = ([], c :: cs) :=
          single_of_head fun d hd => Option.some.inj hd ▸ hc
        rw [hscan] at hfollow ⊢
        exact single_of_head (hfollow.head h fun d hd => Option.some.inj hd ▸ hc)
  follows := by
    intro cs ds hfollow
    cases hfollow with
    | done => exact .done _
    | blank hblank =>
      rw [single_cons p, h _ hblank, if_neg Bool.false_ne_true]
      exact .blank hblank _ _
    | step c hfollow =>
      rw [single_cons, single_cons]
      split
      · exact hfollow
      · exact hfollow.append [c]
  append := by
    intro cs
    unfold single
    split
    · rfl
    · split <;> rfl

theorem sign_eq : sign = single fun c => c == '+' || c == '-' := by
  funext cs
  unfold sign
  split
  · rfl
  · rfl
  · rename_i hplus hminus
    cases cs with
    | nil => rfl
    | cons c cs =>
      have hc : (c == '+' || c == '-') = false := by
        simp only [Bool.or_eq_false_iff, beq_eq_false_iff_ne]
        exact ⟨fun h => hplus cs (by rw [h]), fun h => hminus cs (by rw [h])⟩
      rw [single, hc, if_neg Bool.false_ne_true]

theorem isLead_sign : IsLead sign := by
  rw [sign_eq]
  refine isLead_single fun c h => ?_
  simp [ne_of_isBlank h (d := '+') (by decide), ne_of_isBlank h (d := '-') (by decide)]

theorem isLead_minus : IsLead (single (· == '-')) :=
  isLead_single fun _ h => beq_eq_false_iff_ne.2 (ne_of_isBlank h (by decide))

theorem fraction_eq : fraction = marked (· == '.') (fun cs => ([], cs)) digits := by
  funext cs
  unfold fraction
  split
  · rfl
  · rename_i hpoint
    refine (marked_of_head fun c hc => beq_eq_false_iff_ne.2 ?_).symm
    rintro rfl
    exact hpoint _ (List.eq_cons_of_mem_head? hc)

theorem exponent_eq : exponent = marked (fun c => c == 'e' || c == 'E') sign digits := by
  funext cs
  unfold exponent
  split
  · simp [marked]
  · rfl

theorem power_eq : power = marked (· == '^') (single (· == '-')) digits := by
  funext cs
  unfold power
  split
  · rfl
  · rename_i rest hminus
    have hlead : single (· == '-') rest = ([], rest) := by
      refine single_of_head fun c hc => beq_eq_false_iff_ne.2 ?_
      rintro rfl
      exact hminus _ (by rw [← List.eq_cons_of_mem_head? hc])
    simp [marked, hlead]
  · rename_i hcaret
    refine (marked_of_head fun c hc => beq_eq_false_iff_ne.2 ?_).symm
    rintro rfl
    exact hcaret _ (List.eq_cons_of_mem_head? hc)

theorem isSteady_fraction : IsSteady fraction := by
  rw [fraction_eq]
  exact isSteady_marked (fun _ h => beq_eq_false_iff_ne.2 (ne_of_isBlank h (by decide)))
    isLead_skip isSteady_digits (run_append _)

theorem isSteady_exponent : IsSteady exponent := by
  rw [exponent_eq]
  refine isSteady_marked (fun c h => ?_) isLead_sign isSteady_digits (run_append _)
  simp [ne_of_isBlank h (d := 'e') (by decide), ne_of_isBlank h (d := 'E') (by decide)]

theorem isSteady_power : IsSteady power := by
  rw [power_eq]
  exact isSteady_marked (fun _ h => beq_eq_false_iff_ne.2 (ne_of_isBlank h (by decide)))
    isLead_minus isSteady_digits (run_append _)

theorem secondName_eq : secondName = fun cs =>
    andThen (marked (fun c => c == '/' || c == '·') (fun cs => ([], cs)) letters cs) fun rest =>
      if (marked (fun c => c == '/' || c == '·') (fun cs => ([], cs)) letters cs).1.isEmpty then
        ([], rest)
      else power rest := by
  funext cs
  unfold secondName
  split
  · rename_i mark rest
    split
    · rename_i hmark
      have hm : (mark == '/' || mark == '·') = true := by simpa using hmark
      have hscan : marked (fun c => c == '/' || c == '·') (fun cs => ([], cs)) letters
          (mark :: rest) = optional [mark] (mark :: rest) (letters rest) := by
        rw [marked, hm, if_pos rfl]
      have hempty : (optional [mark] (mark :: rest) (letters rest)).1.isEmpty =
          (letters rest).1.isEmpty := by
        unfold optional
        cases h : (letters rest).1.isEmpty <;> rfl
      rw [hscan, hempty]
    · rename_i hmark
      have hm : (mark == '/' || mark == '·') = false := by simpa using hmark
      rw [marked_of_head fun c hc => Option.some.inj hc ▸ hm]
      rfl
  · rfl

theorem isSteady_secondName : IsSteady secondName := by
  rw [secondName_eq]
  refine isSteady_andThen (fun found rest =>
    if found.isEmpty then ([], rest) else power rest) (isSteady_marked (fun c h => ?_)
      isLead_skip isSteady_letters (run_append _)) (fun found => ?_) fun found rest => ?_
  · simp [ne_of_isBlank h (d := '/') (by decide), ne_of_isBlank h (d := '·') (by decide)]
  · split
    · exact isSteady_skip
    · exact isSteady_power
  · split
    · rfl
    · exact power_append rest

theorem isSteady_body : IsSteady fun cs => andThen (whole cs) fraction :=
  isSteady_andThen (fun _ => fraction) isSteady_whole (fun _ => isSteady_fraction)
    fun _ => fraction_append

theorem number?_of_follows (h : number? cs = some (front, rest)) (hfollow : Follows rest ds) :
    number? (front ++ ds) = some (front, ds) := by
  unfold number? at h
  dsimp only at h
  split at h
  · cases h
  · rename_i hempty
    obtain ⟨rfl, rfl⟩ := Prod.mk.inj (Option.some.inj h)
    have hnumber := isSteady_andThen (fun _ => exponent) isSteady_body
      (fun _ => isSteady_exponent) (fun _ => exponent_append) (sign cs).2 ds hfollow
    have hbody := first_of_andThen _ _ isSteady_body exponent_append hfollow
    have hsign := isLead_sign.steady cs _ (by
      have happend := andThen_append (andThen_append (whole_append (sign cs).2) fraction_append)
        exponent_append
      have hrest := hfollow.append (andThen (andThen (whole (sign cs).2) fraction) exponent).1
      rwa [happend] at hrest)
    dsimp only at hnumber hbody
    rw [List.append_assoc, number?, hsign]
    dsimp only
    rw [hnumber, hbody, if_neg hempty]

theorem number?_eq_none (h : number? cs = none) (hfollow : Follows cs ds) : number? ds = none := by
  unfold number? at h ⊢
  dsimp only at h ⊢
  split at h
  · rename_i hempty
    have hnone := List.isEmpty_iff.1 hempty
    have hall := andThen_append (whole_append (sign cs).2) fraction_append
    rw [hnone, List.nil_append] at hall
    have hbody := isSteady_body.eq (Prod.ext hnone hall) (isLead_sign.follows cs ds hfollow)
    dsimp only [List.nil_append] at hbody
    rw [hbody]
    rfl
  · cases h

theorem isSteady_name : IsSteady fun cs => andThen (letters cs) power :=
  isSteady_andThen (fun _ => power) isSteady_letters (fun _ => isSteady_power)
    fun _ => power_append

theorem unit?_of_follows (h : unit? cs = some (front, rest)) (hfollow : Follows rest ds) :
    unit? (front ++ ds) = some (front, ds) := by
  unfold unit? at h
  split at h
  · cases h
  · rename_i hempty
    have hscan := Option.some.inj h
    obtain rfl : (andThen (andThen (letters cs) power) secondName).1 = front :=
      congrArg Prod.fst hscan
    obtain rfl : (andThen (andThen (letters cs) power) secondName).2 = rest :=
      congrArg Prod.snd hscan
    have hunit := isSteady_andThen (fun _ => secondName) isSteady_name
      (fun _ => isSteady_secondName) (fun _ => secondName_append) cs ds hfollow
    have hletters : (letters ((andThen (andThen (letters cs) power) secondName).1 ++ ds)).1 =
        (letters cs).1 := by
      have hrest := hfollow.append (secondName (andThen (letters cs) power).2).1
      have hname := first_of_andThen cs power isSteady_letters power_append
        (secondName_append (andThen (letters cs) power).2 ▸ hrest)
      rw [andThen, List.append_assoc, hname]
    dsimp only at hunit
    rw [unit?, hletters, if_neg hempty, hunit]

theorem unit?_eq_none (h : unit? cs = none) (hfollow : Follows cs ds) : unit? ds = none := by
  have hnone : (letters cs).1 = [] := by
    unfold unit? at h
    split at h
    · exact List.isEmpty_iff.1 ‹_›
    · cases h
  have hall := run_append Char.isAlpha cs
  rw [← letters, hnone, List.nil_append] at hall
  have hletters := isSteady_letters.eq (Prod.ext hnone hall) hfollow
  rw [List.nil_append] at hletters
  rw [unit?, hletters]
  rfl

theorem cell?_of_follows (h : cell? cs = some (front, rest)) (hfollow : Follows rest ds) :
    cell? (front ++ ds) = some (front, ds) := by
  unfold cell? at h
  dsimp only at h
  split at h
  · cases h
  · rename_i hempty
    have hscan := Option.some.inj h
    obtain rfl : (letters cs).1 ++ (digits (letters cs).2).1 = front := congrArg Prod.fst hscan
    obtain rfl : (digits (letters cs).2).2 = rest := congrArg Prod.snd hscan
    have hletters : letters ((letters cs).1 ++ (digits (letters cs).2).1 ++ ds) =
        ((letters cs).1, (digits (letters cs).2).1 ++ ds) :=
      first_of_andThen cs digits isSteady_letters (run_append isDecimalDigit) hfollow
    have hdigits := isSteady_digits (letters cs).2 ds hfollow
    rw [cell?, hletters]
    dsimp only
    rw [hdigits, if_neg hempty]

theorem cell?_eq_none (h : cell? cs = none) (hfollow : Follows cs ds) : cell? ds = none := by
  cases hds : cell? ds with
  | none => rfl
  | some found =>
    obtain ⟨front, rest⟩ := found
    obtain ⟨rfl, -⟩ := cell?_append hds
    obtain ⟨name, number, hname, hne, hnumber, rfl⟩ := isCellText_of_cell? hds
    have hvisible : ∀ c ∈ name ++ number, isBlank c = false := by
      intro c hc
      rcases List.mem_append.1 hc with hc | hc
      · exact isBlank_of_isAlpha (hname.2 c hc)
      · exact isBlank_of_isDecimalDigit (hnumber c hc)
    obtain ⟨more, rfl, -⟩ := hfollow.exists_append hvisible
    obtain ⟨d, number, rfl⟩ := List.exists_cons_of_ne_nil hne
    have hd := hnumber d List.mem_cons_self
    have hletters : letters (name ++ (d :: number ++ more)) = (name, d :: number ++ more) := by
      refine UnitSheet.run_append hname.2 fun c hc => ?_
      obtain rfl := Option.some.inj hc
      rw [← Bool.not_eq_true]
      intro halpha
      rw [isDecimalDigit_of_isAlpha halpha] at hd
      cases hd
    have hname' : name.isEmpty = false := by simpa using hname.1
    rw [List.append_assoc, cell?, hletters] at h
    simp [hname', digits, run, hd] at h

end

end Scan

section
variable {previous : Option TokenKind} {cs ds rest : List Char}

theorem numberAt?_of_follows {lexeme : List Char} (h : numberAt? previous cs = some (lexeme, rest))
    (hfollow : Follows rest ds) : numberAt? previous (lexeme ++ ds) = some (lexeme, ds) := by
  obtain ⟨hcs, hne⟩ := numberAt?_append h
  obtain ⟨c, tail, rfl⟩ := List.exists_cons_of_ne_nil hne
  subst hcs
  simp only [List.cons_append, numberAt?] at h ⊢
  split at h
  · rename_i hstart
    have hnumber := Scan.number?_of_follows h hfollow
    rw [List.cons_append] at hnumber
    rw [if_pos hstart, hnumber]
  · cases h

theorem numberAt?_eq_none {c : Char} (h : numberAt? previous (c :: cs) = none)
    (hfollow : Follows cs ds) : numberAt? previous (c :: ds) = none := by
  simp only [numberAt?] at h ⊢
  split at h
  · rename_i hstart
    rw [if_pos hstart]
    exact Scan.number?_eq_none h (hfollow.step c)
  · rename_i hstart
    exact if_neg hstart

theorem isNameChar_of_isBlank {c : Char} (h : isBlank c = true) : isNameChar c = false := by
  simp [isNameChar, isNameStart, isAlpha_of_isBlank h, ne_of_isBlank h (d := '_') (by decide),
    ne_of_isBlank h (d := '\'') (by decide)]

theorem wordAt?_of_follows {p : Piece} (h : wordAt? cs = some (p, rest)) (hfollow : Follows rest ds) :
    wordAt? (p.chars ++ ds) = some (p, ds) := by
  obtain ⟨hcs, hne⟩ := wordAt?_append h
  obtain ⟨c, tail, hchars⟩ := List.exists_cons_of_ne_nil hne
  rw [hchars] at hcs ⊢
  subst hcs
  simp only [List.cons_append, wordAt?] at h ⊢
  split at h
  · rename_i label more hcell
    obtain ⟨rfl, rfl⟩ := Prod.mk.inj (Option.some.inj h)
    have hlabel : label = c :: tail := hchars
    subst hlabel
    rw [← List.cons_append, Scan.cell?_of_follows hcell hfollow]
  · rename_i hcell
    rw [Scan.cell?_eq_none hcell ((hfollow.append tail).step c)]
    split at h
    · rename_i hstart
      obtain ⟨rfl, hrest⟩ := Prod.mk.inj (Option.some.inj h)
      have hfound := (List.cons.inj hchars).2
      have hrun := (Scan.isSteady_run fun _ => isNameChar_of_isBlank).eq
        (Prod.ext hfound hrest) hfollow
      have hname : Scan.run (fun d => d.isAlpha || d == '_' || d == '\'') (tail ++ ds) =
          (tail, ds) := hrun
      rw [hfound, if_pos hstart, hname]
    · cases h

end

end UnitSheet
