import UnitSheet.Proofs.Unit.Exponents
import UnitSheet.Unit.Resolve

set_option autoImplicit false

namespace UnitSheet

section
variable {label : String} {ps : List UnitPower}

theorem ofLabel?_eq (label : String) : UnitExponents.ofLabel? label =
    (labelPowers? label).map fun ps => (UnitExponents.addAll .empty ps).nonzero := by
  have hfold : ∀ (parts : List (List Char × Int)) (m : UnitExponents),
      parts.foldlM (fun m part =>
        (UnitPower.ofChars? part.1).map fun u => UnitExponents.add m u.name (u.power * part.2)) m =
      (parts.mapM UnitPower.ofPart?).map m.addAll := by
    intro parts
    induction parts with
    | nil => exact fun m => rfl
    | cons part parts ih =>
      intro m
      rw [List.foldlM_cons, List.mapM_cons, UnitPower.ofPart?]
      cases UnitPower.ofChars? part.1 with
      | none => rfl
      | some u =>
        change parts.foldlM _ (UnitExponents.add m u.name (u.power * part.2)) = _
        rw [ih]
        cases parts.mapM UnitPower.ofPart? <;> rfl
  unfold UnitExponents.ofLabel? labelPowers?
  dsimp only
  rw [hfold, Option.map_map]
  rfl

/-- The exponents of a label with registered names have the dimensions of its powers. -/
theorem exact_of_ofLabel? {m : UnitExponents} (hps : labelPowers? label = some ps)
    (hknown : ArePowersKnown ps) (h : UnitExponents.ofLabel? label = some m) :
    m.AreKnown ∧ m.exact = powersExact ps := by
  rw [ofLabel?_eq, hps] at h
  obtain rfl := Option.some.inj h
  have hempty : UnitExponents.AreKnown .empty := fun e he => absurd he List.not_mem_nil
  refine ⟨UnitExponents.areKnown_nonzero (UnitExponents.areKnown_addAll hempty hknown), ?_⟩
  rw [UnitExponents.exact_nonzero, UnitExponents.exact_addAll]
  exact zero_add _

theorem applyPart_eq_ok {unit unit' : UnitDef} {part : List Char × Int}
    (h : applyPart label unit part = .ok unit') : ∃ p, UnitPower.ofPart? part = some p ∧
      isUnitName p.name = true ∧
        unit'.dims = unit.dims + Dims.ofExact (p.power • unitExact p.name) := by
  unfold applyPart at h
  split at h
  · cases h
  · rename_i u hu
    split at h
    · cases h
    · rename_i base hbase
      split at h
      · cases h
      · split at h
        · cases h
        · rename_i dims hdims
          obtain rfl := Except.ok.inj h
          refine ⟨⟨u.name, u.power * part.2⟩, by rw [UnitPower.ofPart?, hu]; rfl,
            by rw [isUnitName, hbase]; rfl, ?_⟩
          rw [Dims.scale?_eq_some hdims, unitExact_of_unitDef? hbase]

theorem foldlM_applyPart_eq_ok {parts : List (List Char × Int)} {unit unit' : UnitDef}
    (h : parts.foldlM (applyPart label) unit = .ok unit') :
    ∃ ps, parts.mapM UnitPower.ofPart? = some ps ∧ ArePowersKnown ps ∧
      unit'.dims = unit.dims + Dims.ofExact (powersExact ps) := by
  induction parts generalizing unit with
  | nil =>
    obtain rfl := Except.ok.inj h
    refine ⟨[], rfl, fun p hp => absurd hp List.not_mem_nil, ?_⟩
    rw [← Dims.ofExact_exact unit.dims, ← Dims.ofExact_add]
    exact congrArg Dims.ofExact (add_zero _).symm
  | cons part parts ih =>
    rw [List.foldlM_cons] at h
    cases hpart : applyPart label unit part with
    | error f =>
      rw [hpart] at h
      cases h
    | ok next =>
      rw [hpart] at h
      obtain ⟨p, hp, hname, hnext⟩ := applyPart_eq_ok hpart
      obtain ⟨ps, hps, hknown, hdims⟩ := ih h
      refine ⟨p :: ps, ?_, ?_, ?_⟩
      · rw [List.mapM_cons, hp, hps]
        rfl
      · intro q hq
        rcases List.mem_cons.1 hq with rfl | hq
        · exact hname
        · exact hknown q hq
      · rw [hdims, hnext, powersExact_cons, ← Dims.ofExact_exact unit.dims]
        simp only [← Dims.ofExact_add, add_assoc]

theorem labelPowers?_of_isUnitWord (h : IsUnitWord label) :
    labelPowers? label = some [⟨label, 1⟩] := by
  have hfactor : IsFactorText label := UnitExponents.isFactorText_powerText h 1
  have hbar : '/' ∉ label.toList := fun hmem => absurd (hfactor.1 _ hmem).1 (by decide)
  have hparts : productParts label.toList = [label.toList] := by
    have hone : ∀ t ∈ [label], IsFactorText t := fun t ht => by
      rw [List.mem_singleton.1 ht]
      exact hfactor
    have hproduct := productParts_intercalate hone
    rwa [String.intercalate_singleton] at hproduct
  have hread : UnitPower.ofChars? label.toList = some ⟨label, 1⟩ :=
    UnitExponents.ofChars?_powerText h 1
  rw [labelPowers?, labelParts_plain hbar, hparts]
  change [(label.toList, (1 : Int))].mapM UnitPower.ofPart? = _
  rw [List.mapM_cons, UnitPower.ofPart?, hread]
  rfl

/-- The unit of a label has the dimensions of the powers that the label writes, brought through
words and doubles. -/
theorem dims_of_resolveUnit {u : UnitDef} (h : resolveUnit label = .ok u) :
    ∃ ps, labelPowers? label = some ps ∧ ArePowersKnown ps ∧
      u.dims = (Dims.ofExact (powersExact ps)).settle := by
  unfold resolveUnit at h
  split at h
  · rename_i unit hunit
    obtain rfl := Except.ok.inj h
    have hname : isUnitName label = true := by
      rw [isUnitName, hunit]
      rfl
    refine ⟨_, labelPowers?_of_isUnitWord (isUnitWord_of_isUnitName hname), ?_, ?_⟩
    · intro p hp
      rw [List.mem_singleton.1 hp]
      exact hname
    · have hpower : powersExact [⟨label, 1⟩] = unitExact label := by
        rw [powersExact_cons]
        change (1 : Int) • _ + (0 : Base → Int) = _
        rw [one_smul, add_zero]
      rw [hpower, Dims.settle_ofExact (fits_unitExact label), unitExact_of_unitDef? hunit,
        Dims.ofExact_exact]
  · split at h
    · cases h
    · split at h
      · cases h
      · rename_i unit hfold
        obtain rfl := Except.ok.inj h
        obtain ⟨ps, hps, hknown, hdims⟩ := foldlM_applyPart_eq_ok hfold
        refine ⟨ps, hps, hknown, ?_⟩
        have hzero : Dims.zero + Dims.ofExact (powersExact ps) = Dims.ofExact (powersExact ps) := by
          rw [← Dims.ofExact_exact .zero, Dims.exact_zero, ← Dims.ofExact_add, zero_add]
        change unit.dims.settle = _
        rw [hdims]
        exact congrArg Dims.settle hzero

theorem resolveUnit_eq_ok {u : UnitDef} (h : resolveUnit label = .ok u) :
    ∃ ps, labelPowers? label = some ps ∧ ArePowersKnown ps ∧
      (Fits (powersExact ps) → u.dims.exact = powersExact ps) := by
  obtain ⟨ps, hps, hknown, hdims⟩ := dims_of_resolveUnit h
  exact ⟨ps, hps, hknown, fun hfits => hdims ▸ Dims.exact_settle hfits⟩

theorem slash_not_mem_of_ofChars? {cs : List Char} {u : UnitPower}
    (h : UnitPower.ofChars? cs = some u) : '/' ∉ cs := by
  have hnumeral : ∀ ds : List Char, (!ds.isEmpty && ds.all isDecimalDigit) = true → '/' ∉ ds := by
    intro ds hds hmem
    have hslash := List.all_eq_true.1 (Bool.and_eq_true_iff.1 hds).2 _ hmem
    exact absurd hslash (by decide +kernel)
  have htail : '/' ∉ cs.dropWhile isAsciiLetter := by
    unfold UnitPower.ofChars? at h
    dsimp only at h
    split at h
    · cases h
    · split at h
      · rename_i hnil
        rw [hnil]
        exact List.not_mem_nil
      · rename_i ds hcons
        split at h
        · rename_i hds
          rw [hcons]
          simpa using hnumeral ds hds
        · cases h
      · rename_i ds _ hcons
        split at h
        · rename_i hds
          rw [hcons]
          simpa using hnumeral ds hds
        · cases h
      · cases h
  intro hmem
  rw [← List.takeWhile_append_dropWhile (p := isAsciiLetter) (l := cs)] at hmem
  rcases List.mem_append.1 hmem with hmem | hmem
  · exact absurd (List.mem_takeWhile_imp hmem) (by decide)
  · exact htail hmem

theorem mem_splitAtBreaks {isBreak : Char → Bool} {c : Char} {cs : List Char} (hc : c ∈ cs)
    (hbreak : isBreak c = false) : ∃ piece ∈ splitAtBreaks isBreak cs, c ∈ piece := by
  induction cs with
  | nil => exact absurd hc List.not_mem_nil
  | cons d cs ih =>
    rw [splitAtBreaks]
    rcases List.mem_cons.1 hc with rfl | hc
    · rw [if_neg (by simp [hbreak])]
      split
      · exact ⟨_, List.mem_cons_self, List.mem_cons_self⟩
      · exact ⟨_, List.mem_cons_self, List.mem_cons_self⟩
    · obtain ⟨piece, hpiece, hmem⟩ := ih hc
      split
      · exact ⟨piece, List.mem_cons_of_mem _ hpiece, hmem⟩
      · split
        · rename_i first rest hsplit
          rw [hsplit] at hpiece
          rcases List.mem_cons.1 hpiece with rfl | hpiece
          · exact ⟨_, List.mem_cons_self, List.mem_cons_of_mem d hmem⟩
          · exact ⟨piece, List.mem_cons_of_mem _ hpiece, hmem⟩
        · rename_i hsplit
          rw [hsplit] at hpiece
          exact absurd hpiece List.not_mem_nil

theorem mem_dropWhile {p : Char → Bool} {c : Char} {cs : List Char} (hc : c ∈ cs)
    (hp : p c = false) : c ∈ cs.dropWhile p := by
  rw [← List.takeWhile_append_dropWhile (p := p) (l := cs)] at hc
  rcases List.mem_append.1 hc with hc | hc
  · rw [List.mem_takeWhile_imp hc] at hp
    cases hp
  · exact hc

theorem mem_strip {c : Char} {cs : List Char} (hc : c ∈ cs) (hblank : isBlank c = false) :
    c ∈ strip cs := by
  rw [strip, stripRight, List.mem_reverse]
  exact mem_dropWhile (List.mem_reverse.2 (mem_dropWhile hc hblank)) hblank

theorem mem_of_mapM_ofPart? {parts : List (List Char × Int)}
    (h : parts.mapM UnitPower.ofPart? = some ps) :
    ∀ part ∈ parts, ∃ p ∈ ps, UnitPower.ofPart? part = some p := by
  induction parts generalizing ps with
  | nil => exact fun part hpart => absurd hpart List.not_mem_nil
  | cons first parts ih =>
    rw [List.mapM_cons] at h
    obtain ⟨p, hp, h⟩ := Option.bind_eq_some_iff.1 h
    obtain ⟨qs, hqs, h⟩ := Option.bind_eq_some_iff.1 h
    obtain rfl := Option.some.inj h
    intro part hpart
    rcases List.mem_cons.1 hpart with rfl | hpart
    · exact ⟨p, List.mem_cons_self, hp⟩
    · obtain ⟨q, hq, hread⟩ := ih hqs part hpart
      exact ⟨q, List.mem_cons_of_mem p hq, hread⟩

/-- A label that can be read has one bar at most: a second one would be part of a factor. -/
theorem slash_not_mem_labelDenominator (h : labelPowers? label = some ps) :
    '/' ∉ labelDenominator label := by
  intro hmem
  obtain ⟨piece, hpiece, hslash⟩ : ∃ piece ∈ splitAtBreaks (fun c => c == '·' || c == '*')
      (labelDenominator label), '/' ∈ piece := mem_splitAtBreaks hmem (by decide)
  have hstrip : '/' ∈ strip piece := mem_strip hslash (by decide)
  have hpart : strip piece ∈ productParts (labelDenominator label) := by
    refine List.mem_filter.2 ⟨List.mem_map_of_mem hpiece, ?_⟩
    rw [Bool.and_eq_true]
    constructor
    · cases hempty : strip piece with
      | nil =>
        rw [hempty] at hstrip
        exact absurd hstrip List.not_mem_nil
      | cons d ds => rfl
    · rw [bne_iff_ne]
      intro hone
      rw [hone] at hstrip
      exact absurd hstrip (by decide)
  have hmem : (strip piece, (-1 : Int)) ∈ labelParts label :=
    List.mem_append_right _ (List.mem_map_of_mem hpart)
  obtain ⟨p, -, hp⟩ := mem_of_mapM_ofPart? h _ hmem
  obtain ⟨u, hu, -⟩ := Option.map_eq_some_iff.1 hp
  exact slash_not_mem_of_ofChars? hu hstrip

theorem applyPart_eq_error {unit : UnitDef} {part : List Char × Int} {p : UnitPower} {f : Failure}
    (hp : UnitPower.ofPart? part = some p) (hknown : isUnitName p.name = true)
    (h : applyPart label unit part = .error f) : ∃ fault, f = .fault fault := by
  obtain ⟨u, hu, rfl⟩ := Option.map_eq_some_iff.1 hp
  obtain ⟨base, hbase⟩ := Option.isSome_iff_exists.1 hknown
  change unitDef? u.name = some base at hbase
  unfold applyPart at h
  simp only [hu, hbase] at h
  split at h
  · exact ⟨_, (Except.error.inj h).symm⟩
  · split at h
    · exact ⟨_, (Except.error.inj h).symm⟩
    · cases h

theorem foldlM_applyPart_eq_error {parts : List (List Char × Int)} {unit : UnitDef} {f : Failure}
    (hread : ∀ part ∈ parts, ∃ p, UnitPower.ofPart? part = some p ∧ isUnitName p.name = true)
    (h : parts.foldlM (applyPart label) unit = .error f) : ∃ fault, f = .fault fault := by
  induction parts generalizing unit with
  | nil => cases h
  | cons part parts ih =>
    rw [List.foldlM_cons] at h
    cases hpart : applyPart label unit part with
    | error g =>
      rw [hpart] at h
      obtain rfl := Except.error.inj h
      obtain ⟨p, hp, hknown⟩ := hread part List.mem_cons_self
      exact applyPart_eq_error hp hknown hpart
    | ok next =>
      rw [hpart] at h
      exact ih (fun part' hmem => hread part' (List.mem_cons_of_mem part hmem)) h

/-- A label whose powers have registered names stands for a unit, unless the size of the unit breaks
down. -/
theorem resolveUnit_eq_error {f : Failure} (hps : labelPowers? label = some ps)
    (hknown : ArePowersKnown ps) (h : resolveUnit label = .error f) :
    ∃ fault, f = .fault fault := by
  unfold resolveUnit at h
  split at h
  · cases h
  · split at h
    · rename_i hbar
      exact absurd (List.contains_iff_mem.1 hbar) (slash_not_mem_labelDenominator hps)
    · split at h
      · rename_i hfold
        obtain rfl := Except.error.inj h
        refine foldlM_applyPart_eq_error (fun part hpart => ?_) hfold
        obtain ⟨p, hp, hread⟩ := mem_of_mapM_ofPart? hps part hpart
        exact ⟨p, hread, hknown p hp⟩
      · cases h

end

end UnitSheet
