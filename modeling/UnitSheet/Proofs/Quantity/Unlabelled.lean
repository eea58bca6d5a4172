import UnitSheet.Proofs.Quantity.Coherence

set_option autoImplicit false

/-!
Values without a display unit. They may have dimensions all the same, and are shown in a unit that is
chosen by these. Sums and powers keep such values in order, but a product or a quotient takes a
missing unit for one without dimensions: its label lacks the dimensions of an operand that has no
label, and it cannot be shown.
-/

namespace UnitSheet

/-- The units that preferences are declared to choose from. -/
structure Preferences.IsDeclared (p : Preferences) : Prop where
  length : p.lengthBase ∈ ["in", "ft", "mm", "m"]
  force : p.forceBase ∈ ["lb", "kip", "N", "kN"]
  time : p.timeBase = "s"

theorem known_of_dims {name : String} {d : Dims} (h : (unitDef? name).map UnitDef.dims = some d) :
    isUnitName name = true ∧ unitExact name = d.exact := by
  obtain ⟨u, hu, rfl⟩ := Option.map_eq_some_iff.1 h
  refine ⟨?_, unitExact_of_unitDef? hu⟩
  rw [isUnitName, hu]
  rfl

theorem Preferences.IsDeclared.dims {p : Preferences} (hp : p.IsDeclared) :
    (unitDef? p.lengthBase).map UnitDef.dims = some .ofLength ∧
      (unitDef? p.forceBase).map UnitDef.dims = some .ofForce ∧
        (unitDef? p.timeBase).map UnitDef.dims = some .ofTime := by
  have hlength : ∀ name ∈ ["in", "ft", "mm", "m"],
      (unitDef? name).map UnitDef.dims = some .ofLength := by decide +kernel
  have hforce : ∀ name ∈ ["lb", "kip", "N", "kN"],
      (unitDef? name).map UnitDef.dims = some .ofForce := by decide +kernel
  refine ⟨hlength _ hp.length, hforce _ hp.force, ?_⟩
  rw [hp.time]
  decide +kernel

theorem Preferences.IsDeclared.nodup {p : Preferences} (hp : p.IsDeclared) :
    [p.lengthBase, p.forceBase, p.timeBase, "kg", "rad"].Nodup := by
  have hall : ∀ l ∈ ["in", "ft", "mm", "m"], ∀ f ∈ ["lb", "kip", "N", "kN"],
      [l, f, "s", "kg", "rad"].Nodup := by decide
  rw [hp.time]
  exact hall _ hp.length _ hp.force

theorem exact_of_baseUnits {p : Preferences} {d : Dims} {m : UnitExponents} (hp : p.IsDeclared)
    (h : m.entries = [(p.lengthBase, d.length.toInt), (p.forceBase, d.force.toInt),
      (p.timeBase, d.time.toInt), ("kg", d.mass.toInt), ("rad", d.angle.toInt)]) :
    m.AreKnown ∧ m.exact = d.exact := by
  obtain ⟨hlength, hforce, htime⟩ := hp.dims
  have hmass : (unitDef? "kg").map UnitDef.dims = some .ofMass := by decide +kernel
  have hangle : (unitDef? "rad").map UnitDef.dims = some .ofAngle := by decide +kernel
  constructor
  · intro e he
    rw [h] at he
    simp only [List.mem_cons, List.not_mem_nil, or_false] at he
    rcases he with rfl | rfl | rfl | rfl | rfl
    · exact (known_of_dims hlength).1
    · exact (known_of_dims hforce).1
    · exact (known_of_dims htime).1
    · exact (known_of_dims hmass).1
    · exact (known_of_dims hangle).1
  · rw [UnitExponents.exact, h]
    simp only [UnitExponents.powersExact_powersOf_cons, (known_of_dims hlength).2,
      (known_of_dims hforce).2, (known_of_dims htime).2, (known_of_dims hmass).2,
      (known_of_dims hangle).2]
    funext b
    cases b <;> simp [Dims.exact, Dims.ofLength, Dims.ofForce, Dims.ofTime, Dims.ofMass,
      Dims.ofAngle, Dims.zero, powersExact, UnitExponents.powersOf]

theorem labels_preferredUnit? {p : Preferences} {d : Dims} {label : String} (hp : p.IsDeclared)
    (h : preferredUnit? p d = some label) : Labels (some label) d.exact := by
  unfold preferredUnit? at h
  dsimp only at h
  obtain ⟨hknown, hexact⟩ := exact_of_baseUnits hp (NameMap.entries_ofList hp.nodup)
  rw [← h, ← hexact, ← UnitExponents.exact_nonzero]
  exact labels_toLabel? (UnitExponents.areKnown_nonzero hknown)

section
variable {q : Quantity} {p : Preferences} {f : Failure}

theorem eq_of_isForceOnly {d : Dims} {n : Int64} (h : (d.mass == 0 && d.time == 0 && d.angle == 0 &&
    d.force == 1 && d.length == n) = true) : d = ⟨n, 0, 0, 1, 0⟩ := by
  obtain ⟨length, mass, time, force, angle⟩ := d
  simp only [Bool.and_eq_true, beq_iff_eq] at h
  obtain ⟨⟨⟨⟨rfl, rfl⟩, rfl⟩, rfl⟩, rfl⟩ := h
  rfl

theorem labels_psi : Labels (some "psi") (Dims.exact ⟨-2, 0, 0, 1, 0⟩) := by
  have hpsi : (unitDef? "psi").map UnitDef.dims = some ⟨-2, 0, 0, 1, 0⟩ := by decide +kernel
  have hwritten : Labels (some "psi") (powersExact [⟨"psi", 1⟩]) :=
    .written (by decide +kernel) (by simpa [ArePowersKnown] using (known_of_dims hpsi).1)
  have hexact : powersExact [⟨"psi", 1⟩] = Dims.exact ⟨-2, 0, 0, 1, 0⟩ := by
    simp [powersExact, (known_of_dims hpsi).2]
  exact hexact ▸ hwritten

theorem labels_moment {label : String} (force length : String)
    (hlabel : labelPowers? label = some [⟨force, 1⟩, ⟨length, 1⟩])
    (hforce : (unitDef? force).map UnitDef.dims = some .ofForce)
    (hlength : (unitDef? length).map UnitDef.dims = some .ofLength) :
    Labels (some label) (Dims.exact ⟨1, 0, 0, 1, 0⟩) := by
  have hknown : ArePowersKnown [⟨force, 1⟩, ⟨length, 1⟩] := by
    simp [ArePowersKnown, (known_of_dims hforce).1, (known_of_dims hlength).1]
  have hexact : powersExact [⟨force, 1⟩, ⟨length, 1⟩] = Dims.exact ⟨1, 0, 0, 1, 0⟩ := by
    simp only [powersExact, List.map_cons, List.map_nil, List.sum_cons, List.sum_nil,
      (known_of_dims hforce).2, (known_of_dims hlength).2]
    funext b
    cases b <;> rfl
  exact hexact ▸ .written hlabel hknown

theorem autoDisplay_eq_error (hp : p.IsDeclared) (hfits : Fits q.dims.exact)
    (h : autoDisplay q p = .error f) : ∃ fault, f = .fault fault := by
  have hshow : ∀ label, Labels (some label) q.dims.exact → convertTo q label = .error f →
      ∃ fault, f = .fault fault :=
    fun label hlabels h => convertTo_eq_error hfits hlabels h
  unfold autoDisplay at h
  dsimp only at h
  split at h
  · cases h
  · split at h
    · rename_i hstress
      split at h
      · refine hshow "psi" ?_ (map_eq_error_iff.1 h)
        rw [eq_of_isForceOnly hstress]
        exact labels_psi
      · cases h
    · split at h
      · rename_i hmoment
        have hdims := eq_of_isForceOnly hmoment
        split at h
        · unfold displayPoundMoment at h
          split at h
          · rename_i failure hconvert
            obtain rfl := Except.error.inj h
            refine hshow "lb·in" ?_ hconvert
            rw [hdims]
            exact labels_moment "lb" "in" (by decide +kernel) (by decide +kernel) (by decide +kernel)
          · split at h
            · refine hshow "lb·ft" ?_ (map_eq_error_iff.1 h)
              rw [hdims]
              exact labels_moment "lb" "ft" (by decide +kernel) (by decide +kernel) (by decide +kernel)
            · cases h
        · refine hshow "N·m" ?_ (map_eq_error_iff.1 h)
          rw [hdims]
          exact labels_moment "N" "m" (by decide +kernel) (by decide +kernel) (by decide +kernel)
      · split at h
        · exact ⟨_, (Except.error.inj h).symm⟩
        · rename_i label hlabel
          exact hshow label (labels_preferredUnit? hp hlabel) (map_eq_error_iff.1 h)

end

namespace Quantity

/-- The quantity has no display unit, or one of its dimensions. -/
def HasFittingUnit (q : Quantity) : Prop :=
  ∀ label, q.unit = some label → ∃ u, resolveUnit label = .ok u ∧ u.dims = q.dims

/-- The exponents of the quantity, and those that its label writes, are within the doubles without
gaps. -/
structure IsExact (q : Quantity) : Prop where
  dims : Fits q.dims.exact
  label : ∀ label ps, q.unit = some label → labelPowers? label = some ps → Fits (powersExact ps)

/-- What the operators take for the dimensions of a quantity when they write its label. -/
def labelDims (q : Quantity) : Base → Int := if q.unit = none then 0 else q.dims.exact

section
variable {q r v : Quantity} {p : Preferences} {f : Failure} {g : Base → Int}

theorem labelDims_none (h : q.unit = none) : q.labelDims = 0 := if_pos h

theorem labelDims_some (h : q.unit ≠ none) : q.labelDims = q.dims.exact := if_neg h

theorem HasFittingUnit.labels (hq : q.HasFittingUnit) (hexact : q.IsExact) :
    Labels q.unit q.labelDims := by
  cases hunit : q.unit with
  | none =>
    rw [labelDims_none hunit]
    exact .bare
  | some label =>
    obtain ⟨u, hu, hdims⟩ := hq label hunit
    obtain ⟨ps, hps, hknown, hsame⟩ := resolveUnit_eq_ok hu
    rw [labelDims_some (by simp [hunit]), ← hdims, hsame (hexact.label label ps hunit hps)]
    exact .written hps hknown

/-- A label fits if it stands for the dimensions of its quantity and can be resolved. -/
theorem hasFittingUnit_iff (hlabels : Labels q.unit g) (hfits : Fits g) : q.HasFittingUnit ↔
    (q.unit ≠ none → g = q.dims.exact) ∧
      ∀ label fault, q.unit = some label → resolveUnit label ≠ .error (.fault fault) := by
  cases hunit : q.unit with
  | none => simp [HasFittingUnit, hunit]
  | some label =>
    rw [hunit] at hlabels
    constructor
    · intro hq
      obtain ⟨u, hu, hdims⟩ := hq label hunit
      refine ⟨fun _ => ?_, fun label' fault hlabel hfault => ?_⟩
      · rcases resolveUnit_of_labels hfits hlabels with ⟨u', hu', hdims'⟩ | ⟨fault, hfault⟩
        · obtain rfl := Except.ok.inj (hu.symm.trans hu')
          rw [← hdims', hdims]
        · cases hu.symm.trans hfault
      · obtain rfl := Option.some.inj hlabel
        cases hu.symm.trans hfault
    · rintro ⟨hdims, hresolves⟩ label' hlabel
      obtain rfl := Option.some.inj (hunit.symm.trans hlabel)
      rcases resolveUnit_of_labels hfits hlabels with ⟨u, hu, hdims'⟩ | ⟨fault, hfault⟩
      · exact ⟨u, hu, Dims.exact_inj (hdims'.trans (hdims (by simp)))⟩
      · exact absurd hfault (hresolves label fault rfl)

theorem displayQuantity_of_labels (hp : p.IsDeclared) (hfits : Fits q.dims.exact)
    (hlabels : q.unit ≠ none → Labels q.unit q.dims.exact)
    (h : displayQuantity q none p = .error f) : ∃ fault, f = .fault fault := by
  unfold displayQuantity at h
  dsimp only at h
  split at h
  · cases h
  · have hshow := map_eq_error_iff.1 h
    rw [Option.none_or] at hshow
    split at hshow
    · rename_i label hunit
      refine convertTo_eq_error hfits ?_ (map_eq_error_iff.1 hshow)
      rw [← hunit]
      exact hlabels (by simp [hunit])
    · exact autoDisplay_eq_error hp hfits hshow

/-- The label of a product or a quotient lacks the dimensions of an operand without a label. -/
def DropsDims (op : BinaryOp) (q r v : Quantity) : Prop :=
  (op = .mul ∨ op = .div) ∧ v.unit ≠ none ∧
    (q.unit = none ∧ q.dims ≠ .zero ∨ r.unit = none ∧ r.dims ≠ .zero)

theorem labels_sum (hq : Labels q.unit q.labelDims) (hr : Labels r.unit r.labelDims)
    (hdims : q.dims = r.dims) (hv : v.dims = q.dims) (hunit : v.unit = q.unit.or r.unit) :
    v.unit ≠ none → Labels v.unit v.dims.exact := by
  intro hlabel
  rw [hv, hunit]
  cases hleft : q.unit with
  | none =>
    rw [hunit, hleft, Option.none_or] at hlabel
    rw [Option.none_or, hdims, ← labelDims_some hlabel]
    exact hr
  | some label =>
    have hsome : q.unit ≠ none := by simp [hleft]
    rw [labelDims_some hsome, hleft] at hq
    exact hq

theorem labels_power (hq : Labels q.unit q.labelDims)
    (hfits : ∀ n, r.whole? = some n → Fits (n • q.dims.exact)) (h : q.power r = .ok v) :
    v.unit ≠ none → Labels v.unit v.dims.exact := by
  intro hlabel
  obtain ⟨-, ⟨n, hn, hdims, hunit⟩ | ⟨-, -, -, hunit⟩⟩ := power_eq_ok h
  · have hsome : q.unit ≠ none := by
      intro hnone
      rw [hnone] at hunit
      exact hlabel (Except.ok.inj hunit).symm
    rw [labelDims_some hsome] at hq
    rw [hdims, Dims.exact_settle (hfits n hn)]
    exact labels_scaleUnit hq hunit
  · exact absurd hunit hlabel

theorem exact_eq_zero_iff {d : Dims} : d.exact = 0 ↔ d = .zero := by
  rw [← Dims.isZero_iff, Dims.isZero, beq_iff_eq]

theorem fits_smul_sign {sign : Int} (hsign : sign = 1 ∨ sign = -1) (hfits : Fits g) :
    Fits (sign • g) := by
  intro b
  have hb := hfits b
  rcases hsign with rfl | rfl
  · rwa [one_smul]
  · rwa [neg_one_smul, Pi.neg_apply, Int.natAbs_neg]

theorem labels_product {sign : Int} (hsign : sign = 1 ∨ sign = -1) (hqfits : Fits q.dims.exact)
    (hrfits : Fits r.dims.exact) (hq : Labels q.unit q.labelDims) (hr : Labels r.unit r.labelDims)
    (hf : Fits (q.dims.exact + sign • r.dims.exact))
    (hv : v.dims = (Dims.ofExact (q.dims.exact + sign • r.dims.exact)).settle)
    (hunit : combineUnits sign q.unit r.unit = .ok v.unit) (hlabel : v.unit ≠ none) :
    ∃ g, Labels v.unit g ∧ Fits g ∧ (g = v.dims.exact ↔
      ¬ (q.unit = none ∧ q.dims ≠ .zero ∨ r.unit = none ∧ r.dims ≠ .zero)) := by
  refine ⟨_, labels_combineUnits hq hr hunit, ?_⟩
  rw [hv, Dims.exact_settle hf]
  by_cases hleft : q.unit = none
  · by_cases hright : r.unit = none
    · rw [hleft, hright] at hunit
      exact absurd (Except.ok.inj hunit).symm hlabel
    · rw [labelDims_none hleft, labelDims_some hright, zero_add]
      refine ⟨fits_smul_sign hsign hrfits, ?_⟩
      simp [hleft, hright, ← exact_eq_zero_iff]
  · by_cases hright : r.unit = none
    · rw [labelDims_some hleft, labelDims_none hright, smul_zero, add_zero]
      refine ⟨hqfits, ?_⟩
      have hzero : sign • r.dims.exact = 0 ↔ r.dims.exact = 0 := by
        rcases hsign with rfl | rfl
        · rw [one_smul]
        · rw [neg_one_smul, neg_eq_zero]
      rw [left_eq_add, hzero, exact_eq_zero_iff]
      simp [hleft, hright]
    · rw [labelDims_some hleft, labelDims_some hright]
      exact ⟨hf, by simp [hleft, hright]⟩

/-- The label that an operator writes has the dimensions of the result, unless the label drops
those of an operand. -/
theorem labels_apply {op : BinaryOp} (hqexact : q.IsExact) (hrexact : r.IsExact)
    (hfits : Fits (op.exactDims q r)) (hq : q.HasFittingUnit) (hr : r.HasFittingUnit)
    (h : op.apply q r = .ok v) :
    Fits v.dims.exact ∧ ∃ g, Labels v.unit g ∧ Fits g ∧
      (v.unit ≠ none → (g = v.dims.exact ↔ ¬ DropsDims op q r v)) := by
  have hqlabels := hq.labels hqexact
  have hrlabels := hr.labels hrexact
  have hkept : Fits v.dims.exact → ¬ (op = .mul ∨ op = .div) →
      (v.unit ≠ none → Labels v.unit v.dims.exact) →
      ∃ g, Labels v.unit g ∧ Fits g ∧ (v.unit ≠ none → (g = v.dims.exact ↔ ¬ DropsDims op q r v)) := by
    intro hv hop hlabels
    by_cases hlabel : v.unit = none
    · exact ⟨0, hlabel ▸ .bare, fits_zero, fun hsome => absurd hlabel hsome⟩
    · exact ⟨_, hlabels hlabel, hv, fun _ => ⟨fun _ hdrops => hop hdrops.1, fun _ => rfl⟩⟩
  have hproduct : ∀ sign : Int, sign = 1 ∨ sign = -1 → op = .mul ∨ op = .div →
      op.exactDims q r = q.dims.exact + sign • r.dims.exact →
      v.dims = (Dims.ofExact (op.exactDims q r)).settle →
      ((Dims.ofExact (op.exactDims q r)).isZero = true ∧ v.unit = none ∨
        combineUnits sign q.unit r.unit = .ok v.unit) →
      Fits v.dims.exact ∧ ∃ g, Labels v.unit g ∧ Fits g ∧
        (v.unit ≠ none → (g = v.dims.exact ↔ ¬ DropsDims op q r v)) := by
    intro sign hsign hop hdims hv hunit
    refine ⟨by rwa [hv, Dims.exact_settle hfits], ?_⟩
    by_cases hlabel : v.unit = none
    · exact ⟨0, hlabel ▸ .bare, fits_zero, fun hsome => absurd hlabel hsome⟩
    · have hunit := hunit.resolve_left fun hnone => hlabel hnone.2
      rw [hdims] at hfits hv
      obtain ⟨g, hlabels, hg, hsame⟩ := labels_product hsign hqexact.dims hrexact.dims hqlabels
        hrlabels hfits hv hunit hlabel
      refine ⟨g, hlabels, hg, fun _ => hsame.trans ?_⟩
      simp [DropsDims, hop, hlabel]
  cases op with
  | add =>
    obtain ⟨hdims, hv, hunit⟩ := add_eq_ok h
    have hvfits : Fits v.dims.exact := hv ▸ hqexact.dims
    exact ⟨hvfits, hkept hvfits (by simp) (labels_sum hqlabels hrlabels hdims hv hunit)⟩
  | sub =>
    obtain ⟨hdims, hv, hunit⟩ := subtract_eq_ok h
    have hvfits : Fits v.dims.exact := hv ▸ hqexact.dims
    exact ⟨hvfits, hkept hvfits (by simp) (labels_sum hqlabels hrlabels hdims hv hunit)⟩
  | mul =>
    obtain ⟨hv, hunit⟩ := multiply_eq_ok h
    exact hproduct 1 (.inl rfl) (.inl rfl) (by rw [one_smul]; rfl) hv hunit
  | div =>
    obtain ⟨hv, hunit⟩ := divide_eq_ok h
    exact hproduct (-1) (.inr rfl) (.inr rfl) (by rw [neg_one_smul, ← sub_eq_add_neg]; rfl) hv hunit
  | pow =>
    have hpower : ∀ n, r.whole? = some n → Fits (n • q.dims.exact) := by
      intro n hn
      rw [BinaryOp.exactDims, hn] at hfits
      exact hfits
    have hvfits : Fits v.dims.exact := by
      obtain ⟨-, ⟨n, hn, hdims, -⟩ | ⟨-, -, hdims, -⟩⟩ := power_eq_ok h
      · rw [hdims, Dims.exact_settle (hpower n hn)]
        exact hpower n hn
      · exact hdims ▸ hqexact.dims
    exact ⟨hvfits, hkept hvfits (by simp) (labels_power hqlabels hpower h)⟩
  | other symbol => cases h

theorem isZero_of_withProductUnit {sign : Int} {x : Float} {d : Dims}
    (h : q.withProductUnit sign r x d = .ok v) (hlabel : v.unit ≠ none) : d.isZero = false := by
  unfold withProductUnit at h
  split at h
  · obtain rfl := Except.ok.inj h
    exact absurd rfl hlabel
  · rename_i hzero
    exact Bool.eq_false_iff.2 hzero

theorem isDimensionless_of_dropsDims {op : BinaryOp} (hfits : Fits (op.exactDims q r))
    (h : op.apply q r = .ok v) (hdrops : DropsDims op q r v) : v.isDimensionless = false := by
  have hsettled : ∀ f, Fits f → (Dims.ofExact f).isZero = false → v.dims = (Dims.ofExact f).settle →
      v.isDimensionless = false := by
    intro f hf hzero hv
    rwa [isDimensionless, hv, Dims.settle_ofExact hf]
  obtain ⟨rfl | rfl, hlabel, -⟩ := hdrops
  · have hzero := isZero_of_withProductUnit h hlabel
    rw [Dims.add_eq_ofExact] at hzero
    exact hsettled _ hfits hzero (multiply_eq_ok h).1
  · have hv := (divide_eq_ok h).1
    change q.divide r = .ok v at h
    unfold divide at h
    split at h
    · cases h
    · have hzero := isZero_of_withProductUnit h hlabel
      rw [Dims.sub_eq_ofExact] at hzero
      exact hsettled _ hfits hzero hv

/-- The operators keep values in order that have a label of their dimensions or none, with one
exception: the label of a product or a quotient may drop the dimensions of an operand without a
label. It is only such a value that cannot be shown in the unit that it carries; for any other it
is the size of a unit that may break down. -/
theorem hasFittingUnit_apply {op : BinaryOp} (hqexact : q.IsExact) (hrexact : r.IsExact)
    (hfits : Fits (op.exactDims q r)) (hq : q.HasFittingUnit) (hr : r.HasFittingUnit)
    (h : op.apply q r = .ok v) :
    (v.HasFittingUnit ↔ ¬ DropsDims op q r v ∧
      ∀ label fault, v.unit = some label → resolveUnit label ≠ .error (.fault fault)) ∧
    (¬ DropsDims op q r v → ∀ p f, p.IsDeclared → displayQuantity v none p = .error f →
      ∃ fault, f = .fault fault) ∧
    (DropsDims op q r v → ∀ p label u, v.unit = some label → resolveUnit label = .ok u →
      displayQuantity v none p = .error (.mismatch (.display v.dims label u.dims))) ∧
    ∀ (sign : SignOp) w, sign.apply q = .ok w → w.HasFittingUnit ∧
      ∀ p f, p.IsDeclared → displayQuantity w none p = .error f → ∃ fault, f = .fault fault := by
  obtain ⟨hvfits, g, hlabels, hg, hsame⟩ := labels_apply hqexact hrexact hfits hq hr h
  have hiff : v.HasFittingUnit ↔ ¬ DropsDims op q r v ∧
      ∀ label fault, v.unit = some label → resolveUnit label ≠ .error (.fault fault) := by
    rw [hasFittingUnit_iff hlabels hg]
    refine and_congr_left fun _ => ⟨fun hdims hdrops => ?_, fun hkept hlabel => ?_⟩
    · exact (hsame hdrops.2.1).1 (hdims hdrops.2.1) hdrops
    · exact (hsame hlabel).2 hkept
  refine ⟨hiff, fun hkept p f hp hshow => ?_, fun hdrops p label u hunit hu => ?_,
    fun sign w hw => ?_⟩
  · refine displayQuantity_of_labels hp hvfits (fun hlabel => ?_) hshow
    rw [← (hsame hlabel).2 hkept]
    exact hlabels
  · have hdims : v.dims ≠ u.dims := by
      intro hdims
      have hfitting : v.HasFittingUnit := by
        intro label' hlabel'
        obtain rfl := Option.some.inj (hunit.symm.trans hlabel')
        exact ⟨u, hu, hdims.symm⟩
      exact (hiff.1 hfitting).1 hdrops
    have hconvert : convertTo v label = .error (.mismatch (.display v.dims label u.dims)) := by
      rw [convertTo, hu]
      dsimp only
      rw [if_pos (by simpa using hdims)]
    simp [displayQuantity, isDimensionless_of_dropsDims hfits h hdrops, hunit, displayIn, hconvert,
      Except.map]
  · obtain ⟨hwdims, hwunit⟩ := signApply_eq_ok hw
    refine ⟨fun label hlabel => ?_, fun p f hp hshow => ?_⟩
    · rw [hwdims]
      exact hq label (hwunit ▸ hlabel)
    · have hwfits : Fits w.dims.exact := hwdims ▸ hqexact.dims
      refine displayQuantity_of_labels hp hwfits (fun hlabel => ?_) hshow
      rw [hwunit] at hlabel
      rw [hwdims, hwunit, ← labelDims_some hlabel]
      exact hq.labels hqexact

end

def bareSpan : Quantity := ⟨5, .ofLength, none⟩

theorem hasFittingUnit_bare {x : Float} {d : Dims} : HasFittingUnit ⟨x, d, none⟩ :=
  fun _ hlabel => nomatch hlabel

theorem isExact_bare {x : Float} {d : Dims} (h : Fits d.exact) : IsExact ⟨x, d, none⟩ :=
  ⟨h, fun _ _ hlabel => nomatch hlabel⟩

theorem fits_ofLength : Fits Dims.ofLength.exact := by
  intro b
  cases b <;> decide

/-- Twice the length is a length without a label again, and shown. -/
theorem hasFittingUnit_bareSpan : ∃ v, bareSpan.multiply (.scalar 2) = .ok v ∧
    v.HasFittingUnit ∧
      ∀ p f, p.IsDeclared → displayQuantity v none p = .error f → ∃ fault, f = .fault fault := by
  have hmultiply : BinaryOp.mul.apply bareSpan (.scalar 2) =
      .ok ⟨5 * 2, (Dims.ofLength + .zero).settle, none⟩ := rfl
  have hfits : Fits (BinaryOp.mul.exactDims bareSpan (.scalar 2)) := by
    intro b
    cases b <;> decide
  obtain ⟨hfitting, hshown, -⟩ := hasFittingUnit_apply (isExact_bare fits_ofLength)
    (isExact_bare (Dims.exact_zero ▸ fits_zero)) hfits hasFittingUnit_bare hasFittingUnit_bare hmultiply
  have hkept : ¬ DropsDims .mul bareSpan (.scalar 2)
      ⟨5 * 2, (Dims.ofLength + .zero).settle, none⟩ := fun hdrops => hdrops.2.1 rfl
  exact ⟨_, hmultiply, hfitting.2 ⟨hkept, fun _ _ hlabel => nomatch hlabel⟩, hshown hkept⟩

def twoSeconds : Quantity := ⟨2, .ofTime, some "s"⟩

theorem isExact_twoSeconds : twoSeconds.IsExact := by
  refine ⟨fun b => ?_, fun label ps hlabel hps => ?_⟩
  · cases b <;> decide
  · obtain rfl := Option.some.inj hlabel
    exact fits_of_isUnitName (by decide +kernel) hps

/-- Multiplied by two seconds the length is left with the label of a time, and cannot be shown. -/
theorem not_hasFittingUnit_bareSpan : ∃ v, bareSpan.multiply twoSeconds = .ok v ∧
    (bareSpan.IsExact ∧ twoSeconds.IsExact ∧ Fits (BinaryOp.mul.exactDims bareSpan twoSeconds)) ∧
    (bareSpan.HasFittingUnit ∧ twoSeconds.HasFittingUnit ∧ ¬ v.HasFittingUnit) ∧
      displayQuantity v none {} = .error (.mismatch (.display v.dims "s" .ofTime)) := by
  have htime : (unitDef? "s").map UnitDef.dims = some .ofTime := by decide +kernel
  obtain ⟨u, hu, hdims⟩ := Option.map_eq_some_iff.1 htime
  have hresolve : resolveUnit "s" = .ok u := by rw [resolveUnit, hu]
  have hunit : combineUnits 1 none (some "s") = .ok (some "s") := by decide +kernel
  have hnonzero : (Dims.ofLength + .ofTime).isZero = false := by decide
  have hmultiply : bareSpan.multiply twoSeconds =
      .ok ⟨5 * 2, (Dims.ofLength + .ofTime).settle, some "s"⟩ := by
    simp only [multiply, withProductUnit, bareSpan, twoSeconds, hnonzero, hunit, Bool.false_eq_true,
      if_false]
  have hother : (Dims.ofLength + .ofTime).settle ≠ u.dims := by
    rw [hdims]
    decide
  refine ⟨_, hmultiply, ⟨isExact_bare fits_ofLength, isExact_twoSeconds, fun b => ?_⟩,
    ⟨hasFittingUnit_bare, fun label hlabel => ?_, fun hfitting => ?_⟩, ?_⟩
  · cases b <;> decide
  · obtain rfl := Option.some.inj hlabel
    exact ⟨u, hresolve, hdims⟩
  · obtain ⟨u', hu', hdims'⟩ := hfitting "s" rfl
    obtain rfl := Except.ok.inj (hresolve.symm.trans hu')
    exact hother hdims'.symm
  · have hsettled : (Dims.ofLength + .ofTime).settle.isZero = false := by decide
    have hconvert : convertTo ⟨5 * 2, (Dims.ofLength + .ofTime).settle, some "s"⟩ "s" =
        .error (.mismatch (.display (Dims.ofLength + .ofTime).settle "s" .ofTime)) := by
      simp only [convertTo, hresolve, hdims]
      rfl
    simp [displayQuantity, isDimensionless, hsettled, displayIn, hconvert, Except.map]

end Quantity

end UnitSheet
