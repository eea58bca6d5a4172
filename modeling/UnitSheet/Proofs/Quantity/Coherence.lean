import UnitSheet.Proofs.Quantity.Display
import UnitSheet.Proofs.Quantity.Operators
import UnitSheet.Proofs.Unit.LabelDims

set_option autoImplicit false

/-!
Display units and dimensions. A quantity carries its dimensions twice, as a vector and in the label
of its unit, and the operators compute both apart from each other. They agree in every result whose
exact dimensions stay within the doubles without gaps.
-/

namespace UnitSheet

/-- Every name of the label is registered, and their dimensions are `f`; without a label there are
no dimensions. -/
inductive Labels : Option String → (Base → Int) → Prop
  | bare : Labels none 0
  | written {label : String} {ps : List UnitPower} :
      labelPowers? label = some ps → ArePowersKnown ps → Labels (some label) (powersExact ps)

structure Quantity.IsCoherent (q : Quantity) : Prop where
  fits : Fits q.dims.exact
  labels : Labels q.unit q.dims.exact

/-- The exponents of the display unit have registered names and add up to the dimensions; without a
display unit there are none. -/
def Quantity.HasUnitOfDims (q : Quantity) : Prop :=
  match q.unit with
  | none => q.dims = .zero
  | some label => ∃ m, labelExponents label = .ok m ∧ m.AreKnown ∧ m.exact = q.dims.exact

def unitExponents : Option String → Except UnitError UnitExponents
  | none => .ok .empty
  | some label => labelExponents label

theorem combineUnits_eq (sign : Int) (left right : Option String) :
    combineUnits sign left right =
      match unitExponents left with
      | .error e => .error e
      | .ok l =>
        match unitExponents right with
        | .error e => .error e
        | .ok r => .ok (l.combine sign r).toLabel? := by
  cases left <;> cases right <;> rfl

section
variable {u v w : Option String} {f g : Base → Int}

theorem Labels.eq_zero (h : Labels none f) : f = 0 := by
  cases h
  rfl

theorem Labels.exponents (h : Labels u f) :
    ∃ m, unitExponents u = .ok m ∧ m.AreKnown ∧ m.exact = f := by
  cases h with
  | bare => exact ⟨.empty, rfl, fun e he => absurd he List.not_mem_nil, rfl⟩
  | @written label ps hps hknown =>
    have hread := ofLabel?_eq label
    rw [hps] at hread
    refine ⟨_, ?_, exact_of_ofLabel? hps hknown hread⟩
    rw [unitExponents, labelExponents, hread]
    rfl

theorem labels_toLabel? {m : UnitExponents} (hm : m.AreKnown) : Labels m.toLabel? m.exact := by
  cases h : m.toLabel? with
  | none =>
    rw [← UnitExponents.powersExact_ordered, UnitExponents.toLabel?_eq_none_iff.1 h]
    exact .bare
  | some label =>
    rw [← UnitExponents.powersExact_ordered]
    have hword : ∀ e ∈ m.entries, IsUnitWord e.1 := fun e he => isUnitWord_of_isUnitName (hm e he)
    exact .written (UnitExponents.labelPowers?_of_toLabel? hword h)
      (UnitExponents.arePowersKnown_ordered hm)

theorem labels_combineUnits {sign : Int} (hu : Labels u f) (hv : Labels v g)
    (h : combineUnits sign u v = .ok w) : Labels w (f + sign • g) := by
  obtain ⟨m, hm, hmknown, rfl⟩ := hu.exponents
  obtain ⟨n, hn, hnknown, rfl⟩ := hv.exponents
  rw [combineUnits_eq, hm, hn] at h
  obtain rfl := Except.ok.inj h
  rw [← UnitExponents.exact_combine]
  exact labels_toLabel? (UnitExponents.areKnown_combine hmknown hnknown)

theorem labels_scaleUnit {n : Int} (hu : Labels u f) (h : scaleUnit u n = .ok w) :
    Labels w (n • f) := by
  cases u with
  | none =>
    obtain rfl := hu.eq_zero
    obtain rfl := Except.ok.inj h
    rw [smul_zero]
    exact .bare
  | some label =>
    obtain ⟨m, hm, hknown, rfl⟩ := hu.exponents
    change labelExponents label = .ok m at hm
    rw [scaleUnit, hm] at h
    obtain rfl := Except.ok.inj h
    rw [← UnitExponents.exact_scale]
    exact labels_toLabel? (UnitExponents.areKnown_scale hknown)

end

namespace Quantity

section
variable {q r v : Quantity}

theorem IsCoherent.hasUnitOfDims (h : q.IsCoherent) : q.HasUnitOfDims := by
  have hlabels := h.labels
  unfold HasUnitOfDims
  split
  · rename_i hunit
    rw [hunit] at hlabels
    exact Dims.exact_inj (hlabels.eq_zero.trans Dims.exact_zero.symm)
  · rename_i label hunit
    rw [hunit] at hlabels
    exact hlabels.exponents

theorem isCoherent_bare {x : Float} {d : Dims} (h : d.exact = 0) : IsCoherent ⟨x, d, none⟩ :=
  ⟨h ▸ fits_zero, h ▸ .bare⟩

theorem isCoherent_of_ofUnit {x : Float} {unit : Option String}
    (hfits : ∀ label ps, unit = some label → labelPowers? label = some ps → Fits (powersExact ps))
    (h : ofUnit x unit = .ok q) : q.IsCoherent := by
  unfold ofUnit at h
  split at h
  · obtain rfl := Except.ok.inj h
    exact isCoherent_bare Dims.exact_zero
  · rename_i label
    split at h
    · cases h
    · rename_i u hu
      obtain rfl := Except.ok.inj h
      obtain ⟨ps, hps, hknown, hdims⟩ := resolveUnit_eq_ok hu
      have hfits := hfits label ps rfl hps
      have hdims := hdims hfits
      exact ⟨hdims ▸ hfits, hdims ▸ .written hps hknown⟩

theorem isCoherent_sum (hq : q.IsCoherent) (hr : r.IsCoherent) (hdims : q.dims = r.dims)
    (hv : v.dims = q.dims) (hunit : v.unit = q.unit.or r.unit) : v.IsCoherent := by
  refine ⟨hv ▸ hq.fits, ?_⟩
  have hleft := hq.labels
  rw [hv, hunit]
  cases hlabel : q.unit with
  | none =>
    rw [Option.none_or, hdims]
    exact hr.labels
  | some label =>
    rw [hlabel] at hleft
    exact hleft

theorem isCoherent_product {sign : Int} {f : Base → Int} (hq : q.IsCoherent) (hr : r.IsCoherent)
    (hf : f = q.dims.exact + sign • r.dims.exact) (hfits : Fits f)
    (hv : v.dims = (Dims.ofExact f).settle)
    (hunit : (Dims.ofExact f).isZero = true ∧ v.unit = none ∨
      combineUnits sign q.unit r.unit = .ok v.unit) : v.IsCoherent := by
  have hexact : v.dims.exact = f := by rw [hv, Dims.exact_settle hfits]
  refine ⟨hexact ▸ hfits, ?_⟩
  rw [hexact]
  rcases hunit with ⟨hzero, hunit⟩ | hunit
  · rw [Dims.isZero_iff, Dims.exact_ofExact hfits] at hzero
    rw [hzero, hunit]
    exact .bare
  · rw [hf]
    exact labels_combineUnits hq.labels hr.labels hunit

theorem isCoherent_power (hq : q.IsCoherent)
    (hfits : ∀ n, r.whole? = some n → Fits (n • q.dims.exact)) (h : q.power r = .ok v) :
    v.IsCoherent := by
  obtain ⟨-, ⟨n, hn, hdims, hunit⟩ | ⟨-, hzero, hdims, hunit⟩⟩ := power_eq_ok h
  · have hexact : v.dims.exact = n • q.dims.exact := by rw [hdims, Dims.exact_settle (hfits n hn)]
    exact ⟨hexact ▸ hfits n hn, hexact ▸ labels_scaleUnit hq.labels hunit⟩
  · have hexact : v.dims.exact = 0 := by rw [hdims, hzero]
    exact ⟨hexact ▸ fits_zero, hexact ▸ hunit ▸ .bare⟩

theorem isCoherent_signApply {sign : SignOp} (hq : q.IsCoherent) (h : sign.apply q = .ok v) :
    v.IsCoherent := by
  obtain ⟨hdims, hunit⟩ := signApply_eq_ok h
  exact ⟨hdims ▸ hq.fits, hdims ▸ hunit ▸ hq.labels⟩

end

end Quantity

def BinaryOp.exactDims (op : BinaryOp) (q r : Quantity) : Base → Int :=
  match op with
  | .mul => q.dims.exact + r.dims.exact
  | .div => q.dims.exact - r.dims.exact
  | .pow => r.whole?.getD 1 • q.dims.exact
  | _ => q.dims.exact

theorem isCoherent_apply {op : BinaryOp} {q r v : Quantity} (hq : q.IsCoherent) (hr : r.IsCoherent)
    (hfits : Fits (op.exactDims q r)) (h : op.apply q r = .ok v) : v.IsCoherent := by
  cases op with
  | add =>
    obtain ⟨hdims, hv, hunit⟩ := Quantity.add_eq_ok h
    exact Quantity.isCoherent_sum hq hr hdims hv hunit
  | sub =>
    obtain ⟨hdims, hv, hunit⟩ := Quantity.subtract_eq_ok h
    exact Quantity.isCoherent_sum hq hr hdims hv hunit
  | mul =>
    obtain ⟨hv, hunit⟩ := Quantity.multiply_eq_ok h
    exact Quantity.isCoherent_product hq hr (by rw [one_smul]; rfl) hfits hv hunit
  | div =>
    obtain ⟨hv, hunit⟩ := Quantity.divide_eq_ok h
    exact Quantity.isCoherent_product hq hr (by rw [neg_one_smul, ← sub_eq_add_neg]; rfl) hfits hv
      hunit
  | pow =>
    refine Quantity.isCoherent_power hq (fun n hn => ?_) h
    rw [BinaryOp.exactDims, hn] at hfits
    exact hfits
  | other symbol => cases h

theorem fits_of_isUnitName {name : String} {ps : List UnitPower} (h : isUnitName name = true)
    (hps : labelPowers? name = some ps) : Fits (powersExact ps) := by
  rw [labelPowers?_of_isUnitWord (isUnitWord_of_isUnitName h)] at hps
  obtain rfl := Option.some.inj hps
  rw [powersExact_cons]
  change Fits ((1 : Int) • unitExact name + 0)
  rw [one_smul, add_zero]
  exact fits_unitExact name

theorem isCoherent_of_evalName {store : Store} {n : String} {q : Quantity}
    (hstore : ∀ q, store.value? n = some q → q.IsCoherent) (h : store.evalName n = .ok q) :
    q.IsCoherent := by
  unfold Store.evalName at h
  split at h
  · rename_i value hvalue
    obtain rfl := Except.ok.inj h
    exact hstore _ hvalue
  · split at h
    · rename_i hname
      refine Quantity.isCoherent_of_ofUnit (fun label ps hlabel hps => ?_) h
      obtain rfl := Option.some.inj hlabel
      exact fits_of_isUnitName hname hps
    · cases h

/-- A label of registered names stands for a unit with its dimensions, brought through words and
doubles, or the size of the unit breaks down. -/
theorem resolveUnit_of_labels_settled {label : String} {f : Base → Int}
    (hlabels : Labels (some label) f) :
    (∃ u, resolveUnit label = .ok u ∧ u.dims = (Dims.ofExact f).settle) ∨
      ∃ fault, resolveUnit label = .error (.fault fault) := by
  cases hlabels with
  | @written _ ps hps hknown =>
    cases hu : resolveUnit label with
    | error failure =>
      obtain ⟨fault, rfl⟩ := resolveUnit_eq_error hps hknown hu
      exact .inr ⟨fault, rfl⟩
    | ok u =>
      obtain ⟨ps', hps', -, hdims⟩ := dims_of_resolveUnit hu
      obtain rfl := Option.some.inj (hps.symm.trans hps')
      exact .inl ⟨u, rfl, hdims⟩

theorem resolveUnit_of_labels {label : String} {f : Base → Int} (hfits : Fits f)
    (hlabels : Labels (some label) f) :
    (∃ u, resolveUnit label = .ok u ∧ u.dims.exact = f) ∨
      ∃ fault, resolveUnit label = .error (.fault fault) := by
  rcases resolveUnit_of_labels_settled hlabels with ⟨u, hu, hdims⟩ | hfault
  · exact .inl ⟨u, hu, hdims ▸ Dims.exact_settle hfits⟩
  · exact .inr hfault

theorem convertTo_eq_error {q : Quantity} {label : String} {f : Failure} (hfits : Fits q.dims.exact)
    (hlabels : Labels (some label) q.dims.exact) (h : convertTo q label = .error f) :
    ∃ fault, f = .fault fault := by
  unfold convertTo at h
  rcases resolveUnit_of_labels hfits hlabels with ⟨u, hu, hdims⟩ | ⟨fault, hu⟩
  · have hsame : q.dims = u.dims := Dims.exact_inj hdims.symm
    rw [hu] at h
    dsimp only at h
    rw [hsame, bne_self_eq_false, if_neg Bool.false_ne_true] at h
    split at h
    · exact ⟨_, (Except.error.inj h).symm⟩
    · cases h
  · rw [hu] at h
    exact ⟨fault, (Except.error.inj h).symm⟩

/-- A coherent value is shown, or its display unit breaks down; there is nothing about it to
complain of. -/
theorem displayQuantity_eq_error {q : Quantity} {p : Preferences} {f : Failure}
    (hq : q.IsCoherent) (h : displayQuantity q none p = .error f) : ∃ fault, f = .fault fault := by
  have hlabels := hq.labels
  unfold displayQuantity at h
  dsimp only at h
  split at h
  · cases h
  · rename_i hdims
    rw [Option.none_or] at h
    cases hunit : q.unit with
    | none =>
      rw [hunit] at hlabels
      have hzero : q.isDimensionless = true := Dims.isZero_iff.2 hlabels.eq_zero
      rw [hzero] at hdims
      exact absurd rfl hdims
    | some label =>
      rw [hunit] at hlabels h
      have hconvert : convertTo q label = .error f := map_eq_error_iff.1 (map_eq_error_iff.1 h)
      exact convertTo_eq_error hq.fits hlabels hconvert

end UnitSheet
