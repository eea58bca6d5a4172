import UnitSheet.Proofs.Evaluation.Failures
import UnitSheet.Proofs.Quantity.Unlabelled

set_option autoImplicit false

namespace UnitSheet

def IsUnitOf (label : String) (d : Dims) : Prop := ∃ u, resolveUnit label = .ok u ∧ u.dims = d

section
variable {q : Quantity} {p : Preferences} {label : String} {d : Displayed}

theorem isUnitOf_of_unitDef? {dims : Dims} (h : (unitDef? label).map UnitDef.dims = some dims) :
    IsUnitOf label dims := by
  obtain ⟨u, hu, rfl⟩ := Option.map_eq_some_iff.1 h
  exact ⟨u, by rw [resolveUnit, hu], rfl⟩

theorem isUnitOf_of_convertTo {x : Float} (h : convertTo q label = .ok x) :
    IsUnitOf label q.dims := by
  unfold convertTo at h
  split at h
  · cases h
  · rename_i u hu
    split at h
    · cases h
    · rename_i hdims
      exact ⟨u, hu, (show q.dims = u.dims by simpa using hdims).symm⟩

theorem exists_of_map_eq_ok {ε α β : Type} {x : Except ε α} {f : α → β} {b : β}
    (h : x.map f = .ok b) : ∃ a, x = .ok a ∧ f a = b := by
  cases x with
  | error e => cases h
  | ok a => exact ⟨a, rfl, Except.ok.inj h⟩

def Displayed.HasUnitOf (d : Displayed) (dims : Dims) : Prop :=
  ∃ label, d.unit = some label ∧ IsUnitOf label dims

theorem hasUnitOf_of_displayIn (h : displayIn q label = .ok d) : d.HasUnitOf q.dims := by
  obtain ⟨x, hx, rfl⟩ := exists_of_map_eq_ok h
  exact ⟨label, rfl, isUnitOf_of_convertTo hx⟩

theorem isUnitOf_stress : ∀ label ∈ ["psi", "ksi", "Pa", "kPa", "MPa"],
    IsUnitOf label ⟨-2, 0, 0, 1, 0⟩ := by
  have hdims : ∀ label ∈ ["psi", "ksi", "Pa", "kPa", "MPa"],
      (unitDef? label).map UnitDef.dims = some ⟨-2, 0, 0, 1, 0⟩ := by decide +kernel
  exact fun label hlabel => isUnitOf_of_unitDef? (hdims label hlabel)

theorem hasUnitOf_of_displayPsi (hq : q.dims = ⟨-2, 0, 0, 1, 0⟩) (h : displayPsi q = .ok d) :
    d.HasUnitOf q.dims := by
  obtain ⟨x, -, rfl⟩ := exists_of_map_eq_ok h
  rw [hq]
  split
  · exact ⟨"ksi", rfl, isUnitOf_stress _ (by decide)⟩
  · exact ⟨"psi", rfl, isUnitOf_stress _ (by decide)⟩

theorem hasUnitOf_displayPascal (hq : q.dims = ⟨-2, 0, 0, 1, 0⟩) :
    (displayPascal q).HasUnitOf q.dims := by
  rw [hq, displayPascal]
  split
  · exact ⟨"MPa", rfl, isUnitOf_stress _ (by decide)⟩
  · split
    · exact ⟨"kPa", rfl, isUnitOf_stress _ (by decide)⟩
    · exact ⟨"Pa", rfl, isUnitOf_stress _ (by decide)⟩

theorem hasUnitOf_of_displayPoundMoment (h : displayPoundMoment q = .ok d) :
    d.HasUnitOf q.dims := by
  unfold displayPoundMoment at h
  split at h
  · cases h
  · rename_i x hx
    split at h
    · exact hasUnitOf_of_displayIn h
    · obtain rfl := Except.ok.inj h
      exact ⟨"lb·in", rfl, isUnitOf_of_convertTo hx⟩

/-- The rule for stresses applies to stresses alone, and the other rules convert: whatever the
preferences are, a value is shown without a unit if it has no dimensions, and in one of its
dimensions otherwise. -/
theorem autoDisplay_eq_ok (h : autoDisplay q p = .ok d) :
    q.dims = .zero ∧ d.unit = none ∨ q.dims ≠ .zero ∧ d.HasUnitOf q.dims := by
  unfold autoDisplay at h
  dsimp only at h
  split at h
  · rename_i hzero
    obtain rfl := Except.ok.inj h
    exact .inl ⟨by simpa [Dims.isZero] using hzero, rfl⟩
  · rename_i hzero
    refine .inr ⟨by simpa [Dims.isZero] using hzero, ?_⟩
    split at h
    · rename_i hstress
      have hq := eq_of_isForceOnly hstress
      split at h
      · exact hasUnitOf_of_displayPsi hq h
      · obtain rfl := Except.ok.inj h
        exact hasUnitOf_displayPascal hq
    · split at h
      · split at h
        · exact hasUnitOf_of_displayPoundMoment h
        · exact hasUnitOf_of_displayIn h
      · split at h
        · cases h
        · exact hasUnitOf_of_displayIn h

theorem fault_of_autoDisplay {f : Failure} (hp : p.IsDeclared) (hfits : Fits q.dims.exact)
    (h : autoDisplay q p = .error f) : f = .fault .overflow ∨ f = .fault .zeroDivision := by
  obtain ⟨fault, rfl⟩ := autoDisplay_eq_error hp hfits h
  rcases autoDisplay_eq_fault h with ⟨label, hconvert⟩ | ⟨-, hdims, hnone⟩
  · rcases convertTo_eq_fault hconvert with hresolve | ⟨rfl, -⟩
    · cases isArithmetic_of_resolveUnit hresolve with
      | overflow => exact .inl rfl
      | zeroDivision => exact .inr rfl
    · exact .inr rfl
  · exact absurd hnone (preferredUnit?_ne_none_of_nodup hp.nodup hdims)

end

/-- With the declared preferences there is a fitting unit for all dimensions: the choice fails for no
other reason than the size of a unit, which is beyond all numbers or zero, and a value that is shown
has no unit exactly if it has no dimensions, and otherwise one that resolves to its dimensions. -/
theorem unit_of_autoDisplay {q : Quantity} {p : Preferences} (hp : p.IsDeclared)
    (hfits : Fits q.dims.exact) :
    (∀ f, autoDisplay q p = .error f → f = .fault .overflow ∨ f = .fault .zeroDivision) ∧
    ∀ d, autoDisplay q p = .ok d → (d.unit = none ↔ q.dims = .zero) ∧
      ∀ label, d.unit = some label → ∃ u, resolveUnit label = .ok u ∧ u.dims = q.dims := by
  refine ⟨fun f => fault_of_autoDisplay hp hfits, fun d h => ?_⟩
  rcases autoDisplay_eq_ok h with ⟨hzero, hnone⟩ | ⟨hne, label, hlabel, hunit⟩
  · exact ⟨iff_of_true hnone hzero, fun label hlabel => nomatch hnone.symm.trans hlabel⟩
  · refine ⟨iff_of_false (fun hnone => nomatch hnone.symm.trans hlabel) hne,
      fun label' hlabel' => ?_⟩
    obtain rfl := Option.some.inj (hlabel.symm.trans hlabel')
    exact hunit

def bareStrength : Quantity := ⟨5000000, ⟨-2, 0, 0, 1, 0⟩, none⟩

/-- The strength is shown in millions of pascals. -/
theorem unit_of_autoDisplay_bareStrength : ∃ d,
    autoDisplay bareStrength ⟨"mm", "N", "s", .pascal⟩ = .ok d ∧ d.unit = some "MPa" ∧
      (d.unit = none ↔ bareStrength.dims = .zero) ∧
        ∃ u, resolveUnit "MPa" = .ok u ∧ u.dims = bareStrength.dims := by
  have hp : Preferences.IsDeclared ⟨"mm", "N", "s", .pascal⟩ := ⟨by decide, by decide, rfl⟩
  have hfits : Fits bareStrength.dims.exact := by
    intro b
    cases b <;> decide
  have hshow : autoDisplay bareStrength ⟨"mm", "N", "s", .pascal⟩ =
      .ok (displayPascal bareStrength) := rfl
  have hunit : (displayPascal bareStrength).unit = some "MPa" := by decide +kernel
  obtain ⟨hnone, hdims⟩ := (unit_of_autoDisplay hp hfits).2 _ hshow
  exact ⟨_, hshow, hunit, hnone, hdims _ hunit⟩

end UnitSheet
