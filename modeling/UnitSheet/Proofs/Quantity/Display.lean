import UnitSheet.Display
import UnitSheet.Proofs.Unit.Exact
import UnitSheet.Proofs.Unit.LabelText

set_option autoImplicit false

namespace UnitSheet

section
variable {q : Quantity} {p : Preferences} {label : String} {fault : Fault}

theorem map_eq_error_iff {ε α β : Type} {x : Except ε α} {f : α → β} {e : ε} :
    x.map f = .error e ↔ x = .error e := by
  cases x with
  | error e' => exact ⟨fun h => congrArg _ (Except.error.inj h), fun h => congrArg _ (Except.error.inj h)⟩
  | ok a => exact ⟨nofun, nofun⟩

theorem convertTo_eq_fault (h : convertTo q label = .error (.fault fault)) :
    resolveUnit label = .error (.fault fault) ∨
      fault = .zeroDivision ∧ ∃ u, resolveUnit label = .ok u ∧ q.dims = u.dims ∧ (u.factor == 0) := by
  unfold convertTo at h
  split at h
  · rename_i failure hunit
    rw [Except.error.inj h] at hunit
    exact .inl hunit
  · rename_i u hunit
    split at h
    · cases h
    · rename_i hdims
      split at h
      · rename_i hzero
        exact .inr ⟨(Failure.fault.inj (Except.error.inj h)).symm, u, hunit,
          by simpa using hdims, hzero⟩
      · cases h

theorem displayPsi_eq_fault (h : displayPsi q = .error (.fault fault)) :
    convertTo q "psi" = .error (.fault fault) :=
  map_eq_error_iff.1 h

theorem displayPoundMoment_eq_fault (h : displayPoundMoment q = .error (.fault fault)) :
    ∃ label, convertTo q label = .error (.fault fault) := by
  unfold displayPoundMoment at h
  split at h
  · rename_i failure hfailure
    rw [Except.error.inj h] at hfailure
    exact ⟨_, hfailure⟩
  · split at h
    · exact ⟨_, map_eq_error_iff.1 h⟩
    · cases h

theorem autoDisplay_eq_fault (h : autoDisplay q p = .error (.fault fault)) :
    (∃ label, convertTo q label = .error (.fault fault)) ∨
      fault = .noDisplayUnit ∧ q.dims.isZero = false ∧ preferredUnit? p q.dims = none := by
  unfold autoDisplay at h
  dsimp only at h
  split at h
  · cases h
  · rename_i hzero
    split at h
    · split at h
      · exact .inl ⟨_, displayPsi_eq_fault h⟩
      · cases h
    · split at h
      · split at h
        · exact .inl (displayPoundMoment_eq_fault h)
        · exact .inl ⟨_, map_eq_error_iff.1 h⟩
      · split at h
        · rename_i hnone
          exact .inr ⟨(Failure.fault.inj (Except.error.inj h)).symm, Bool.eq_false_iff.2 hzero, hnone⟩
        · exact .inl ⟨_, map_eq_error_iff.1 h⟩

/-- Showing a value breaks down only at a unit, unless the preferences give it none. -/
theorem displayQuantity_eq_fault (h : displayQuantity q none p = .error (.fault fault)) :
    (∃ label, convertTo q label = .error (.fault fault)) ∨
      fault = .noDisplayUnit ∧ q.dims.isZero = false ∧ preferredUnit? p q.dims = none := by
  unfold displayQuantity at h
  dsimp only at h
  split at h
  · cases h
  · have h := map_eq_error_iff.1 h
    split at h
    · exact .inl ⟨_, map_eq_error_iff.1 h⟩
    · exact autoDisplay_eq_fault h

end

def Preferences.IsNamed (p : Preferences) : Prop := ∃ name, Preferences.forSystem name = .ok p

theorem nodup_baseUnits {p : Preferences} (hp : p.IsNamed) :
    [p.lengthBase, p.forceBase, p.timeBase, "kg", "rad"].Nodup := by
  obtain ⟨name, hname⟩ := hp
  unfold Preferences.forSystem at hname
  split at hname
  · obtain rfl := Except.ok.inj hname
    decide
  · obtain rfl := Except.ok.inj hname
    decide
  · obtain rfl := Except.ok.inj hname
    decide
  · obtain rfl := Except.ok.inj hname
    decide
  · cases hname

theorem eq_zero_of_toLabel? {m : UnitExponents} (h : m.nonzero.toLabel? = none) :
    ∀ e ∈ m.entries, e.2 = 0 := by
  intro e he
  obtain ⟨habove, hbelow⟩ := List.append_eq_nil_iff.1 (UnitExponents.toLabel?_eq_none_iff.1 h)
  by_contra hzero
  have hmem : e ∈ m.nonzero.entries := List.mem_filter.2 ⟨he, by simpa using hzero⟩
  have hpos := List.filter_eq_nil_iff.1 habove e hmem
  have hneg := List.filter_eq_nil_iff.1 hbelow e hmem
  simp only [decide_eq_true_eq] at hpos hneg
  omega

/-- A value with dimensions has a unit as long as the base units have different names. -/
theorem preferredUnit?_ne_none_of_nodup {p : Preferences} {d : Dims}
    (hnodup : [p.lengthBase, p.forceBase, p.timeBase, "kg", "rad"].Nodup) (hd : d.isZero = false) :
    preferredUnit? p d ≠ none := by
  intro hnone
  have hzero := eq_zero_of_toLabel? hnone
  rw [NameMap.entries_ofList] at hzero
  · simp only [List.forall_mem_cons, List.not_mem_nil, false_imp_iff, implies_true, and_true] at hzero
    obtain ⟨hlength, hforce, htime, hmass, hangle⟩ := hzero
    have hexact : d.exact = 0 := by
      funext b
      cases b <;> assumption
    rw [Dims.isZero_iff.2 hexact] at hd
    cases hd
  · exact hnodup

theorem preferredUnit?_ne_none {p : Preferences} (hp : p.IsNamed) {d : Dims}
    (hd : d.isZero = false) : preferredUnit? p d ≠ none :=
  preferredUnit?_ne_none_of_nodup (nodup_baseUnits hp) hd

end UnitSheet
