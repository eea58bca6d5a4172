import UnitSheet.Proofs.Quantity.Coherence

set_option autoImplicit false

namespace UnitSheet

/-- Where a label stands for a unit, its exponents can be read as well, and their names are
registered. The vector of the unit is that of the exponents, brought through words and doubles, so it
is exact if and only if these hold all five sums; up to `2 ^ 53` they do. The label of the exponents
stands for a unit with the same vector, whatever it lost, unless the size of that unit breaks down;
and exponents without a label belong to a unit without dimensions. -/
theorem exponents_of_resolveUnit {label : String} {u : UnitDef} (h : resolveUnit label = .ok u) :
    ∃ m, labelExponents label = .ok m ∧ m.AreKnown ∧
      u.dims = (Dims.ofExact m.exact).settle ∧
      (u.dims.exact = m.exact ↔ ∀ b, IsExactExponent (m.exact b)) ∧
      (m.toLabel? = none → m.exact = 0 ∧ u.dims = .zero) ∧
      ∀ canonical, m.toLabel? = some canonical →
        (∃ v, resolveUnit canonical = .ok v ∧ v.dims = u.dims) ∨
          ∃ fault, resolveUnit canonical = .error (.fault fault) := by
  obtain ⟨ps, hps, hpowers, hdims⟩ := dims_of_resolveUnit h
  -- The factors in their order and the exponents by name are two sums of the same powers.
  obtain ⟨m, hm, hknown, hsum⟩ := (Labels.written hps hpowers).exponents
  rw [← hsum] at hdims
  have hcanonical : Labels m.toLabel? m.exact := labels_toLabel? hknown
  refine ⟨m, hm, hknown, hdims, hdims ▸ Dims.exact_settle_iff, fun hnone => ?_,
    fun canonical hlabel => ?_⟩
  · have hzero : m.exact = 0 := (hnone ▸ hcanonical).eq_zero
    refine ⟨hzero, Dims.exact_inj ?_⟩
    rw [hdims, hzero, Dims.exact_settle fits_zero, Dims.exact_zero]
  · rw [hdims]
    exact resolveUnit_of_labels_settled (hlabel ▸ hcanonical)

theorem exists_of_toOption {ε α β : Type} {x : Except ε α} {f : α → β} {b : β}
    (h : x.toOption.map f = some b) : ∃ a, x = .ok a ∧ f a = b := by
  cases x with
  | ok a => exact ⟨a, rfl, Option.some.inj h⟩
  | error e => cases h

/-- A force times a time for an area, with a second that cancels: the label of the exponents has
another order, and its unit the same dimensions. -/
theorem exponents_of_resolveUnit_forceRate : ∃ u m v,
    resolveUnit "N·s*sec/m^2·s" = .ok u ∧ labelExponents "N·s*sec/m^2·s" = .ok m ∧ m.AreKnown ∧
      m.entries = [("N", 1), ("sec", 1), ("m", -2)] ∧ u.dims.exact = m.exact ∧
      m.toLabel? = some "N·sec/m^2" ∧ resolveUnit "N·sec/m^2" = .ok v ∧
      v.dims = u.dims ∧ v.dims = ⟨-2, 0, 1, 1, 0⟩ := by
  obtain ⟨u, hu, -⟩ : ∃ u, resolveUnit "N·s*sec/m^2·s" = .ok u ∧ u.dims = ⟨-2, 0, 1, 1, 0⟩ :=
    exists_of_toOption (by decide +kernel)
  obtain ⟨v, hv, hvdims⟩ : ∃ v, resolveUnit "N·sec/m^2" = .ok v ∧ v.dims = ⟨-2, 0, 1, 1, 0⟩ :=
    exists_of_toOption (by decide +kernel)
  obtain ⟨m, hm, hknown, -, hexact, -, hcanonical⟩ := exponents_of_resolveUnit hu
  have hread : (labelExponents "N·s*sec/m^2·s").map (fun m => (m.entries, m.toLabel?)) =
      .ok ([("N", 1), ("sec", 1), ("m", -2)], some "N·sec/m^2") := by
    decide +kernel
  rw [hm] at hread
  obtain ⟨hentries, hlabel⟩ := Prod.mk.inj (Except.ok.inj hread)
  have hsmall : ∀ b, (m.exact b).natAbs ≤ 2 ^ 53 := by
    intro b
    rw [UnitExponents.exact, hentries]
    cases b <;> decide +kernel
  have hdims : v.dims = u.dims := by
    rcases hcanonical _ hlabel with ⟨w, hw, hdims⟩ | ⟨fault, hfault⟩
    · obtain rfl := Except.ok.inj (hv.symm.trans hw)
      exact hdims
    · cases hv.symm.trans hfault
  exact ⟨u, m, v, hu, hm, hknown, hentries,
    hexact.2 fun b => isExactExponent_of_natAbs_le (hsmall b), hlabel, hv, hdims, hvdims⟩

/-- All sums of the written exponents are within `2 ^ 53`, but a pascal counts for two lengths below
the bar: the odd number of lengths is beyond `2 ^ 53`, and the unit loses its last bit. -/
theorem dims_of_oddLength : ∃ u m ps,
    labelPowers? "Pa^9007199254740991·m" = some ps ∧
      (∀ qs ∈ ps.sublists, (qs.map UnitPower.power).sum.natAbs ≤ 2 ^ 53) ∧
      resolveUnit "Pa^9007199254740991·m" = .ok u ∧
      labelExponents "Pa^9007199254740991·m" = .ok m ∧
      u.dims.exact .length = -18014398509481980 ∧ m.exact .length = -18014398509481981 ∧
      u.dims.exact ≠ m.exact := by
  have hps : labelPowers? "Pa^9007199254740991·m" = some [⟨"Pa", 9007199254740991⟩, ⟨"m", 1⟩] := by
    decide +kernel
  obtain ⟨u, hu, hunit⟩ : ∃ u, resolveUnit "Pa^9007199254740991·m" = .ok u ∧
      u.dims.exact .length = -18014398509481980 := exists_of_toOption (by decide +kernel)
  obtain ⟨m, hm, hlength⟩ : ∃ m, labelExponents "Pa^9007199254740991·m" = .ok m ∧
      m.exact .length = -18014398509481981 := exists_of_toOption (by decide +kernel)
  refine ⟨u, m, _, hps, by decide +kernel, hu, hm, hunit, hlength, fun hsame => ?_⟩
  rw [hsame, hlength] at hunit
  exact absurd hunit (by decide)

end UnitSheet
