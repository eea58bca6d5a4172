import UnitSheet.Evaluation
import UnitSheet.Proofs.Unit.Exact

set_option autoImplicit false

namespace UnitSheet

namespace Quantity

def whole? (q : Quantity) : Option Int :=
  match Binary.ofFloat? q.magnitude with
  | some n => if n.isWhole then some n.whole else none
  | none => none

section
variable {q r v : Quantity}

theorem measure_eq_iff : q.measure = r.measure ↔ q.dims = r.dims ∧ q.unit = r.unit := by
  rw [measure, measure, Measure.mk.injEq]

/-- Sums and differences take equal vectors, and show the unit of the left operand or else that of
the right one. -/
theorem sum_eq_ok {x : Float} {f : Failure}
    (h : (if q.isCompatible r then .ok ⟨x, q.dims, q.unit.or r.unit⟩ else .error f) =
      Except.ok v) : q.dims = r.dims ∧ v.dims = q.dims ∧ v.unit = q.unit.or r.unit := by
  split at h
  · rename_i hcompatible
    obtain rfl := Except.ok.inj h
    exact ⟨beq_iff_eq.1 hcompatible, rfl, rfl⟩
  · cases h

theorem add_eq_ok (h : q.add r = .ok v) :
    q.dims = r.dims ∧ v.dims = q.dims ∧ v.unit = q.unit.or r.unit := sum_eq_ok h

theorem subtract_eq_ok (h : q.subtract r = .ok v) :
    q.dims = r.dims ∧ v.dims = q.dims ∧ v.unit = q.unit.or r.unit := sum_eq_ok h

/-- The unit is dropped where the dimensions cancel, whatever the labels of the operands are. -/
theorem withProductUnit_eq_ok {sign : Int} {x : Float} {d : Dims}
    (h : q.withProductUnit sign r x d = .ok v) : v.dims = d.settle ∧
      (d.isZero = true ∧ v.unit = none ∨ combineUnits sign q.unit r.unit = .ok v.unit) := by
  unfold withProductUnit at h
  split at h
  · rename_i hzero
    obtain rfl := Except.ok.inj h
    exact ⟨rfl, .inl ⟨hzero, rfl⟩⟩
  · split at h
    · cases h
    · rename_i unit hunit
      obtain rfl := Except.ok.inj h
      exact ⟨rfl, .inr hunit⟩

theorem multiply_eq_ok (h : q.multiply r = .ok v) :
    v.dims = (Dims.ofExact (q.dims.exact + r.dims.exact)).settle ∧
      ((Dims.ofExact (q.dims.exact + r.dims.exact)).isZero = true ∧ v.unit = none ∨
        combineUnits 1 q.unit r.unit = .ok v.unit) := by
  rw [← Dims.add_eq_ofExact]
  exact withProductUnit_eq_ok h

theorem divide_eq_ok (h : q.divide r = .ok v) :
    v.dims = (Dims.ofExact (q.dims.exact - r.dims.exact)).settle ∧
      ((Dims.ofExact (q.dims.exact - r.dims.exact)).isZero = true ∧ v.unit = none ∨
        combineUnits (-1) q.unit r.unit = .ok v.unit) := by
  unfold divide at h
  split at h
  · cases h
  · rw [← Dims.sub_eq_ofExact]
    exact withProductUnit_eq_ok h

/-- An exponent has no dimensions; a whole one multiplies those of the base, and for any other the
base has none. -/
theorem power_eq_ok (h : q.power r = .ok v) : r.dims.exact = 0 ∧
    ((∃ n, r.whole? = some n ∧ v.dims = (Dims.ofExact (n • q.dims.exact)).settle ∧
        scaleUnit q.unit n = .ok v.unit) ∨
      (r.whole? = none ∧ q.dims.exact = 0 ∧ v.dims = q.dims ∧ v.unit = none)) := by
  unfold power at h
  dsimp only at h
  split at h
  · cases h
  · rename_i hexponent
    have hzero : r.dims.exact = 0 := Dims.isZero_iff.1 (by simpa [isDimensionless] using hexponent)
    refine ⟨hzero, ?_⟩
    split at h
    · cases h
    · rename_i n hn
      split at h
      · cases h
      · rename_i hwhole
        split at h
        · cases h
        · split at h
          · cases h
          · split at h
            · rename_i hbroken
              -- A base with dimensions has been refused.
              obtain rfl := Except.ok.inj h
              have hbroken : n.isWhole = false := by simpa using hbroken
              refine .inr ⟨by simp [whole?, hn, hbroken], Dims.isZero_iff.1 ?_, rfl, rfl⟩
              simpa [hbroken, isDimensionless] using hwhole
            · rename_i hn'
              have hn' : n.isWhole = true := by simpa using hn'
              split at h
              · cases h
              · rename_i dims hdims
                split at h
                · cases h
                · rename_i unit hunit
                  obtain rfl := Except.ok.inj h
                  refine .inl ⟨n.whole, by simp [whole?, hn, hn'], ?_, hunit⟩
                  exact congrArg Dims.settle (Dims.scale?_eq_some hdims)

theorem signApply_eq_ok {sign : SignOp} (h : sign.apply q = .ok v) :
    v.dims = q.dims ∧ v.unit = q.unit := by
  unfold SignOp.apply at h
  split at h
  · obtain rfl := Except.ok.inj h
    exact ⟨rfl, rfl⟩
  · obtain rfl := Except.ok.inj h
    exact ⟨rfl, rfl⟩
  · cases h

end

end Quantity

end UnitSheet
