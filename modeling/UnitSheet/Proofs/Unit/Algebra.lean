import UnitSheet.Proofs.Quantity.Coherence
import UnitSheet.Proofs.Store

set_option autoImplicit false

namespace UnitSheet

theorem isUnitWord_of_ofChars? {cs : List Char} {u : UnitPower}
    (h : UnitPower.ofChars? cs = some u) : IsUnitWord u.name := by
  unfold UnitPower.ofChars? at h
  dsimp only at h
  split at h
  · cases h
  · rename_i hne
    have hword : IsUnitWord (String.ofList (cs.takeWhile isAsciiLetter)) := by
      refine ⟨hne, fun c hc => ?_⟩
      rw [String.toList_ofList] at hc
      exact List.mem_takeWhile_imp hc
    split at h
    · obtain rfl := Option.some.inj h
      exact hword
    · split at h
      · obtain rfl := Option.some.inj h
        exact hword
      · cases h
    · split at h
      · obtain rfl := Option.some.inj h
        exact hword
      · cases h
    · cases h

theorem exists_of_mapM_ofPart? {parts : List (List Char × Int)} {ps : List UnitPower}
    (h : parts.mapM UnitPower.ofPart? = some ps) :
    ∀ p ∈ ps, ∃ part, UnitPower.ofPart? part = some p := by
  induction parts generalizing ps with
  | nil =>
    obtain rfl := Option.some.inj h
    exact fun p hp => absurd hp List.not_mem_nil
  | cons first parts ih =>
    rw [List.mapM_cons] at h
    obtain ⟨q, hq, h⟩ := Option.bind_eq_some_iff.1 h
    obtain ⟨qs, hqs, h⟩ := Option.bind_eq_some_iff.1 h
    obtain rfl := Option.some.inj h
    intro p hp
    rcases List.mem_cons.1 hp with rfl | hp
    · exact ⟨first, hq⟩
    · exact ih hqs p hp

namespace UnitExponents

def exponent (m : UnitExponents) (name : String) : Int := (m.get? name).getD 0

section
variable {m other : UnitExponents} {name : String}

theorem exponent_add (m : UnitExponents) (name n : String) (power : Int) :
    (m.add name power).exponent n = m.exponent n + if n = name then power else 0 := by
  rw [add, exponent, NameMap.get?_set]
  split
  · rename_i h
    rw [h]
    rfl
  · exact (add_zero _).symm

def Holds (m : UnitExponents) (f : String → Int) : Prop :=
  ∀ n, m.get? n = if f n = 0 then none else some (f n)

theorem exponent_addAll {entries : List (String × Int)} (h : (entries.map Prod.fst).Nodup)
    (m : UnitExponents) (n : String) :
    (m.addAll (powersOf entries)).exponent n = m.exponent n + (entries.lookup n).getD 0 := by
  induction entries generalizing m with
  | nil => exact (add_zero _).symm
  | cons e entries ih =>
    obtain ⟨hnew, hrest⟩ := List.nodup_cons.1 h
    change ((m.add e.1 e.2).addAll (powersOf entries)).exponent n = _
    rw [ih hrest, exponent_add, lookup_cons_eq]
    by_cases hn : n = e.1
    · rw [if_pos hn, if_pos hn, lookup_eq_none (hn ▸ hnew), Option.getD_none, Option.getD_some,
        add_zero]
    · rw [if_neg hn, if_neg hn, add_zero]

theorem get?_nonzero (m : UnitExponents) (n : String) :
    m.nonzero.get? n = (m.get? n).filter (· != 0) :=
  m.get?_filter _ n

theorem holds_nonzero (m : UnitExponents) : m.nonzero.Holds m.exponent := by
  intro n
  rw [get?_nonzero, exponent]
  cases m.get? n with
  | none => rfl
  | some power =>
    rw [Option.filter_some, Option.getD_some]
    by_cases h : power = 0 <;> simp [h]

theorem exponent_nonzero (m : UnitExponents) (n : String) : m.nonzero.exponent n = m.exponent n := by
  rw [exponent, m.holds_nonzero n]
  split
  · rename_i h
    exact h.symm
  · rfl

theorem exponent_combine (m : UnitExponents) (sign : Int) (other : UnitExponents) (n : String) :
    (m.combine sign other).exponent n = m.exponent n + sign * other.exponent n := by
  have hnodup : ((other.mapValues (sign * ·)).entries.map Prod.fst).Nodup :=
    (other.mapValues (sign * ·)).nodup
  have hmultiple : ((other.mapValues (sign * ·)).get? n).getD 0 = sign * other.exponent n := by
    rw [NameMap.get?_mapValues, exponent]
    cases other.get? n with
    | none => exact (mul_zero sign).symm
    | some power => rfl
  rw [combine_eq, exponent_nonzero, ← hmultiple]
  exact exponent_addAll hnodup m n

theorem exponent_scale (m : UnitExponents) (k : Int) (n : String) :
    (m.scale k).exponent n = k * m.exponent n := by
  rw [scale, exponent, NameMap.get?_mapValues, exponent]
  cases m.get? n with
  | none => exact (mul_zero k).symm
  | some power => exact mul_comm power k

theorem nodup_ordered (m : UnitExponents) : (m.ordered.map Prod.fst).Nodup := by
  have hperm := List.filter_append_perm (fun e : String × Int => decide (0 < e.2)) m.entries
  have hsub : m.ordered.Sublist (m.entries.filter (fun e => decide (0 < e.2)) ++
      m.entries.filter (fun e => !decide (0 < e.2))) := by
    refine (List.Sublist.refl _).append (List.monotone_filter_right _ fun e he => ?_)
    simp only [decide_eq_true_eq] at he
    simp only [Bool.not_eq_true', decide_eq_false_iff_not]
    omega
  exact ((hperm.map Prod.fst).nodup_iff.2 m.nodup).sublist (hsub.map Prod.fst)

theorem lookup_ordered (m : UnitExponents) (n : String) :
    (m.ordered.lookup n).getD 0 = m.exponent n := by
  rw [ordered, List.lookup_append, lookup_filter m.nodup, lookup_filter m.nodup, exponent]
  change _ = (m.entries.lookup n).getD 0
  cases m.entries.lookup n with
  | none => rfl
  | some power =>
    simp only [Option.filter_some, decide_eq_true_eq]
    rcases Int.lt_trichotomy power 0 with hneg | hzero | hpos
    · rw [if_neg (by omega), if_pos hneg]
      rfl
    · rw [if_neg (by omega), if_neg (by omega), hzero]
      rfl
    · rw [if_pos hpos]
      rfl

theorem ordered_eq_nil_iff : m.ordered = [] ↔ ∀ n, m.exponent n = 0 := by
  constructor
  · intro h n
    rw [← lookup_ordered, h]
    rfl
  · intro h
    cases hordered : m.ordered with
    | nil => rfl
    | cons e rest =>
      have hzero : e.2 = 0 := by
        rw [← h e.1, ← lookup_ordered, hordered, lookup_cons_eq, if_pos rfl]
        rfl
      have hmem : e ∈ m.ordered := hordered ▸ List.mem_cons_self
      rcases List.mem_append.1 hmem with hmem | hmem
      · have hpos := (List.mem_filter.1 hmem).2
        simp only [decide_eq_true_eq] at hpos
        omega
      · have hneg := (List.mem_filter.1 hmem).2
        simp only [decide_eq_true_eq] at hneg
        omega

end

end UnitExponents

/-- The label writes the exponents; zeros alone have no label. -/
def WritesExponents (unit : Option String) (f : String → Int) : Prop :=
  (unit = none ↔ f = 0) ∧ ∃ m, unitExponents unit = .ok m ∧ m.Holds f

namespace UnitExponents

theorem toLabel?_eq_none_iff_exponent {m : UnitExponents} : m.toLabel? = none ↔ m.exponent = 0 :=
  toLabel?_eq_none_iff.trans (ordered_eq_nil_iff.trans funext_iff.symm)

/-- The label of exponents reads as these exponents. -/
theorem writesExponents_toLabel? {m : UnitExponents} (hword : ∀ e ∈ m.entries, IsUnitWord e.1) :
    WritesExponents m.toLabel? m.exponent := by
  refine ⟨toLabel?_eq_none_iff_exponent, ?_⟩
  cases hlabel : m.toLabel? with
  | none =>
    refine ⟨.empty, rfl, fun n => ?_⟩
    rw [toLabel?_eq_none_iff_exponent.1 hlabel]
    rfl
  | some label =>
    have hread : (addAll .empty (powersOf m.ordered)).exponent = m.exponent := by
      funext n
      rw [exponent_addAll m.nodup_ordered, lookup_ordered]
      exact zero_add _
    refine ⟨(addAll .empty (powersOf m.ordered)).nonzero, ?_, hread ▸ holds_nonzero _⟩
    rw [unitExponents, labelExponents, ofLabel?_eq, labelPowers?_of_toLabel? hword hlabel]
    rfl

theorem isUnitWord_of_unitExponents {m : UnitExponents} {unit : Option String}
    (h : unitExponents unit = .ok m) : ∀ e ∈ m.entries, IsUnitWord e.1 := by
  cases unit with
  | none =>
    obtain rfl := Except.ok.inj h
    exact fun e he => absurd he List.not_mem_nil
  | some label =>
    rw [unitExponents, labelExponents, ofLabel?_eq] at h
    cases hps : labelPowers? label with
    | none =>
      rw [hps] at h
      cases h
    | some ps =>
      rw [hps] at h
      obtain rfl := Except.ok.inj h
      have hempty : ∀ e ∈ (NameMap.empty (α := Int)).entries, IsUnitWord e.1 :=
        fun e he => absurd he List.not_mem_nil
      refine fun e he => forall_mem_addAll hempty (fun p hp => ?_) e (List.mem_of_mem_filter he)
      obtain ⟨part, hpart⟩ := exists_of_mapM_ofPart? hps p hp
      obtain ⟨u, hu, rfl⟩ := Option.map_eq_some_iff.1 hpart
      have hword := isUnitWord_of_ofChars? hu
      exact hword

end UnitExponents

section
variable {a b : Option String} {l r : UnitExponents}

theorem writesExponents_combineUnits (hl : unitExponents a = .ok l) (hr : unitExponents b = .ok r)
    (sign : Int) : ∃ u, combineUnits sign a b = .ok u ∧
      WritesExponents u fun n => l.exponent n + sign * r.exponent n := by
  refine ⟨(l.combine sign r).toLabel?, by rw [combineUnits_eq, hl, hr], ?_⟩
  rw [← funext (UnitExponents.exponent_combine l sign r)]
  exact UnitExponents.writesExponents_toLabel? (UnitExponents.forall_mem_combine
    (UnitExponents.isUnitWord_of_unitExponents hl) (UnitExponents.isUnitWord_of_unitExponents hr))

theorem writesExponents_scaleUnit (hl : unitExponents a = .ok l) (k : Int) :
    ∃ u, scaleUnit a k = .ok u ∧ WritesExponents u fun n => k * l.exponent n := by
  rw [← funext (UnitExponents.exponent_scale l k)]
  have hword : ∀ e ∈ (l.scale k).entries, IsUnitWord e.1 := by
    intro e he
    obtain ⟨e', he', rfl⟩ := List.mem_map.1 he
    exact UnitExponents.isUnitWord_of_unitExponents hl e' he'
  refine ⟨(l.scale k).toLabel?, ?_, UnitExponents.writesExponents_toLabel? hword⟩
  cases a with
  | none =>
    obtain rfl := Except.ok.inj hl
    rfl
  | some label =>
    change labelExponents label = .ok l at hl
    rw [scaleUnit, hl]
    rfl

end

/-- Labels and exponents are two forms of the same thing. Exponents of names made of letters are read
back from their label, zeros apart; the label of a product writes the sum of the exponents of its
operands, that of a quotient the difference and that of a power the multiple; and there is no label
exactly if all exponents are zero. -/
theorem exponents_of_labels :
    (∀ m : UnitExponents, (∀ e ∈ m.entries, IsUnitWord e.1) →
      WritesExponents m.toLabel? m.exponent) ∧
    ∀ a b l r, unitExponents a = .ok l → unitExponents b = .ok r →
      (∃ u, combineUnits 1 a b = .ok u ∧ WritesExponents u (l.exponent + r.exponent)) ∧
      (∃ u, combineUnits (-1) a b = .ok u ∧ WritesExponents u (l.exponent - r.exponent)) ∧
      ∀ k : Int, ∃ u, scaleUnit a k = .ok u ∧ WritesExponents u (k • l.exponent) := by
  refine ⟨fun m hword => UnitExponents.writesExponents_toLabel? hword, fun a b l r hl hr =>
    ⟨?_, ?_, writesExponents_scaleUnit hl⟩⟩
  · obtain ⟨u, hu, hwrites⟩ := writesExponents_combineUnits hl hr 1
    have hsum : (fun n => l.exponent n + 1 * r.exponent n) = l.exponent + r.exponent := by
      funext n
      rw [one_mul]
      rfl
    exact ⟨u, hu, hsum ▸ hwrites⟩
  · obtain ⟨u, hu, hwrites⟩ := writesExponents_combineUnits hl hr (-1)
    have hdifference : (fun n => l.exponent n + -1 * r.exponent n) = l.exponent - r.exponent := by
      funext n
      rw [neg_one_mul, ← sub_eq_add_neg]
      rfl
    exact ⟨u, hu, hdifference ▸ hwrites⟩

/-- Exponents with a zero among them, and a load per length times an area. -/
theorem exponents_of_labels_loadRate :
    (UnitExponents.toLabel? (.ofList [("kip", 1), ("s", 0), ("ft", -2)]) = some "kip/ft^2" ∧
      WritesExponents (some "kip/ft^2")
        (UnitExponents.exponent (.ofList [("kip", 1), ("s", 0), ("ft", -2)]))) ∧
    ∃ l r, unitExponents (some "kip/ft") = .ok l ∧ unitExponents (some "ft^2") = .ok r ∧
      combineUnits 1 (some "kip/ft") (some "ft^2") = .ok (some "kip·ft") ∧
      WritesExponents (some "kip·ft") (l.exponent + r.exponent) := by
  have hlabel : UnitExponents.toLabel? (.ofList [("kip", 1), ("s", 0), ("ft", -2)]) =
      some "kip/ft^2" := by decide +kernel
  have hletters : ∀ e ∈ (NameMap.ofList [("kip", (1 : Int)), ("s", 0), ("ft", -2)]).entries,
      e.1 ≠ "" ∧ e.1.toList.all isAsciiLetter = true := by decide +kernel
  have hwrites := exponents_of_labels.1 (.ofList [("kip", 1), ("s", 0), ("ft", -2)]) fun e he =>
    ⟨(hletters e he).1, List.all_eq_true.1 (hletters e he).2⟩
  have hread (unit : Option String) (h : (unitExponents unit).isOk = true) :
      ∃ m, unitExponents unit = .ok m := by
    cases hm : unitExponents unit with
    | ok m => exact ⟨m, rfl⟩
    | error e =>
      rw [hm] at h
      cases h
  obtain ⟨l, hl⟩ := hread (some "kip/ft") (by decide +kernel)
  obtain ⟨r, hr⟩ := hread (some "ft^2") (by decide +kernel)
  obtain ⟨u, hu, hsum⟩ := (exponents_of_labels.2 _ _ l r hl hr).1
  have hproduct : combineUnits 1 (some "kip/ft") (some "ft^2") = .ok (some "kip·ft") := by
    decide +kernel
  obtain rfl := Except.ok.inj (hproduct.symm.trans hu)
  exact ⟨⟨hlabel, hlabel ▸ hwrites⟩, l, r, hl, hr, hproduct, hsum⟩

end UnitSheet
