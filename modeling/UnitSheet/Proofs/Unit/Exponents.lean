import UnitSheet.Proofs.Unit.Exact
import UnitSheet.Proofs.Unit.LabelText
import UnitSheet.Unit.Registry

set_option autoImplicit false

namespace UnitSheet

/-- The dimensions of a registered unit; other names count for nothing. -/
def unitExact (name : String) : Base → Int := ((unitDef? name).map fun u => u.dims.exact).getD 0

def powersExact (ps : List UnitPower) : Base → Int :=
  (ps.map fun p => p.power • unitExact p.name).sum

def ArePowersKnown (ps : List UnitPower) : Prop := ∀ p ∈ ps, isUnitName p.name = true

theorem unitExact_of_unitDef? {name : String} {u : UnitDef} (h : unitDef? name = some u) :
    unitExact name = u.dims.exact := by
  rw [unitExact, h]
  rfl

theorem powersExact_cons (p : UnitPower) (ps : List UnitPower) :
    powersExact (p :: ps) = p.power • unitExact p.name + powersExact ps := by
  rw [powersExact, List.map_cons, List.sum_cons, powersExact]

theorem powersExact_append (ps qs : List UnitPower) :
    powersExact (ps ++ qs) = powersExact ps + powersExact qs := by
  rw [powersExact, List.map_append, List.sum_append, powersExact, powersExact]

theorem unitDef?_eq_some_mem {name : String} {u : UnitDef} (h : unitDef? name = some u) :
    (name, u) ∈ unitRegistry := by
  unfold unitDef? at h
  generalize unitRegistry = entries at h ⊢
  induction entries with
  | nil => cases h
  | cons e entries ih =>
    rw [List.lookup_cons] at h
    split at h
    · rename_i heq
      obtain rfl := Option.some.inj h
      rw [LawfulBEq.eq_of_beq heq]
      exact List.mem_cons_self
    · exact List.mem_cons_of_mem e (ih h)

theorem fits_unitExact (name : String) : Fits (unitExact name) := by
  have hall : ∀ e ∈ unitRegistry, ∀ b ∈ [Base.length, .mass, .time, .force, .angle],
      (e.2.dims.exact b).natAbs ≤ 2 ^ 53 := by
    decide +kernel
  cases h : unitDef? name with
  | none =>
    rw [unitExact, h]
    exact fits_zero
  | some u =>
    rw [unitExact_of_unitDef? h]
    intro b
    refine hall _ (unitDef?_eq_some_mem h) b ?_
    cases b <;> decide

theorem isUnitWord_of_isUnitName {name : String} (h : isUnitName name = true) :
    IsUnitWord name := by
  obtain ⟨u, hu⟩ := Option.isSome_iff_exists.1 h
  have hall : ∀ e ∈ unitRegistry, e.1 ≠ "" ∧ e.1.toList.all isAsciiLetter = true := by
    decide +kernel
  obtain ⟨hne, hletters⟩ := hall _ (unitDef?_eq_some_mem hu)
  exact ⟨hne, List.all_eq_true.1 hletters⟩

namespace UnitExponents

def exact (m : UnitExponents) : Base → Int := powersExact (powersOf m.entries)

def AreKnown (m : UnitExponents) : Prop := ∀ e ∈ m.entries, isUnitName e.1 = true

section
variable {m other : UnitExponents}

theorem powersExact_powersOf_cons (e : String × Int) (entries : List (String × Int)) :
    powersExact (powersOf (e :: entries)) =
      e.2 • unitExact e.1 + powersExact (powersOf entries) :=
  powersExact_cons _ _

theorem powersExact_setEntry (name : String) (power : Int) (entries : List (String × Int)) :
    powersExact (powersOf (setEntry name ((entries.lookup name).getD 0 + power) entries)) =
      powersExact (powersOf entries) + power • unitExact name := by
  induction entries with
  | nil =>
    change powersExact [⟨name, 0 + power⟩] = powersExact [] + _
    rw [powersExact_cons, Int.zero_add, add_comm]
  | cons e entries ih =>
    rw [setEntry, List.lookup_cons]
    by_cases he : e.1 = name
    · rw [if_pos he, he, beq_self_eq_true]
      change powersExact (powersOf ((name, e.2 + power) :: entries)) = _
      rw [powersExact_powersOf_cons, powersExact_powersOf_cons, he]
      module
    · have hbeq : (name == e.1) = false := beq_eq_false_iff_ne.2 fun h => he h.symm
      rw [if_neg he, hbeq]
      change powersExact (powersOf (e :: setEntry name _ entries)) = _
      rw [powersExact_powersOf_cons, powersExact_powersOf_cons, ih]
      module

theorem exact_add (m : UnitExponents) (name : String) (power : Int) :
    (m.add name power).exact = m.exact + power • unitExact name :=
  powersExact_setEntry name power m.entries

theorem powersExact_filter {keep : String × Int → Bool} {entries : List (String × Int)}
    (h : ∀ e ∈ entries, keep e = false → e.2 = 0) :
    powersExact (powersOf (entries.filter keep)) = powersExact (powersOf entries) := by
  induction entries with
  | nil => rfl
  | cons e entries ih =>
    have ih := ih fun e' he' => h e' (List.mem_cons_of_mem e he')
    rw [List.filter_cons, powersExact_powersOf_cons]
    split
    · rw [powersExact_powersOf_cons, ih]
    · rename_i hkeep
      rw [h e List.mem_cons_self (by simpa using hkeep), ih, zero_smul, zero_add]

theorem exact_nonzero (m : UnitExponents) : m.nonzero.exact = m.exact := by
  refine powersExact_filter fun e _ hkeep => ?_
  simpa using hkeep

theorem powersExact_ordered (m : UnitExponents) : powersExact (powersOf m.ordered) = m.exact := by
  unfold ordered exact
  generalize m.entries = entries
  induction entries with
  | nil => rfl
  | cons e entries ih =>
    rw [powersOf, List.map_append, powersExact_append] at ih ⊢
    change powersExact (powersOf _) + powersExact (powersOf _) = _ at ih
    change powersExact (powersOf _) + powersExact (powersOf _) = _
    rw [powersExact_powersOf_cons, ← ih, List.filter_cons, List.filter_cons]
    rcases Int.lt_trichotomy e.2 0 with hneg | hzero | hpos
    · rw [if_neg (by simpa using Int.le_of_lt hneg), if_pos (by simpa using hneg),
        powersExact_powersOf_cons]
      module
    · rw [if_neg (by simp [hzero]), if_neg (by simp [hzero]), hzero]
      module
    · rw [if_pos (by simpa using hpos), if_neg (by simpa using Int.le_of_lt hpos),
        powersExact_powersOf_cons]
      module

def addAll (m : UnitExponents) (ps : List UnitPower) : UnitExponents :=
  ps.foldl (fun m p => m.add p.name p.power) m

theorem exact_addAll (m : UnitExponents) (ps : List UnitPower) :
    (m.addAll ps).exact = m.exact + powersExact ps := by
  induction ps generalizing m with
  | nil => exact (add_zero _).symm
  | cons p ps ih =>
    change ((m.add p.name p.power).addAll ps).exact = _
    rw [ih, exact_add, powersExact_cons, add_assoc]

theorem powersExact_smul (n : Int) (entries : List (String × Int)) :
    powersExact (powersOf (entries.map fun e => (e.1, n * e.2))) =
      n • powersExact (powersOf entries) := by
  induction entries with
  | nil => exact (smul_zero n).symm
  | cons e entries ih =>
    rw [List.map_cons, powersExact_powersOf_cons, powersExact_powersOf_cons, ih]
    module

theorem combine_eq (m : UnitExponents) (sign : Int) (other : UnitExponents) : m.combine sign other =
    (m.addAll (powersOf (other.entries.map fun e => (e.1, sign * e.2)))).nonzero := by
  rw [addAll, powersOf, List.map_map, List.foldl_map]
  rfl

/-- Products of labels add their dimensions, quotients subtract them. -/
theorem exact_combine (m : UnitExponents) (sign : Int) (other : UnitExponents) :
    (m.combine sign other).exact = m.exact + sign • other.exact := by
  rw [combine_eq, exact_nonzero, exact_addAll, powersExact_smul]
  rfl

theorem exact_scale (m : UnitExponents) (n : Int) : (m.scale n).exact = n • m.exact := by
  rw [exact, exact, ← powersExact_smul]
  simp only [scale, NameMap.mapValues, Int.mul_comm]

theorem forall_mem_add {P : String → Prop} {name : String} {power : Int}
    (hm : ∀ e ∈ m.entries, P e.1) (hname : P name) : ∀ e ∈ (m.add name power).entries, P e.1 := by
  intro e he
  have hmem : e.1 ∈ (m.add name power).entries.map Prod.fst := List.mem_map_of_mem he
  change e.1 ∈ (setEntry _ _ m.entries).map Prod.fst at hmem
  rw [map_fst_setEntry] at hmem
  have hold : ∀ n ∈ m.entries.map Prod.fst, P n := by
    intro n hn
    obtain ⟨e', he', rfl⟩ := List.mem_map.1 hn
    exact hm e' he'
  split at hmem
  · exact hold _ hmem
  · rcases List.mem_append.1 hmem with hmem | hmem
    · exact hold _ hmem
    · rw [List.mem_singleton.1 hmem]
      exact hname

theorem forall_mem_addAll {P : String → Prop} {ps : List UnitPower} (hm : ∀ e ∈ m.entries, P e.1)
    (hps : ∀ p ∈ ps, P p.name) : ∀ e ∈ (m.addAll ps).entries, P e.1 := by
  induction ps generalizing m with
  | nil => exact hm
  | cons p ps ih =>
    have hp : ∀ e ∈ (m.add p.name p.power).entries, P e.1 :=
      forall_mem_add hm (hps p List.mem_cons_self)
    exact ih hp fun q hq => hps q (List.mem_cons_of_mem p hq)

theorem forall_mem_combine {P : String → Prop} {sign : Int} (hm : ∀ e ∈ m.entries, P e.1)
    (hother : ∀ e ∈ other.entries, P e.1) : ∀ e ∈ (m.combine sign other).entries, P e.1 := by
  intro e he
  rw [combine_eq] at he
  refine forall_mem_addAll hm (fun p hp => ?_) e (List.mem_of_mem_filter he)
  obtain ⟨e', he', rfl⟩ := List.mem_map.1 hp
  obtain ⟨e'', he'', rfl⟩ := List.mem_map.1 he'
  exact hother e'' he''

theorem areKnown_addAll {ps : List UnitPower} (hm : m.AreKnown) (hps : ArePowersKnown ps) :
    (m.addAll ps).AreKnown :=
  forall_mem_addAll (P := fun n => isUnitName n = true) hm hps

theorem areKnown_nonzero (hm : m.AreKnown) : m.nonzero.AreKnown :=
  fun e he => hm e (List.mem_of_mem_filter he)

theorem areKnown_combine {sign : Int} (hm : m.AreKnown) (hother : other.AreKnown) :
    (m.combine sign other).AreKnown :=
  forall_mem_combine (P := fun n => isUnitName n = true) hm hother

theorem areKnown_scale {n : Int} (hm : m.AreKnown) : (m.scale n).AreKnown := by
  intro e he
  obtain ⟨e', he', rfl⟩ := List.mem_map.1 he
  exact hm e' he'

theorem arePowersKnown_ordered (hm : m.AreKnown) : ArePowersKnown (powersOf m.ordered) := by
  intro p hp
  obtain ⟨e, he, rfl⟩ := List.mem_map.1 hp
  rcases List.mem_append.1 he with he | he
  · exact hm e (List.mem_of_mem_filter he)
  · exact hm e (List.mem_of_mem_filter he)

end

end UnitExponents

end UnitSheet
