import UnitSheet.Proofs.Document.Names

set_option autoImplicit false

/-!
Dimensions by the rules, as integers without bound: a literal has those that its label writes, sums
and signs leave them, products and quotients add and subtract them, powers multiply them, and a name
has those of the formula that defined it last. The vectors of an evaluation are these, as long as none
of them is beyond `2 ^ 53`; a vector beyond loses its last bits, and sums no longer tell it from its
neighbours.
-/

namespace UnitSheet

/-- The dimensions of an expression on a line by the rules, `earlier` being the lines that had their
turns before it, the last one first. -/
inductive Measures (o : Options) : List (Line × Scope) → Scope → Expr → (Base → Int) → Prop
  | bare {earlier : List (Line × Scope)} {s : Scope} {x : Float} :
      Measures o earlier s (.literal x none) 0
  | written {earlier : List (Line × Scope)} {s : Scope} {x : Float} {label : String}
      {ps : List UnitPower} :
      labelPowers? label = some ps → Measures o earlier s (.literal x (some label)) (powersExact ps)
  | defined {earlier : List (Line × Scope)} {s s' : Scope} {l : Line} {n : String}
      {statement : Statement} {tier : Tier} {f : Base → Int} :
      (l.recompute o s').line.definedName? = some n → readLine l.text = .ok (statement, tier) →
        Measures o earlier s' statement.expr f → Measures o ((l, s') :: earlier) s (.name n) f
  | skipped {earlier : List (Line × Scope)} {s s' : Scope} {l : Line} {n : String}
      {f : Base → Int} :
      (l.recompute o s').line.definedName? ≠ some n →
        Measures o earlier s (.name n) f → Measures o ((l, s') :: earlier) s (.name n) f
  | unit {s : Scope} {n : String} :
      isUnitName n = true → Measures o [] s (.name n) (unitExact n)
  | cell {earlier : List (Line × Scope)} {s : Scope} {label : String} {a : Address}
      {statement : Statement} {f : Base → Int} :
      s.addresses (upper label) = .ok (some a) → s.sheet.formula (upper label) a = .ok statement →
        Measures o earlier s statement.expr f → Measures o earlier s (.cell label) f
  | signed {earlier : List (Line × Scope)} {s : Scope} {sign : SignOp} {e : Expr}
      {f : Base → Int} :
      Measures o earlier s e f → Measures o earlier s (.signed sign e) f
  | sum {earlier : List (Line × Scope)} {s : Scope} {op : BinaryOp} {left right : Expr}
      {f : Base → Int} :
      (op = .add ∨ op = .sub) → Measures o earlier s left f → Measures o earlier s right f →
        Measures o earlier s (.binary op left right) f
  | product {earlier : List (Line × Scope)} {s : Scope} {left right : Expr} {f g : Base → Int} :
      Measures o earlier s left f → Measures o earlier s right g →
        Measures o earlier s (.binary .mul left right) (f + g)
  | quotient {earlier : List (Line × Scope)} {s : Scope} {left right : Expr} {f g : Base → Int} :
      Measures o earlier s left f → Measures o earlier s right g →
        Measures o earlier s (.binary .div left right) (f - g)
  | power {earlier : List (Line × Scope)} {s : Scope} {left right : Expr} {f : Base → Int}
      {r : Quantity} {n : Int} :
      Measures o earlier s left f → Measures o earlier s right 0 → s.Denotes right r →
        r.whole? = some n → Measures o earlier s (.binary .pow left right) (n • f)
  | root {earlier : List (Line × Scope)} {s : Scope} {left right : Expr} {r : Quantity} :
      Measures o earlier s left 0 → Measures o earlier s right 0 → s.Denotes right r →
        r.whole? = none → Measures o earlier s (.binary .pow left right) 0

def IsMeasured (o : Options) (earlier : List (Line × Scope)) (s : Scope) (e : Expr) (q : Quantity) :
    Prop :=
  ∀ f, Measures o earlier s e f ↔ f = q.dims.exact

section
variable {o : Options} {earlier : List (Line × Scope)} {s : Scope} {e left right : Expr}
  {q v w : Quantity}

theorem Scope.Denotes.unique (hv : s.Denotes e v) (hw : s.Denotes e w) : w = v := by
  have h := (eval_eq_ok_iff_denotes.2 hw).symm.trans (eval_eq_ok_iff_denotes.2 hv)
  exact Except.ok.inj h

theorem denotes_of_valueAt {tier : Tier} {strict : Bool} {stack : List Address}
    (h : s.valueAt tier strict stack e = .ok q) : s.Denotes e q := by
  induction e generalizing q with
  | literal x unit => exact .literal (Tier.value_literal h)
  | name n => exact .name (Tier.value_name h)
  | cell label => exact denotes_of_evalCell stack label (Tier.value_cell h).2
  | signed sign operand ih =>
    obtain ⟨v, hv, happly⟩ := Tier.value_signed h
    exact .signed (ih hv) happly
  | binary op left right ihl ihr =>
    obtain ⟨v, w, hv, hw, happly⟩ := Tier.value_binary h
    exact .binary (ihl hv) (ihr hw) happly

theorem Measures.unique {f g : Base → Int} (hf : Measures o earlier s e f)
    (hg : Measures o earlier s e g) : f = g := by
  induction hf generalizing g with
  | bare =>
    cases hg
    rfl
  | written hps =>
    cases hg with
    | written hps' => rw [Option.some.inj (hps.symm.trans hps')]
  | defined hname hread _ ih =>
    cases hg with
    | defined _ hread' hg =>
      obtain ⟨rfl, rfl⟩ := Prod.mk.inj (Except.ok.inj (hread.symm.trans hread'))
      exact ih hg
    | skipped hother => exact absurd hname hother
  | skipped hother _ ih =>
    cases hg with
    | defined hname => exact absurd hname hother
    | skipped _ hg => exact ih hg
  | unit =>
    cases hg
    rfl
  | cell ha hformula _ ih =>
    cases hg with
    | cell ha' hformula' hg =>
      obtain rfl := Option.some.inj (Except.ok.inj (ha.symm.trans ha'))
      obtain rfl := Except.ok.inj (hformula.symm.trans hformula')
      exact ih hg
  | signed _ ih =>
    cases hg with
    | signed hg => exact ih hg
  | sum hop _ _ ih =>
    cases hg with
    | sum _ hg => exact ih hg
    | product | quotient | power | root => simp at hop
  | product _ _ ihl ihr =>
    cases hg with
    | sum hop => simp at hop
    | product hl hr => rw [ihl hl, ihr hr]
  | quotient _ _ ihl ihr =>
    cases hg with
    | sum hop => simp at hop
    | quotient hl hr => rw [ihl hl, ihr hr]
  | power _ _ hr hn ih =>
    cases hg with
    | sum hop => simp at hop
    | power hl _ hr' hn' =>
      rw [hr.unique hr', hn] at hn'
      rw [ih hl, Option.some.inj hn']
    | root _ _ hr' hn' =>
      rw [hr.unique hr', hn] at hn'
      cases hn'
  | root _ _ hr hn =>
    cases hg with
    | sum hop => simp at hop
    | power _ _ hr' hn' =>
      rw [hr.unique hr', hn] at hn'
      cases hn'
    | root => rfl

theorem IsMeasured.measures (h : IsMeasured o earlier s e q) : Measures o earlier s e q.dims.exact :=
  (h _).2 rfl

theorem isMeasured_of_measures (h : Measures o earlier s e q.dims.exact) :
    IsMeasured o earlier s e q :=
  fun _ => ⟨fun hf => hf.unique h, fun hf => hf ▸ h⟩

theorem isMeasured_literal {x : Float} {unit : Option String}
    (hfits : ∀ f, Measures o earlier s (.literal x unit) f → Fits f)
    (h : Quantity.ofUnit x unit = .ok q) : IsMeasured o earlier s (.literal x unit) q := by
  unfold Quantity.ofUnit at h
  split at h
  · obtain rfl := Except.ok.inj h
    refine isMeasured_of_measures ?_
    rw [Quantity.scalar, Dims.exact_zero]
    exact .bare
  · rename_i label
    split at h
    · cases h
    · rename_i u hu
      obtain rfl := Except.ok.inj h
      obtain ⟨ps, hps, -, hdims⟩ := resolveUnit_eq_ok hu
      have hexact : u.dims.exact = powersExact ps := hdims (hfits _ (.written hps))
      refine isMeasured_of_measures ?_
      rw [hexact]
      exact .written hps

theorem isMeasured_signed {sign : SignOp} (hv : IsMeasured o earlier s e v)
    (h : sign.apply v = .ok q) : IsMeasured o earlier s (.signed sign e) q := by
  refine isMeasured_of_measures (.signed ?_)
  rw [(Quantity.signApply_eq_ok h).1]
  exact hv.measures

theorem isMeasured_sum {op : BinaryOp} (hop : op = .add ∨ op = .sub)
    (hv : IsMeasured o earlier s left v) (hw : IsMeasured o earlier s right w)
    (hq : q.dims = v.dims) (hvw : v.dims = w.dims) :
    IsMeasured o earlier s (.binary op left right) q := by
  refine isMeasured_of_measures (.sum hop ?_ ?_)
  · rw [hq]
    exact hv.measures
  · rw [hq, hvw]
    exact hw.measures

theorem isMeasured_binary {op : BinaryOp}
    (hfits : ∀ f, Measures o earlier s (.binary op left right) f → Fits f)
    (hv : IsMeasured o earlier s left v) (hw : IsMeasured o earlier s right w)
    (hdenotes : s.Denotes right w) (h : op.apply v w = .ok q) :
    IsMeasured o earlier s (.binary op left right) q := by
  cases op with
  | add =>
    obtain ⟨hvw, hq, -⟩ := Quantity.add_eq_ok h
    exact isMeasured_sum (.inl rfl) hv hw hq hvw
  | sub =>
    obtain ⟨hvw, hq, -⟩ := Quantity.subtract_eq_ok h
    exact isMeasured_sum (.inr rfl) hv hw hq hvw
  | mul =>
    have hmeasures : Measures o earlier s (.binary .mul left right) (v.dims.exact + w.dims.exact) :=
      .product hv.measures hw.measures
    refine isMeasured_of_measures ?_
    rw [(Quantity.multiply_eq_ok h).1, Dims.exact_settle (hfits _ hmeasures)]
    exact hmeasures
  | div =>
    have hmeasures : Measures o earlier s (.binary .div left right) (v.dims.exact - w.dims.exact) :=
      .quotient hv.measures hw.measures
    refine isMeasured_of_measures ?_
    rw [(Quantity.divide_eq_ok h).1, Dims.exact_settle (hfits _ hmeasures)]
    exact hmeasures
  | pow =>
    obtain ⟨hzero, ⟨n, hn, hq, -⟩ | ⟨hn, hbase, hq, -⟩⟩ := Quantity.power_eq_ok h
    · have hmeasures : Measures o earlier s (.binary .pow left right) (n • v.dims.exact) :=
        .power hv.measures (hzero ▸ hw.measures) hdenotes hn
      refine isMeasured_of_measures ?_
      rw [hq, Dims.exact_settle (hfits _ hmeasures)]
      exact hmeasures
    · refine isMeasured_of_measures ?_
      rw [hq, hbase]
      exact .root (hbase ▸ hv.measures) (hzero ▸ hw.measures) hdenotes hn
  | other symbol => cases h

end

def enterAll (o : Options) (earlier : List (Line × Scope)) : Store :=
  earlier.foldr (fun t store => store.enter (t.1.recompute o t.2).line) .empty

section
variable {o : Options} {earlier : List (Line × Scope)} {s s' : Scope} {l : Line} {n : String}
  {q v : Quantity} {store : Store}

theorem reads_of_definition? (h : (l.recompute o s).line.definition? = some (n, v)) :
    ∃ statement tier, l.Reads statement tier ∧
      s.valueAt tier o.strict [] statement.expr = .ok v := by
  unfold Line.definition? at h
  split at h
  · cases h
  · obtain ⟨result, hresult, htarget⟩ := Option.bind_eq_some_iff.1 h
    obtain ⟨target, -, hpair⟩ := Option.map_eq_some_iff.1 htarget
    obtain ⟨-, rfl⟩ := Prod.mk.inj hpair
    rcases recompute_cases o s l with ⟨-, hnone⟩ | ⟨statement, tier, q, hread, hv, hq, -⟩
    · rw [hnone] at hresult
      cases hresult
    · obtain rfl := Option.some.inj (hq.symm.trans hresult)
      exact ⟨statement, tier, hread, hv⟩

theorem evalName_define_self {owner : String}
    (h : (store.define n v owner).evalName n = .ok q) : q = v := by
  have hvalue := Store.value?_define store n n owner v
  rw [if_pos rfl] at hvalue
  rcases evalName_eq_ok_iff.1 h with h | ⟨h, -⟩
  · exact (Option.some.inj (hvalue.symm.trans h)).symm
  · cases hvalue.symm.trans h

theorem evalName_define_of_ne {name owner : String} (hn : n ≠ name)
    (h : (store.define name v owner).evalName n = .ok q) : store.evalName n = .ok q := by
  have hvalue := Store.value?_define store name n owner v
  rw [if_neg hn] at hvalue
  rw [evalName_eq_ok_iff, hvalue] at h
  exact evalName_eq_ok_iff.2 h

theorem evalName_empty (h : Store.evalName .empty n = .ok q) :
    isUnitName n = true ∧ Quantity.ofUnit 1 (some n) = .ok q := by
  rcases evalName_eq_ok_iff.1 h with h | ⟨-, h⟩
  · cases h
  · exact h

theorem isMeasured_unit (hn : isUnitName n = true) (h : Quantity.ofUnit 1 (some n) = .ok q) :
    IsMeasured o [] s (.name n) q := by
  obtain ⟨u, hu⟩ := Option.isSome_iff_exists.1 hn
  have hdims : q.dims.exact = unitExact n := by
    rw [Quantity.ofUnit, resolveUnit, hu] at h
    obtain rfl := Except.ok.inj h
    exact (unitExact_of_unitDef? hu).symm
  refine isMeasured_of_measures ?_
  rw [hdims]
  exact .unit hn

theorem isMeasured_skipped (h : (l.recompute o s').line.definedName? ≠ some n)
    (hq : IsMeasured o earlier s (.name n) q) : IsMeasured o ((l, s') :: earlier) s (.name n) q :=
  isMeasured_of_measures (.skipped h hq.measures)

theorem isMeasured_defined {statement : Statement} {tier : Tier}
    (h : (l.recompute o s').line.definedName? = some n) (hread : l.Reads statement tier)
    (hq : IsMeasured o earlier s' statement.expr q) :
    IsMeasured o ((l, s') :: earlier) s (.name n) q :=
  isMeasured_of_measures (.defined h hread.2 hq.measures)

end

/-- No part of an expression has a value and, by the rules, a dimension beyond `2 ^ 53`. -/
def MeasuresFit (o : Options) (earlier : List (Line × Scope)) (s : Scope) (tier : Tier)
    (stack : List Address) (e : Expr) : Prop :=
  ∀ stack' e' q f, s.Visits tier o.strict stack e stack' e' →
    s.valueAt tier o.strict stack' e' = .ok q → Measures o earlier s e' f → Fits f

section
variable {o : Options} {earlier : List (Line × Scope)} {s : Scope} {tier : Tier}
  {stack stack' : List Address} {e e' : Expr} {q : Quantity}

theorem MeasuresFit.of_visits (h : MeasuresFit o earlier s tier stack e)
    (hvisit : s.Visits tier o.strict stack e stack' e') :
    MeasuresFit o earlier s tier stack' e' :=
  fun stack'' e'' q f hvisit' => h stack'' e'' q f (hvisit.trans hvisit')

theorem MeasuresFit.literal {x : Float} {unit : Option String} {f : Base → Int}
    (hf : Measures o earlier s (.literal x unit) f) (hfits : Fits f) :
    MeasuresFit o earlier s tier stack (.literal x unit) := by
  intro stack' e' q g hvisit _ hg
  cases hvisit
  exact hf.unique hg ▸ hfits

theorem MeasuresFit.name {n : String} {f : Base → Int} (hf : Measures o earlier s (.name n) f)
    (hfits : Fits f) : MeasuresFit o earlier s tier stack (.name n) := by
  intro stack' e' q g hvisit _ hg
  cases hvisit
  exact hf.unique hg ▸ hfits

theorem MeasuresFit.cell {label : String} {a : Address} {statement : Statement} {f : Base → Int}
    (ha : s.addresses (upper label) = .ok (some a))
    (hformula : s.sheet.formula (upper label) a = .ok statement)
    (hinner : MeasuresFit o earlier s tier (a :: stack) statement.expr)
    (hf : Measures o earlier s (.cell label) f) (hfits : Fits f) :
    MeasuresFit o earlier s tier stack (.cell label) := by
  intro stack' e' q g hvisit hq hg
  cases hvisit with
  | here => exact hf.unique hg ▸ hfits
  | cell _ ha' _ hformula' hvisit =>
    obtain rfl := Option.some.inj (Except.ok.inj (ha.symm.trans ha'))
    obtain rfl := Except.ok.inj (hformula.symm.trans hformula')
    exact hinner _ _ q g hvisit hq hg

theorem MeasuresFit.binary {op : BinaryOp} {left right : Expr} {f : Base → Int}
    (hl : MeasuresFit o earlier s tier stack left) (hr : MeasuresFit o earlier s tier stack right)
    (hf : Measures o earlier s (.binary op left right) f) (hfits : Fits f) :
    MeasuresFit o earlier s tier stack (.binary op left right) := by
  intro stack' e' q g hvisit hq hg
  cases hvisit with
  | here => exact hf.unique hg ▸ hfits
  | left hvisit => exact hl _ _ q g hvisit hq hg
  | right _ hvisit => exact hr _ _ q g hvisit hq hg

theorem isMeasured_of_cells
    (hnames : ∀ n q, s.store.evalName n = .ok q → IsMeasured o earlier s (.name n) q)
    (hcell : ∀ label q, MeasuresFit o earlier s tier stack (.cell label) → tier = .full →
      s.evalCell stack label = .ok q → IsMeasured o earlier s (.cell label) q)
    (hfits : MeasuresFit o earlier s tier stack e)
    (h : s.valueAt tier o.strict stack e = .ok q) : IsMeasured o earlier s e q := by
  induction e generalizing q with
  | literal x unit =>
    exact isMeasured_literal (fun f => hfits _ _ q f .here h) (Tier.value_literal h)
  | name n => exact hnames n q (Tier.value_name h)
  | cell label =>
    obtain ⟨htier, hv⟩ := Tier.value_cell h
    exact hcell label q hfits htier hv
  | signed sign operand ih =>
    obtain ⟨v, hv, happly⟩ := Tier.value_signed h
    exact isMeasured_signed (ih (hfits.of_visits (.operand .here)) hv) happly
  | binary op left right ihl ihr =>
    obtain ⟨v, w, hv, hw, happly⟩ := Tier.value_binary h
    exact isMeasured_binary (fun f => hfits _ _ q f .here h)
      (ihl (hfits.of_visits (.left .here)) hv) (ihr (hfits.of_visits (.right hv .here)) hw)
      (denotes_of_valueAt hw) happly

theorem isMeasured_of_evalCell
    (hnames : ∀ n q, s.store.evalName n = .ok q → IsMeasured o earlier s (.name n) q)
    (stack : List Address) (label : String) {q : Quantity}
    (hfits : MeasuresFit o earlier s .full stack (.cell label))
    (h : s.evalCell stack label = .ok q) : IsMeasured o earlier s (.cell label) q := by
  obtain ⟨a, statement, ha, hs, hf, hv⟩ := evalCell_eq_ok_iff.1 h
  have hfree : (s.sheet.free (a :: stack)).length < (s.sheet.free stack).length :=
    Sheet.free_cons_lt (Sheet.mem_occupied_of_formula hf) (by simpa using hs)
  have hinner : IsMeasured o earlier s statement.expr q :=
    isMeasured_of_cells hnames
      (fun label' q' hfits' _ h' => isMeasured_of_evalCell hnames (a :: stack) label' hfits' h')
      (hfits.of_visits (.cell rfl ha hs hf .here)) hv
  exact isMeasured_of_measures (.cell ha hf hinner.measures)
termination_by (s.sheet.free stack).length

theorem isMeasured_of_visits
    (hnames : ∀ n q, s.store.evalName n = .ok q → IsMeasured o earlier s (.name n) q)
    (hfits : MeasuresFit o earlier s tier stack e)
    (hvisit : s.Visits tier o.strict stack e stack' e')
    (h : s.valueAt tier o.strict stack' e' = .ok q) : IsMeasured o earlier s e' q := by
  refine isMeasured_of_cells hnames (fun label q' hcell htier hq' => ?_)
    (hfits.of_visits hvisit) h
  subst htier
  exact isMeasured_of_evalCell hnames stack' label hcell hq'

end

section
variable {o : Options}

def IsExactTurn (o : Options) (earlier : List (Line × Scope)) (l : Line) (s : Scope) : Prop :=
  s.store = enterAll o earlier ∧ ∀ statement tier, l.Reads statement tier →
    MeasuresFit o earlier s tier [] statement.expr

/-- The value of a name has the dimensions of the formula that defined it last. -/
theorem isMeasured_name {earlier : List (Line × Scope)}
    (hearlier : ∀ l s rest, (l, s) :: rest <:+ earlier → IsExactTurn o rest l s)
    (s : Scope) {n : String} {q : Quantity} (h : (enterAll o earlier).evalName n = .ok q) :
    IsMeasured o earlier s (.name n) q := by
  induction earlier generalizing s n q with
  | nil =>
    obtain ⟨hn, hq⟩ := evalName_empty h
    exact isMeasured_unit hn hq
  | cons t earlier ih =>
    obtain ⟨l, s'⟩ := t
    have ih := ih fun l s rest hrest => hearlier l s rest (hrest.trans (List.suffix_cons _ _))
    rw [enterAll, List.foldr_cons, ← enterAll, Store.enter] at h
    cases hdefinition : (l.recompute o s').line.definition? with
    | none =>
      rw [hdefinition] at h
      exact isMeasured_skipped (by simp [Line.definedName?, hdefinition]) (ih s h)
    | some found =>
      obtain ⟨name, v⟩ := found
      rw [hdefinition] at h
      dsimp only at h
      have hname := definedName?_of_definition? hdefinition
      by_cases hn : n = name
      · rw [← hn] at h hname
        obtain ⟨statement, tier, hread, hv⟩ := reads_of_definition? hdefinition
        obtain ⟨hstore, hfits⟩ := hearlier l s' earlier List.suffix_rfl
        rw [← evalName_define_self h] at hv
        refine isMeasured_defined hname hread ?_
        refine isMeasured_of_visits (fun n q h => ?_) (hfits statement tier hread) .here hv
        rw [hstore] at h
        exact ih s' h
      · refine isMeasured_skipped (fun hsome => hn ?_) (ih s (evalName_define_of_ne hn h))
        exact (Option.some.inj (hname.symm.trans hsome)).symm

end

/-- No line of a pass meets a dimension that is, by the rules, beyond `2 ^ 53`. -/
def Document.MeasuresFit (d : Document) (o : Options) (sheet : Sheet) (addresses : AddressReader) :
    Prop :=
  ∀ before l s behind, d.turns o sheet addresses = before ++ (l, s) :: behind →
    ∀ statement tier, l.Reads statement tier →
      UnitSheet.MeasuresFit o before.reverse s tier [] statement.expr

section
variable {d : Document} {o : Options} {sheet : Sheet} {addresses : AddressReader}
  {before behind : List (Line × Scope)} {l : Line} {s : Scope}

theorem isExactTurn_of_turns (h : d.MeasuresFit o sheet addresses)
    (hturn : d.turns o sheet addresses = before ++ (l, s) :: behind) :
    IsExactTurn o before.reverse l s := by
  refine ⟨?_, h before l s behind hturn⟩
  rw [enterAll, List.foldr_reverse]
  exact store_of_turns hturn

theorem isExactTurn_of_isSuffix (h : d.MeasuresFit o sheet addresses)
    (hturn : d.turns o sheet addresses = before ++ behind) {rest : List (Line × Scope)}
    (hrest : (l, s) :: rest <:+ before.reverse) : IsExactTurn o rest l s := by
  obtain ⟨between, hbetween⟩ := hrest
  have hbefore : before = rest.reverse ++ (l, s) :: between.reverse := by
    rw [← List.reverse_reverse before, ← hbetween]
    simp
  rw [hbefore, List.append_assoc, List.cons_append] at hturn
  rw [← List.reverse_reverse rest]
  exact isExactTurn_of_turns h hturn

/-- Every part of a statement that has a value has the dimensions of its value. -/
theorem isMeasured_of_turns (h : d.MeasuresFit o sheet addresses)
    (hturn : d.turns o sheet addresses = before ++ (l, s) :: behind) {statement : Statement}
    {tier : Tier} (hread : l.Reads statement tier) {stack : List Address} {e : Expr} {q : Quantity}
    (hvisit : s.Visits tier o.strict [] statement.expr stack e)
    (hq : s.valueAt tier o.strict stack e = .ok q) : IsMeasured o before.reverse s e q := by
  obtain ⟨hstore, hfits⟩ := isExactTurn_of_turns h hturn
  refine isMeasured_of_visits (fun n q hq => ?_) (hfits statement tier hread) hvisit hq
  rw [hstore] at hq
  exact isMeasured_name (fun l s rest => isExactTurn_of_isSuffix h hturn) s hq

/-- The terms of a sum with a value have dimensions of their own, the same ones. -/
theorem Scope.Visits.terms {tier : Tier} {strict : Bool} {stack stack' : List Address}
    {e left right : Expr} {op : BinaryOp} {q : Quantity} (hop : op = .add ∨ op = .sub)
    (hvisit : s.Visits tier strict stack e stack' (.binary op left right))
    (hq : s.valueAt tier strict stack' (.binary op left right) = .ok q) :
    ∃ v w, s.Visits tier strict stack e stack' left ∧ s.valueAt tier strict stack' left = .ok v ∧
      s.Visits tier strict stack e stack' right ∧ s.valueAt tier strict stack' right = .ok w ∧
        v.dims = w.dims := by
  obtain ⟨v, w, hv, hw, happly⟩ := Tier.value_binary hq
  refine ⟨v, w, hvisit.trans (.left .here), hv, hvisit.trans (.right hv .here), hw, ?_⟩
  rcases hop with rfl | rfl
  · exact (Quantity.add_eq_ok happly).1
  · exact (Quantity.subtract_eq_ok happly).1

end

/-- In a pass that starts without names and by the rules meets no dimension beyond `2 ^ 53`, the
dimensions of every value are those that the rules give: of the result of a line, and of every part
of a formula on the line or in a cell. So only terms with the same dimensions are added and
subtracted, and what counts as dimensionless has no dimensions. -/
theorem recompute_measures (d : Document) (o : Options) (sheet : Sheet) (addresses : AddressReader)
    (h : d.MeasuresFit o sheet addresses) (before behind : List (Line × Scope)) (l : Line)
    (s : Scope) (hturn : d.turns o sheet addresses = before ++ (l, s) :: behind) :
    (∀ q, (l.recompute o s).line.outcome.result? = some q →
      ∃ statement tier, l.Reads statement tier ∧
        ∀ f, Measures o before.reverse s statement.expr f ↔ f = q.dims.exact) ∧
    ∀ statement tier, l.Reads statement tier →
      ∀ stack e q, s.Visits tier o.strict [] statement.expr stack e →
        s.valueAt tier o.strict stack e = .ok q →
          (∀ f, Measures o before.reverse s e f ↔ f = q.dims.exact) ∧
          (q.isDimensionless = true ↔ Measures o before.reverse s e 0) ∧
          ∀ op left right, e = .binary op left right → op = .add ∨ op = .sub →
            ∃ f, (∀ g, Measures o before.reverse s left g ↔ g = f) ∧
              ∀ g, Measures o before.reverse s right g ↔ g = f := by
  constructor
  · intro q hq
    rcases recompute_cases o s l with ⟨-, hnone⟩ | ⟨statement, tier, v, hread, hv, hresult, -⟩
    · rw [hnone] at hq
      cases hq
    · obtain rfl := Option.some.inj (hresult.symm.trans hq)
      exact ⟨statement, tier, hread, isMeasured_of_turns h hturn hread .here hv⟩
  · intro statement tier hread stack e q hvisit hq
    have hmeasured := isMeasured_of_turns h hturn hread hvisit hq
    refine ⟨hmeasured, ?_, ?_⟩
    · rw [hmeasured 0, Quantity.isDimensionless, Dims.isZero_iff]
      exact eq_comm
    · rintro op left right rfl hop
      obtain ⟨v, w, hleft, hv, hright, hw, hvw⟩ := hvisit.terms hop hq
      refine ⟨v.dims.exact, isMeasured_of_turns h hturn hread hleft hv, ?_⟩
      rw [hvw]
      exact isMeasured_of_turns h hturn hread hright hw

def sideTurn : Line × Scope := (sideLine, ⟨.empty, areaSheet, .standard⟩)

theorem measures_metres (earlier : List (Line × Scope)) (s : Scope) (x : Float) :
    Measures {} earlier s (.literal x (some "m")) (powersExact [⟨"m", 1⟩]) :=
  .written rfl

theorem fits_metres : Fits (powersExact [⟨"m", 1⟩]) := by
  intro b
  cases b <;> decide

theorem measures_name_areaExpr :
    Measures {} [sideTurn] areaScope (.name "r") (powersExact [⟨"m", 1⟩]) := by
  obtain ⟨_, -, hread⟩ := reads_sideLine
  refine .defined ?_ hread (measures_metres _ _ 1)
  rw [recompute_sideLine, Line.definedName?, definition?_settled hread]
  rfl

theorem measures_product_areaExpr : Measures {} [sideTurn] areaScope
    (.binary .mul (.cell "A1") (.name "r")) (powersExact [⟨"m", 1⟩] + powersExact [⟨"m", 1⟩]) :=
  .product (.cell address_areaScope formula_areaScope (measures_metres _ _ 2)) measures_name_areaExpr

theorem measures_power_areaExpr : Measures {} [sideTurn] areaScope
    (.binary .pow (.name "r") (.literal 2 none)) ((2 : Int) • powersExact [⟨"m", 1⟩]) :=
  .power measures_name_areaExpr .bare (.literal rfl) rfl

theorem measuresFit_areaExpr (tier : Tier) :
    MeasuresFit {} [sideTurn] areaScope tier [] areaExpr := by
  have hsquare : (2 : Int) • powersExact [⟨"m", 1⟩] =
      powersExact [⟨"m", 1⟩] + powersExact [⟨"m", 1⟩] := two_zsmul _
  have hfits : Fits (powersExact [⟨"m", 1⟩] + powersExact [⟨"m", 1⟩]) := by
    intro b
    cases b <;> decide
  have hname : MeasuresFit {} [sideTurn] areaScope tier [] (.name "r") :=
    .name measures_name_areaExpr fits_metres
  have hcell : MeasuresFit {} [sideTurn] areaScope tier [] (.cell "A1") :=
    .cell address_areaScope formula_areaScope (.literal (measures_metres _ _ 2) fits_metres)
      (.cell address_areaScope formula_areaScope (measures_metres _ _ 2)) fits_metres
  have hpower := hsquare ▸ measures_power_areaExpr
  exact .binary (.binary hcell hname measures_product_areaExpr hfits)
    (.binary hname (.literal .bare fits_zero) hpower hfits)
    (.sum (.inl rfl) measures_product_areaExpr hpower) hfits

theorem measuresFit_areaDocument : areaDocument.MeasuresFit {} areaSheet .standard := by
  intro before l s behind hturn statement tier hread
  rw [turns_areaDocument] at hturn
  rcases before with _ | ⟨first, _ | ⟨second, before⟩⟩
  · obtain ⟨hturn, -⟩ := List.cons.inj hturn
    obtain ⟨rfl, rfl⟩ := Prod.mk.inj hturn
    obtain ⟨_, -, hside⟩ := reads_sideLine
    obtain ⟨rfl, rfl⟩ := Prod.mk.inj (Except.ok.inj (hside.symm.trans hread.2))
    exact .literal (measures_metres _ _ 1) fits_metres
  · obtain ⟨rfl, hrest⟩ := List.cons.inj hturn
    obtain ⟨rfl, rfl⟩ := Prod.mk.inj (List.cons.inj hrest).1
    obtain ⟨rfl, rfl⟩ := Prod.mk.inj (Except.ok.inj (reads_areaLine.2.symm.trans hread.2))
    exact measuresFit_areaExpr _
  · simp at hturn

theorem recompute_measures_areaDocument : areaDocument.MeasuresFit {} areaSheet .standard ∧
    areaDocument.turns {} areaSheet .standard = [sideTurn] ++ (areaLine, areaScope) :: [] ∧
    areaLine.Reads ⟨none, areaExpr⟩ .full ∧
    ∃ q, (areaLine.recompute {} areaScope).line.outcome.result? = some q ∧
      (∀ f, Measures {} [sideTurn] areaScope areaExpr f ↔ f = q.dims.exact) ∧
      ∃ f, (∀ g, Measures {} [sideTurn] areaScope (.binary .mul (.cell "A1") (.name "r")) g ↔ g = f) ∧
        ∀ g, Measures {} [sideTurn] areaScope (.binary .pow (.name "r") (.literal 2 none)) g ↔
          g = f := by
  have hturn : areaDocument.turns {} areaSheet .standard =
    [sideTurn] ++ (areaLine, areaScope) :: [] := turns_areaDocument
  obtain ⟨hresult, hparts⟩ := recompute_measures areaDocument {} areaSheet .standard
    measuresFit_areaDocument [sideTurn] [] areaLine areaScope hturn
  obtain ⟨-, -, hterms⟩ := hparts _ _ reads_areaLine [] areaExpr _ .here eval_areaScope
  obtain ⟨statement, tier, hread, hmeasures⟩ := hresult _ result?_areaLine
  obtain ⟨rfl, rfl⟩ := Prod.mk.inj (Except.ok.inj (reads_areaLine.2.symm.trans hread.2))
  exact ⟨measuresFit_areaDocument, hturn, hread, _, result?_areaLine, hmeasures,
    hterms .add _ _ rfl (.inl rfl)⟩

def hugeSum : Line := { id := "1", text := "1 m^9007199254740993 + 1 m^9007199254740992" }

theorem readLine_hugeSum : readLine hugeSum.text =
    .ok (⟨none, .binary .add (.literal 1 (some "m^9007199254740993"))
      (.literal 1 (some "m^9007199254740992"))⟩, .restricted) := by
  have hprepared : preparedText hugeSum.text = hugeSum.text :=
    preparedText_eq_self (by decide) (by decide +kernel) (by decide +kernel)
  have hstrays : (lex hugeSum.text).strays = [] := by decide +kernel
  have htokens : (lex hugeSum.text).tokens = [⟨.number 1, "1", 0⟩, ⟨.whitespace, " ", 1⟩,
      ⟨.unit, "m^9007199254740993", 2⟩, ⟨.whitespace, " ", 20⟩, ⟨.plus, "+", 21⟩,
      ⟨.whitespace, " ", 22⟩, ⟨.number 1, "1", 23⟩, ⟨.whitespace, " ", 24⟩,
      ⟨.unit, "m^9007199254740992", 25⟩] := by decide +kernel
  have hparse : Grammar.Restricted.parse (lex hugeSum.text).tokens =
      .parsed ⟨none, .binary .add (.literal 1 (some "m^9007199254740993"))
        (.literal 1 (some "m^9007199254740992"))⟩ := by
    rw [htokens]
    simp [Grammar.Restricted.parse, Token.significant, TokenKind.isWhitespace,
      Grammar.Restricted.isBeyond, readStatement, takeTarget, Grammar.Restricted.readSum,
      Grammar.Restricted.readTerm, Grammar.Restricted.readSumTail, takeUnit, Grammar.sumOp?,
      BinaryOp.ofSymbol]
  rw [← hprepared] at hstrays hparse
  exact readLine_of_restricted hstrays hparse

theorem evalRestricted_hugeSum : ∃ q,
    (Expr.binary .add (.literal 1 (some "m^9007199254740993"))
      (.literal 1 (some "m^9007199254740992"))).evalRestricted false = .ok q := by
  have hdims : (match resolveUnit "m^9007199254740993", resolveUnit "m^9007199254740992" with
      | .ok u, .ok v => u.dims == v.dims
      | _, _ => false) = true := by
    decide +kernel
  split at hdims
  · rename_i u v hu hv
    have hcompatible : Quantity.isCompatible ⟨1 * u.factor, u.dims, some "m^9007199254740993"⟩
        ⟨1 * v.factor, v.dims, some "m^9007199254740992"⟩ = true := by
      rw [Quantity.isCompatible]
      exact hdims
    simp [Expr.evalRestricted, Quantity.ofUnit, hu, hv, Quantity.add, hcompatible]
  · cases hdims

/-- Both terms of the sum get the same vector, although by the rules their dimensions differ, and
the sum has a value. -/
theorem value_of_unequal_terms : ∃ s behind statement tier left right f g q,
    Document.turns ⟨[hugeSum], .pad, .empty⟩ { strict := false } .empty .none =
      [] ++ (hugeSum, s) :: behind ∧
    hugeSum.Reads statement tier ∧ statement.expr = .binary .add left right ∧
    s.valueAt tier false [] statement.expr = .ok q ∧
    Measures { strict := false } [] s left f ∧ Measures { strict := false } [] s right g ∧ f ≠ g := by
  have hnumbered : Document.numbered ⟨[hugeSum], .pad, .empty⟩ = [(hugeSum, 0)] := rfl
  have hkind : lineKind (normalize hugeSum.text) ≠ .text := by decide +kernel
  have hleft : labelPowers? "m^9007199254740993" = some [⟨"m", 9007199254740993⟩] := by
    decide +kernel
  have hright : labelPowers? "m^9007199254740992" = some [⟨"m", 9007199254740992⟩] := by
    decide +kernel
  have hne : powersExact [⟨"m", 9007199254740993⟩] ≠ powersExact [⟨"m", 9007199254740992⟩] :=
    fun h => absurd (congrFun h .length) (by decide +kernel)
  obtain ⟨q, hq⟩ := evalRestricted_hugeSum
  rw [Document.turns, hnumbered, turns_cons]
  exact ⟨_, _, _, _, _, _, _, _, q, rfl, ⟨hkind, readLine_hugeSum⟩, rfl, hq, .written hleft, .written hright, hne⟩

end UnitSheet
