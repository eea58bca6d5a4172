import UnitSheet.Document.Recompute
import UnitSheet.Proofs.Evaluation.Reference
import UnitSheet.Proofs.Quantity.Coherence

set_option autoImplicit false

namespace UnitSheet

def Scope.valueAt (s : Scope) (tier : Tier) (strict : Bool) (stack : List Address) (e : Expr) :
    Except Failure Quantity :=
  tier.value strict s.store (s.evalCell stack) e

/-- The evaluation of the first expression under the first stack evaluates the second expression
under the second stack. -/
inductive Scope.Visits (s : Scope) (tier : Tier) (strict : Bool) :
    List Address → Expr → List Address → Expr → Prop
  | here {stack : List Address} {e : Expr} : s.Visits tier strict stack e stack e
  | operand {stack stack' : List Address} {sign : SignOp} {operand e : Expr} :
      s.Visits tier strict stack operand stack' e →
        s.Visits tier strict stack (.signed sign operand) stack' e
  | left {stack stack' : List Address} {op : BinaryOp} {left right e : Expr} :
      s.Visits tier strict stack left stack' e →
        s.Visits tier strict stack (.binary op left right) stack' e
  | right {stack stack' : List Address} {op : BinaryOp} {left right e : Expr} {q : Quantity} :
      s.valueAt tier strict stack left = .ok q → s.Visits tier strict stack right stack' e →
        s.Visits tier strict stack (.binary op left right) stack' e
  | cell {stack stack' : List Address} {label : String} {a : Address} {statement : Statement}
      {e : Expr} :
      tier = .full → s.addresses (upper label) = .ok (some a) → a ∉ stack →
        s.sheet.formula (upper label) a = .ok statement →
          s.Visits tier strict (a :: stack) statement.expr stack' e →
            s.Visits tier strict stack (.cell label) stack' e

/-- The dimensions of a written unit, or of the result of an operator, before they are put into
words. -/
inductive Scope.Computes (s : Scope) (tier : Tier) (strict : Bool) (stack : List Address) :
    Expr → (Base → Int) → Prop
  | written {x : Float} {label : String} {q : Quantity} {ps : List UnitPower} :
      Quantity.ofUnit x (some label) = .ok q → labelPowers? label = some ps →
        s.Computes tier strict stack (.literal x (some label)) (powersExact ps)
  | result {op : BinaryOp} {left right : Expr} {q r v : Quantity} :
      s.valueAt tier strict stack left = .ok q → s.valueAt tier strict stack right = .ok r →
        op.apply q r = .ok v →
          s.Computes tier strict stack (.binary op left right) (op.exactDims q r)

/-- No dimension that an evaluation computes is beyond `2 ^ 53`. This asks for no more than that no
exponent of a label and no word of a vector on the way is: then no sum of words wraps around, nor does
a multiple, since a value with dimensions has no power beyond 64, and the words are the dimensions. -/
def Scope.StaysExact (s : Scope) (tier : Tier) (strict : Bool) (stack : List Address) (e : Expr) :
    Prop :=
  ∀ stack' e' f, s.Visits tier strict stack e stack' e' → s.Computes tier strict stack' e' f → Fits f

def Store.IsCoherent (store : Store) : Prop := ∀ entry ∈ store.entries, entry.2.value.IsCoherent

section
variable {tier : Tier} {strict : Bool} {store : Store} {cell : String → Except Failure Quantity}
  {q : Quantity}

theorem Tier.value_literal {x : Float} {unit : Option String}
    (h : tier.value strict store cell (.literal x unit) = .ok q) :
    Quantity.ofUnit x unit = .ok q := by
  cases tier <;> exact h

theorem Tier.value_name {n : String} (h : tier.value strict store cell (.name n) = .ok q) :
    store.evalName n = .ok q := by
  cases tier with
  | restricted => cases h
  | full => exact h

theorem Tier.value_cell {label : String} (h : tier.value strict store cell (.cell label) = .ok q) :
    tier = .full ∧ cell label = .ok q := by
  cases tier with
  | restricted => cases h
  | full => exact ⟨rfl, h⟩

theorem Tier.value_signed {sign : SignOp} {operand : Expr}
    (h : tier.value strict store cell (.signed sign operand) = .ok q) :
    ∃ v, tier.value strict store cell operand = .ok v ∧ sign.apply v = .ok q := by
  cases tier with
  | restricted => cases h
  | full =>
    simp only [Tier.value, Expr.evalWith] at h
    split at h
    · cases h
    · rename_i v hv
      exact ⟨v, hv, h⟩

theorem Tier.value_binary {op : BinaryOp} {left right : Expr}
    (h : tier.value strict store cell (.binary op left right) = .ok q) :
    ∃ v w, tier.value strict store cell left = .ok v ∧
      tier.value strict store cell right = .ok w ∧ op.apply v w = .ok q := by
  cases tier with
  | restricted =>
    simp only [Tier.value, Expr.evalRestricted] at h
    split at h
    · cases h
    · rename_i v hv
      split at h
      · cases h
      · rename_i w hw
        refine ⟨v, w, hv, hw, ?_⟩
        -- What strict units add is a complaint.
        split at h
        · cases h
        · cases op with
          | add => exact h
          | sub => exact h
          | mul => cases h
          | div => cases h
          | pow => cases h
          | other symbol => cases h
  | full =>
    simp only [Tier.value, Expr.evalWith] at h
    split at h
    · cases h
    · rename_i v hv
      split at h
      · cases h
      · rename_i w hw
        exact ⟨v, w, hv, hw, h⟩

theorem Store.IsCoherent.value (hstore : store.IsCoherent) {n : String}
    (h : store.value? n = some q) : q.IsCoherent := by
  obtain ⟨owned, howned, rfl⟩ := Option.map_eq_some_iff.1 h
  obtain ⟨before, after, hentries, -⟩ := List.lookup_eq_some_iff.1 howned
  refine hstore (n, owned) ?_
  rw [hentries]
  exact List.mem_append_right _ List.mem_cons_self

end

section
variable {s : Scope} {tier : Tier} {strict : Bool} {stack stack' : List Address} {e e' : Expr}
  {q : Quantity}

theorem Scope.Visits.trans {stack'' : List Address} {e'' : Expr}
    (h : s.Visits tier strict stack e stack' e')
    (h' : s.Visits tier strict stack' e' stack'' e'') :
    s.Visits tier strict stack e stack'' e'' := by
  induction h with
  | here => exact h'
  | operand _ ih => exact .operand (ih h')
  | left _ ih => exact .left (ih h')
  | right hq _ ih => exact .right hq (ih h')
  | cell htier ha hs hf _ ih => exact .cell htier ha hs hf (ih h')

theorem Scope.StaysExact.of_visits (h : s.StaysExact tier strict stack e)
    (hvisit : s.Visits tier strict stack e stack' e') : s.StaysExact tier strict stack' e' :=
  fun stack'' e'' f hvisit' => h stack'' e'' f (hvisit.trans hvisit')

theorem Scope.StaysExact.literal {x : Float} {unit : Option String}
    (h : ∀ label ps, unit = some label → labelPowers? label = some ps → Fits (powersExact ps)) :
    s.StaysExact tier strict stack (.literal x unit) := by
  intro stack' e' f hvisit hcompute
  cases hvisit
  cases hcompute with
  | written _ hps => exact h _ _ rfl hps

theorem Scope.StaysExact.name {n : String} : s.StaysExact tier strict stack (.name n) := by
  intro stack' e' f hvisit hcompute
  cases hvisit
  cases hcompute

theorem Scope.StaysExact.cell {label : String}
    (h : ∀ a statement, s.addresses (upper label) = .ok (some a) →
      s.sheet.formula (upper label) a = .ok statement →
        s.StaysExact tier strict (a :: stack) statement.expr) :
    s.StaysExact tier strict stack (.cell label) := by
  intro stack' e' f hvisit hcompute
  cases hvisit with
  | here => cases hcompute
  | cell _ ha _ hf hvisit => exact h _ _ ha hf _ _ f hvisit hcompute

theorem Scope.StaysExact.binary {op : BinaryOp} {left right : Expr}
    (hl : s.StaysExact tier strict stack left) (hr : s.StaysExact tier strict stack right)
    (h : ∀ q r, s.valueAt tier strict stack left = .ok q →
      s.valueAt tier strict stack right = .ok r → Fits (op.exactDims q r)) :
    s.StaysExact tier strict stack (.binary op left right) := by
  intro stack' e' f hvisit hcompute
  cases hvisit with
  | here =>
    cases hcompute with
    | result hq hr _ => exact h _ _ hq hr
  | left hvisit => exact hl _ _ f hvisit hcompute
  | right _ hvisit => exact hr _ _ f hvisit hcompute

theorem isCoherent_of_cells (hstore : s.store.IsCoherent)
    (hcell : ∀ label q, s.StaysExact tier strict stack (.cell label) → tier = .full →
      s.evalCell stack label = .ok q → q.IsCoherent)
    (hexact : s.StaysExact tier strict stack e) (h : s.valueAt tier strict stack e = .ok q) :
    q.IsCoherent := by
  induction e generalizing q with
  | literal x unit =>
    have h := Tier.value_literal h
    refine Quantity.isCoherent_of_ofUnit (fun label ps hunit hps => ?_) h
    subst hunit
    exact hexact _ _ _ .here (.written h hps)
  | name n => exact isCoherent_of_evalName (fun q => hstore.value) (Tier.value_name h)
  | cell label =>
    obtain ⟨htier, h⟩ := Tier.value_cell h
    exact hcell label q hexact htier h
  | signed sign operand ih =>
    obtain ⟨v, hv, happly⟩ := Tier.value_signed h
    exact Quantity.isCoherent_signApply (ih (hexact.of_visits (.operand .here)) hv) happly
  | binary op left right ihl ihr =>
    obtain ⟨v, w, hv, hw, happly⟩ := Tier.value_binary h
    have hl := ihl (hexact.of_visits (.left .here)) hv
    have hr := ihr (hexact.of_visits (.right hv .here)) hw
    exact isCoherent_apply hl hr (hexact _ _ _ .here (.result hv hw happly)) happly

theorem isCoherent_of_evalCell (hstore : s.store.IsCoherent) (stack : List Address)
    (label : String) {q : Quantity} (hexact : s.StaysExact .full strict stack (.cell label))
    (h : s.evalCell stack label = .ok q) : q.IsCoherent := by
  -- The induction is on the cells that are free, as that of the evaluation.
  obtain ⟨a, statement, ha, hs, hf, hv⟩ := evalCell_eq_ok_iff.1 h
  have hfree : (s.sheet.free (a :: stack)).length < (s.sheet.free stack).length :=
    Sheet.free_cons_lt (Sheet.mem_occupied_of_formula hf) (by simpa using hs)
  have hinner : s.StaysExact .full strict (a :: stack) statement.expr :=
    hexact.of_visits (.cell rfl ha hs hf .here)
  exact isCoherent_of_cells hstore
    (fun label' q' hexact' _ h' => isCoherent_of_evalCell hstore (a :: stack) label' hexact' h')
    hinner hv
termination_by (s.sheet.free stack).length

/-- Every value of an evaluation is coherent, if its dimensions stay exact. -/
theorem isCoherent_of_visits (hstore : s.store.IsCoherent)
    (hexact : s.StaysExact tier strict stack e) (hvisit : s.Visits tier strict stack e stack' e')
    (h : s.valueAt tier strict stack' e' = .ok q) : q.IsCoherent := by
  refine isCoherent_of_cells hstore (fun label q' hcell htier hq' => ?_)
    (hexact.of_visits hvisit) h
  subst htier
  exact isCoherent_of_evalCell hstore stack' label hcell hq'

end

end UnitSheet
