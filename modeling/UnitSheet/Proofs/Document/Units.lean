import UnitSheet.Proofs.Document.Pass
import UnitSheet.Proofs.Evaluation.Visits
import UnitSheet.Proofs.Line.Repeats
import UnitSheet.Proofs.Line.Tiers

set_option autoImplicit false

namespace UnitSheet

def Turn.followedBy {α : Type} (turn : Turn) (rest : Store → List α) : List α :=
  match turn.fault with
  | some _ => []
  | none => rest turn.store

theorem Turn.followedBy_of_none {α : Type} {turn : Turn} {rest : Store → List α}
    (h : turn.fault = none) : turn.followedBy rest = rest turn.store := by
  rw [Turn.followedBy, h]

theorem Turn.followedBy_nil {α : Type} (turn : Turn) :
    (turn.followedBy fun _ => []) = ([] : List α) := by
  unfold Turn.followedBy
  split <;> rfl

/-- The lines that have their turn in a pass, each with what names and cell labels mean then. -/
def turns {Place : Type} (o : Options) (sheet : Sheet) (addresses : AddressReader) :
    Store → List (Line × Place) → List (Line × Scope)
  | _, [] => []
  | store, (l, _) :: rest =>
    let s : Scope := ⟨store, sheet, addresses⟩
    (l, s) :: (l.recompute o s).followedBy fun store => turns o sheet addresses store rest

def Document.turns (d : Document) (o : Options) (sheet : Sheet) (addresses : AddressReader) :
    List (Line × Scope) :=
  UnitSheet.turns o sheet addresses .empty d.numbered

/-- The line is not left alone, and the grammar reads the statement on it. -/
def Line.Reads (l : Line) (statement : Statement) (tier : Tier) : Prop :=
  lineKind (normalize l.text) ≠ .text ∧ readLine l.text = .ok (statement, tier)

def StayExact (o : Options) (ts : List (Line × Scope)) : Prop :=
  ∀ l s, (l, s) ∈ ts → ∀ statement tier, l.Reads statement tier →
    s.StaysExact tier o.strict [] statement.expr

section
variable {o : Options} {s : Scope} {l : Line} {q : Quantity}

theorem computeLine_of_evaluateLine {text shown : String} {statement : Statement}
    (hvalue : evaluateLine o.strict s text = .ok (statement, q))
    (hshown : displayQuantity q none o.preferences = .ok shown) :
    computeLine o s text = .ok ⟨statement.target, q, shown⟩ := by
  rw [computeLine, hvalue]
  dsimp only
  rw [hshown]
  rfl

/-- A line has no result and changes no name, or its result is the value of its statement, which at
most one name gets. -/
theorem recompute_cases (o : Options) (s : Scope) (l : Line) :
    ((l.recompute o s).store = s.store ∧ (l.recompute o s).line.outcome.result? = none) ∨
    ∃ statement tier q, l.Reads statement tier ∧
      s.valueAt tier o.strict [] statement.expr = .ok q ∧
        (l.recompute o s).line.outcome.result? = some q ∧
          ((l.recompute o s).store = s.store ∨
            ∃ name, (l.recompute o s).store = s.store.define name q l.id) := by
  rcases turn_cases o s l with ⟨-, h⟩ | ⟨hkind, ⟨_, -, h⟩ | ⟨_, -, h⟩ | ⟨c, hc, -⟩⟩
  · exact .inl (h ▸ ⟨rfl, rfl⟩)
  · exact .inl (h ▸ ⟨rfl, rfl⟩)
  · exact .inl (h ▸ ⟨rfl, rfl⟩)
  · obtain ⟨statement, tier, hread, hv, -⟩ := computeLine_eq_ok hc
    rw [recompute_of_ok hkind hc]
    refine .inr ⟨statement, tier, c.value, ⟨hkind, hread⟩, hv, rfl, ?_⟩
    cases c.target with
    | none => exact .inl rfl
    | some name => exact .inr ⟨name, rfl⟩

theorem mem_setEntry {α : Type} {name : String} {value : α} {entries : List (String × α)}
    {entry : String × α} (h : entry ∈ setEntry name value entries) :
    entry = (name, value) ∨ entry ∈ entries := by
  induction entries with
  | nil => exact .inl (List.mem_singleton.1 h)
  | cons first rest ih =>
    rw [setEntry] at h
    split at h
    · rcases List.mem_cons.1 h with h | h
      · exact .inl h
      · exact .inr (List.mem_cons_of_mem first h)
    · rcases List.mem_cons.1 h with rfl | h
      · exact .inr List.mem_cons_self
      · exact (ih h).imp_right (List.mem_cons_of_mem first)

theorem Store.IsCoherent.define {store : Store} (h : store.IsCoherent) (hq : q.IsCoherent)
    (name owner : String) : (store.define name q owner).IsCoherent := by
  intro entry hentry
  rcases mem_setEntry hentry with rfl | hentry
  · exact hq
  · exact h entry hentry

theorem isCoherent_empty : Store.IsCoherent .empty := fun _ h => absurd h List.not_mem_nil

theorem isCoherent_recompute (hstore : s.store.IsCoherent)
    (hexact : ∀ statement tier, l.Reads statement tier →
      s.StaysExact tier o.strict [] statement.expr) :
    (l.recompute o s).store.IsCoherent ∧
      ∀ q, (l.recompute o s).line.outcome.result? = some q → q.IsCoherent := by
  rcases recompute_cases o s l with ⟨hsame, hnone⟩ | ⟨statement, tier, q, hread, hv, hresult, hdefine⟩
  · rw [hsame, hnone]
    exact ⟨hstore, fun q h => by cases h⟩
  · have hq := isCoherent_of_visits hstore (hexact statement tier hread) .here hv
    rw [hresult]
    refine ⟨?_, fun q' h => Option.some.inj h ▸ hq⟩
    rcases hdefine with hsame | ⟨name, hdefine⟩
    · exact hsame ▸ hstore
    · exact hdefine ▸ hstore.define hq name l.id

end

section
variable {Place : Type} {o : Options} {sheet : Sheet} {addresses : AddressReader} {store : Store}
  {lines : List (Line × Place)}

theorem turns_cons (l : Line) (place : Place) (rest : List (Line × Place)) :
    turns o sheet addresses store ((l, place) :: rest) =
      (l, ⟨store, sheet, addresses⟩) :: (l.recompute o ⟨store, sheet, addresses⟩).followedBy
        fun store => turns o sheet addresses store rest := by
  rw [turns]

theorem mem_followedBy_iff {α : Type} {turn : Turn} {rest : Store → List α} {x : α} :
    x ∈ turn.followedBy rest ↔ turn.fault = none ∧ x ∈ rest turn.store := by
  unfold Turn.followedBy
  split
  · rename_i fault hfault
    rw [hfault]
    exact ⟨fun h => absurd h List.not_mem_nil, fun h => by cases h.1⟩
  · rename_i hfault
    exact ⟨fun h => ⟨hfault, h⟩, fun h => h.2⟩

theorem mem_andThen {turn : Turn} {place : Place} {behind : List (Line × Place)}
    {goOn : Store → Pass Place} {x : Line × Place}
    (hfault : (turn.andThen place behind goOn).fault = none)
    (hx : x ∈ (turn.andThen place behind goOn).lines) :
    x.1 = turn.line ∨
      turn.fault = none ∧ (goOn turn.store).fault = none ∧ x ∈ (goOn turn.store).lines := by
  unfold Turn.andThen at hfault hx
  split at hfault
  · cases hfault
  · rename_i hturn
    rw [hturn] at hx
    rcases List.mem_cons.1 hx with rfl | hx
    · exact .inl rfl
    · exact .inr ⟨hturn, hfault, hx⟩

/-- Every turn finds coherent names, and so does whoever comes after the pass. -/
theorem isCoherent_runLines (hstore : store.IsCoherent)
    (hexact : StayExact o (turns o sheet addresses store lines)) :
    (∀ l s, (l, s) ∈ turns o sheet addresses store lines → s.store.IsCoherent) ∧
      (runLines o sheet addresses store lines).store.IsCoherent := by
  induction lines generalizing store with
  | nil => exact ⟨fun l s h => absurd h List.not_mem_nil, hstore⟩
  | cons entry rest ih =>
    obtain ⟨l, place⟩ := entry
    rw [turns_cons] at hexact ⊢
    have hturn : (l.recompute o ⟨store, sheet, addresses⟩).store.IsCoherent :=
      (isCoherent_recompute hstore (hexact _ _ List.mem_cons_self)).1
    rw [runLines]
    generalize l.recompute o ⟨store, sheet, addresses⟩ = turn at hexact hturn ⊢
    have hbehind : turn.fault = none → StayExact o (turns o sheet addresses turn.store rest) := by
      intro hfault l' s' h
      exact hexact l' s' (List.mem_cons_of_mem _ (mem_followedBy_iff.2 ⟨hfault, h⟩))
    constructor
    · intro l' s' h
      rcases List.mem_cons.1 h with h | h
      · obtain ⟨rfl, rfl⟩ := Prod.mk.inj h
        exact hstore
      · obtain ⟨hfault, h⟩ := mem_followedBy_iff.1 h
        exact (ih hturn (hbehind hfault)).1 l' s' h
    · cases hfault : turn.fault with
      | some fault =>
        rw [Turn.andThen, hfault]
        exact hturn
      | none =>
        rw [Turn.andThen, hfault]
        exact (ih hturn (hbehind hfault)).2

theorem exists_turn_of_mem_runLines (hfault : (runLines o sheet addresses store lines).fault = none) :
    ∀ x ∈ (runLines o sheet addresses store lines).lines,
      ∃ l s, (l, s) ∈ turns o sheet addresses store lines ∧ x.1 = (l.recompute o s).line := by
  induction lines generalizing store with
  | nil => exact fun x h => absurd h List.not_mem_nil
  | cons entry rest ih =>
    obtain ⟨l, place⟩ := entry
    rw [turns_cons]
    rw [runLines] at hfault ⊢
    intro x hx
    rcases mem_andThen hfault hx with hline | ⟨hturn, hfault, hx⟩
    · exact ⟨l, _, List.mem_cons_self, hline⟩
    · obtain ⟨l', s', hmem, heq⟩ := ih hfault x hx
      exact ⟨l', s', List.mem_cons_of_mem _ (mem_followedBy_iff.2 ⟨hturn, hmem⟩), heq⟩

end

def sideLine : Line := { id := "side", text := "r = 1 m" }

def areaLine : Line := { id := "area", text := "A1 * r + r ^ 2" }

def areaExpr : Expr :=
  .binary .add (.binary .mul (.cell "A1") (.name "r")) (.binary .pow (.name "r") (.literal 2 none))

def areaDocument : Document := ⟨[sideLine, areaLine], .pad, .empty⟩

def areaSheet : Sheet := .ofCells [(⟨0, 0⟩, .ok "2 m")]

def areaScope : Scope :=
  ⟨Store.define .empty "r" ⟨1, .ofLength, some "m"⟩ "side", areaSheet, .standard⟩

theorem reads_sideLine : ∃ tier, sideLine.Reads ⟨some "r", .literal 1 (some "m")⟩ tier := by
  have hkind : lineKind (normalize sideLine.text) ≠ .text := by decide +kernel
  have hprepared : preparedText sideLine.text = sideLine.text :=
    preparedText_eq_self (by decide) (by decide +kernel) (by decide +kernel)
  have hstrays : (lex sideLine.text).strays = [] := by decide +kernel
  have htokens : Token.significant (lex sideLine.text).tokens = [⟨.identifier, "r", 0⟩,
      ⟨.equal, "=", 2⟩, ⟨.number 1, "1", 4⟩, ⟨.unit, "m", 6⟩] := by decide +kernel
  have hlength : Grammar.Derives .sum [⟨.number 1, "1", 4⟩, ⟨.unit, "m", 6⟩]
      (.literal 1 (some "m")) :=
    .sumOfProduct (.productOfPower (.powerOfSigned (.signedOfPrimary (.quantity rfl rfl))))
  obtain ⟨hstrays, hparse⟩ :=
    parse_preparedText hprepared hstrays htokens (.definition rfl rfl hlength)
  obtain ⟨tier, hread⟩ := exists_readLine_of_parse hstrays hparse
  exact ⟨tier, hkind, hread⟩

theorem recompute_sideLine (s : Scope) : sideLine.recompute {} s =
    ⟨sideLine.settled (.value ⟨1, .ofLength, some "m"⟩ "1\u2009m"),
      s.store.define "r" ⟨1, .ofLength, some "m"⟩ "side", none⟩ := by
  obtain ⟨tier, hkind, hread⟩ := reads_sideLine
  have hvalue : evaluateLine true s sideLine.text =
      .ok (⟨some "r", .literal 1 (some "m")⟩, ⟨1, .ofLength, some "m"⟩) := by
    rw [evaluateLine_of_readLine hread]
    cases tier <;> rfl
  have hshown : displayQuantity ⟨1, .ofLength, some "m"⟩ none {} = .ok "1\u2009m" := rfl
  exact recompute_of_ok hkind (computeLine_of_evaluateLine (o := {}) hvalue hshown)

theorem turns_areaDocument : areaDocument.turns {} areaSheet .standard =
    [(sideLine, ⟨.empty, areaSheet, .standard⟩), (areaLine, areaScope)] := by
  have hnumbered : areaDocument.numbered = [(sideLine, 0), (areaLine, 1)] := rfl
  rw [Document.turns, hnumbered, turns_cons, recompute_sideLine, Turn.followedBy_of_none rfl,
    turns_cons]
  simp only [turns, Turn.followedBy_nil, areaScope]

theorem reads_areaLine : areaLine.Reads ⟨none, areaExpr⟩ .full := by
  have hkind : lineKind (normalize areaLine.text) ≠ .text := by decide +kernel
  have hprepared : preparedText areaLine.text = areaLine.text :=
    preparedText_eq_self (by decide) (by decide +kernel) (by decide +kernel)
  have hstrays : (lex areaLine.text).strays = [] := by decide +kernel
  have htokens : Token.significant (lex areaLine.text).tokens =
      ([⟨.cellRef, "A1", 0⟩] ++ ⟨.star, "*", 3⟩ :: [⟨.identifier, "r", 5⟩]) ++ ⟨.plus, "+", 7⟩ ::
        ([⟨.identifier, "r", 9⟩] ++ ⟨.caret, "^", 11⟩ :: [⟨.number 2, "2", 13⟩]) := by
    decide +kernel
  have hproduct : Grammar.Derives .product
      ([⟨.cellRef, "A1", 0⟩] ++ ⟨.star, "*", 3⟩ :: [⟨.identifier, "r", 5⟩])
      (.binary (.ofSymbol "*") (.cell "A1") (.name "r")) :=
    .productMore (.productOfPower (.powerOfSigned (.signedOfPrimary (.cell rfl)))) (.inl rfl)
      (.powerOfSigned (.signedOfPrimary (.name rfl)))
  have hpower : Grammar.Derives .power
      ([⟨.identifier, "r", 9⟩] ++ ⟨.caret, "^", 11⟩ :: [⟨.number 2, "2", 13⟩])
      (.binary (.ofSymbol "^") (.name "r") (.literal 2 none)) :=
    .powerMore (.signedOfPrimary (.name rfl)) rfl (.powerOfSigned (.signedOfPrimary (.number rfl)))
  obtain ⟨hstrays, hparse⟩ := parse_preparedText hprepared hstrays htokens
    (.formula (.sumMore (.sumOfProduct hproduct) (.inl rfl) (.productOfPower hpower)))
  exact ⟨hkind, readLine_of_parse hstrays hparse nofun⟩

theorem address_areaScope : areaScope.addresses (upper "A1") = .ok (some ⟨0, 0⟩) := rfl

theorem formula_areaScope :
    areaScope.sheet.formula (upper "A1") ⟨0, 0⟩ = .ok ⟨none, .literal 2 (some "m")⟩ := by
  have hstrays : (lex (cellText "2 m")).strays = [] := by decide +kernel
  have htokens : Token.significant (lex (cellText "2 m")).tokens =
      [⟨.number 2, "2", 0⟩, ⟨.unit, "m", 2⟩] := by decide +kernel
  refine (formula_eq_ok_iff rfl).2 ⟨hstrays, Grammar.parse_eq_ok_iff.2 ?_⟩
  rw [htokens]
  exact .formula (.sumOfProduct (.productOfPower (.powerOfSigned (.signedOfPrimary
    (.quantity rfl rfl)))))

theorem evalCell_areaScope : areaScope.evalCell [] "A1" = .ok ⟨2, .ofLength, some "m"⟩ :=
  evalCell_eq_ok_iff.2 ⟨_, _, address_areaScope, List.not_mem_nil, formula_areaScope, rfl⟩

theorem evalName_areaScope : areaScope.store.evalName "r" = .ok ⟨1, .ofLength, some "m"⟩ := rfl

theorem eval_product_areaScope : areaScope.eval (.binary .mul (.cell "A1") (.name "r")) =
    .ok ⟨2, ⟨2, 0, 0, 0, 0⟩, some "m^2"⟩ := by
  simp only [Scope.eval, Expr.evalWith, evalCell_areaScope, evalName_areaScope]
  rfl

theorem eval_power_areaScope : areaScope.eval (.binary .pow (.name "r") (.literal 2 none)) =
    .ok ⟨1, ⟨2, 0, 0, 0, 0⟩, some "m^2"⟩ := by
  simp only [Scope.eval, Expr.evalWith, evalName_areaScope]
  rfl

theorem eval_areaScope : areaScope.eval areaExpr = .ok ⟨3, ⟨2, 0, 0, 0, 0⟩, some "m^2"⟩ := by
  have hproduct := eval_product_areaScope
  have hpower := eval_power_areaScope
  have hsum : (2 : Float) + 1 = 3 := by decide +kernel
  unfold Scope.eval at hproduct hpower ⊢
  rw [areaExpr, Expr.evalWith, hproduct, hpower, ← hsum]
  rfl

theorem staysExact_metres (s : Scope) (tier : Tier) (strict : Bool) (stack : List Address)
    (x : Float) : s.StaysExact tier strict stack (.literal x (some "m")) := by
  refine .literal fun label ps hlabel hps => ?_
  obtain rfl := Option.some.inj hlabel
  exact fits_of_isUnitName (by decide) hps

theorem staysExact_areaExpr : areaScope.StaysExact .full true [] areaExpr := by
  have hcell : areaScope.StaysExact .full true [] (.cell "A1") := by
    refine .cell fun a statement ha hf => ?_
    obtain rfl := Option.some.inj (Except.ok.inj (address_areaScope.symm.trans ha))
    obtain rfl := Except.ok.inj (formula_areaScope.symm.trans hf)
    exact staysExact_metres _ _ _ _ 2
  have hproduct : areaScope.StaysExact .full true [] (.binary .mul (.cell "A1") (.name "r")) := by
    refine .binary hcell .name fun q r hq hr b => ?_
    obtain rfl := Except.ok.inj (evalCell_areaScope.symm.trans hq)
    obtain rfl := Except.ok.inj (evalName_areaScope.symm.trans hr)
    cases b <;> decide
  have hpower : areaScope.StaysExact .full true [] (.binary .pow (.name "r") (.literal 2 none)) := by
    refine .binary .name (.literal nofun) fun q r hq hr b => ?_
    obtain rfl := Except.ok.inj (evalName_areaScope.symm.trans hq)
    obtain rfl := Except.ok.inj hr
    cases b <;> decide
  refine .binary hproduct hpower fun q r hq hr b => ?_
  obtain rfl := Except.ok.inj (eval_product_areaScope.symm.trans hq)
  obtain rfl := Except.ok.inj (eval_power_areaScope.symm.trans hr)
  cases b <;> decide

theorem stayExact_areaDocument : StayExact {} (areaDocument.turns {} areaSheet .standard) := by
  rw [turns_areaDocument]
  intro l s hturn statement tier hread
  rcases List.mem_cons.1 hturn with hturn | hturn
  · obtain ⟨rfl, rfl⟩ := Prod.mk.inj hturn
    obtain ⟨_, -, hside⟩ := reads_sideLine
    obtain ⟨rfl, rfl⟩ := Prod.mk.inj (Except.ok.inj (hside.symm.trans hread.2))
    exact staysExact_metres _ _ _ _ 1
  · obtain ⟨rfl, rfl⟩ := Prod.mk.inj (List.mem_singleton.1 hturn)
    obtain ⟨rfl, rfl⟩ := Prod.mk.inj (Except.ok.inj (reads_areaLine.2.symm.trans hread.2))
    exact staysExact_areaExpr

theorem computeLine_areaLine (strict : Bool) : computeLine { strict } areaScope areaLine.text =
    .ok ⟨none, ⟨3, ⟨2, 0, 0, 0, 0⟩, some "m^2"⟩, "3\u2009m^2"⟩ := by
  have hvalue : evaluateLine strict areaScope areaLine.text =
      .ok (⟨none, areaExpr⟩, ⟨3, ⟨2, 0, 0, 0, 0⟩, some "m^2"⟩) := by
    have heval := eval_areaScope
    unfold Scope.eval at heval
    simp only [evaluateLine, evaluateLineWith, reads_areaLine.2, Tier.value, heval]
    rfl
  have hshown : displayQuantity ⟨3, ⟨2, 0, 0, 0, 0⟩, some "m^2"⟩ none {} = .ok "3\u2009m^2" := rfl
  exact computeLine_of_evaluateLine (o := { strict }) hvalue hshown

theorem result?_areaLine : (areaLine.recompute {} areaScope).line.outcome.result? =
    some ⟨3, ⟨2, 0, 0, 0, 0⟩, some "m^2"⟩ := by
  rw [recompute_of_ok reads_areaLine.1 (computeLine_areaLine true)]
  rfl

/-- In a pass over a document that starts without names, no value drifts from its display unit: not
the value of a part of a formula, be it on a line or in a cell, not the result of a line, and not the
value of a name. Showing the value of a line never ends in a complaint about its unit. -/
theorem recompute_hasUnitOfDims (d : Document) (o : Options) (sheet : Sheet)
    (addresses : AddressReader) (h : StayExact o (d.turns o sheet addresses)) :
    (∀ l s, (l, s) ∈ d.turns o sheet addresses →
      (∀ entry ∈ s.store.entries, entry.2.value.HasUnitOfDims) ∧
      (∀ q, (l.recompute o s).line.outcome.result? = some q → q.HasUnitOfDims) ∧
      ∀ statement tier, l.Reads statement tier →
        (∀ stack e q, s.Visits tier o.strict [] statement.expr stack e →
          s.valueAt tier o.strict stack e = .ok q → q.HasUnitOfDims) ∧
        ∀ q p f, s.valueAt tier o.strict [] statement.expr = .ok q →
          displayQuantity q none p = .error f → ∃ fault, f = .fault fault) ∧
    (∀ entry ∈ (d.recompute o sheet addresses).1.store.entries, entry.2.value.HasUnitOfDims) ∧
    ((d.recompute o sheet addresses).2 = none →
      ∀ l ∈ (d.recompute o sheet addresses).1.lines, ∀ q,
        l.outcome.result? = some q → q.HasUnitOfDims) := by
  obtain ⟨hscopes, hend⟩ := isCoherent_runLines isCoherent_empty h
  refine ⟨fun l s hturn => ?_, fun entry hentry => (hend entry hentry).hasUnitOfDims, ?_⟩
  · have hstore := hscopes l s hturn
    refine ⟨fun entry hentry => (hstore entry hentry).hasUnitOfDims, fun q hq => ?_,
      fun statement tier hread => ⟨fun stack e q hvisit hv => ?_, fun q p f hv hshow => ?_⟩⟩
    · exact ((isCoherent_recompute hstore (h l s hturn)).2 q hq).hasUnitOfDims
    · exact (isCoherent_of_visits hstore (h l s hturn statement tier hread) hvisit hv).hasUnitOfDims
    · have hq := isCoherent_of_visits hstore (h l s hturn statement tier hread) .here hv
      exact displayQuantity_eq_error hq hshow
  · intro hfault l hl q hq
    obtain ⟨x, hx, rfl⟩ := List.mem_map.1 hl
    obtain ⟨l', s, hturn, hline⟩ := exists_turn_of_mem_runLines hfault x (List.mem_mergeSort.1 hx)
    rw [hline] at hq
    exact ((isCoherent_recompute (hscopes l' s hturn) (h l' s hturn)).2 q hq).hasUnitOfDims

theorem recompute_area_hasUnitOfDims :
    StayExact {} (areaDocument.turns {} areaSheet .standard) ∧
    (areaLine, areaScope) ∈ areaDocument.turns {} areaSheet .standard ∧
    areaLine.Reads ⟨none, areaExpr⟩ .full ∧
    (∃ q, areaScope.valueAt .full true [] (.binary .mul (.cell "A1") (.name "r")) = .ok q ∧
      q.HasUnitOfDims) ∧
    ∃ q, (areaLine.recompute {} areaScope).line.outcome.result? = some q ∧ q.HasUnitOfDims := by
  have hturn : (areaLine, areaScope) ∈ areaDocument.turns {} areaSheet .standard := by
    rw [turns_areaDocument]
    exact List.mem_cons_of_mem _ List.mem_cons_self
  obtain ⟨-, hresult, hparts⟩ :=
    (recompute_hasUnitOfDims areaDocument {} areaSheet .standard stayExact_areaDocument).1 _ _ hturn
  have hproduct := (hparts _ _ reads_areaLine).1 [] _ _ (.left .here) eval_product_areaScope
  exact ⟨stayExact_areaDocument, hturn, reads_areaLine, ⟨_, eval_product_areaScope, hproduct⟩, _,
    result?_areaLine, hresult _ result?_areaLine⟩

end UnitSheet
