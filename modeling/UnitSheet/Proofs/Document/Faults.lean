import UnitSheet.Proofs.Document.Pass
import UnitSheet.Proofs.Document.Units
import UnitSheet.Proofs.Evaluation.Breakdowns
import UnitSheet.Proofs.Line.Repeats
import UnitSheet.Proofs.Quantity.Display
import UnitSheet.Proofs.Token.Spelling

set_option autoImplicit false

namespace UnitSheet

/-- What a turn puts on a line: nothing on a text, else the value or what is wrong with it. A
breakdown leaves nothing. -/
def Line.answer (o : Options) (s : Scope) (l : Line) : Outcome :=
  if lineKind (normalize l.text) = .text then .blank
  else match computeLine o s l.text with
    | .ok c => .value c.value c.shown
    | .error (.mistake error) => .failed error
    | .error (.fault _) => .blank

/-- A part of the statement on a line breaks down, or the display of its value. -/
inductive Line.BreaksDown (o : Options) (s : Scope) (l : Line) (fault : Fault) : Prop
  | part {statement : Statement} {tier : Tier} {stack : List Address} {e : Expr} :
      l.Reads statement tier → s.Visits tier o.strict [] statement.expr stack e →
        s.BreaksAt tier o.strict stack e fault → l.BreaksDown o s fault
  | display {statement : Statement} {tier : Tier} {q : Quantity} :
      l.Reads statement tier → s.valueAt tier o.strict [] statement.expr = .ok q →
        displayQuantity q none o.preferences = .error (.fault fault) → l.BreaksDown o s fault

section
variable {o : Options} {s : Scope} {l : Line} {text : String} {fault : Fault}

theorem line_recompute (o : Options) (s : Scope) (l : Line) :
    (l.recompute o s).line = l.settled (l.answer o s) := by
  rcases turn_cases o s l with ⟨hkind, h⟩ | ⟨hkind, ⟨fault, hc, h⟩ | ⟨e, hc, h⟩ | ⟨c, hc, h⟩⟩ <;>
    simp [h, Line.answer, hkind]
  all_goals simp [hc]

theorem fault_recompute : (l.recompute o s).fault = some fault ↔
    lineKind (normalize l.text) ≠ .text ∧ computeLine o s l.text = .error (.fault fault) := by
  rcases turn_cases o s l with ⟨hkind, h⟩ | ⟨hkind, ⟨other, hc, h⟩ | ⟨e, hc, h⟩ | ⟨c, hc, h⟩⟩
  · simp [h, hkind]
  · simp [h, hkind, hc]
  · simp [h, hkind, hc]
  · simp [h, hkind, hc]

theorem computeLine_eq_fault_iff : computeLine o s text = .error (.fault fault) ↔
    ∃ statement tier, readLine text = .ok (statement, tier) ∧
      (s.valueAt tier o.strict [] statement.expr = .error (.fault fault) ∨
        ∃ q, s.valueAt tier o.strict [] statement.expr = .ok q ∧
          displayQuantity q none o.preferences = .error (.fault fault)) := by
  unfold computeLine
  cases hread : readLine text with
  | error e => simp [evaluateLine, evaluateLineWith, hread]
  | ok found =>
    obtain ⟨statement, tier⟩ := found
    have hline : evaluateLine o.strict s text =
        (s.valueAt tier o.strict [] statement.expr).map (statement, ·) := evaluateLine_of_readLine hread
    rw [hline]
    cases hv : s.valueAt tier o.strict [] statement.expr with
    | error failure =>
      constructor
      · intro h
        obtain rfl := Except.error.inj h
        exact ⟨statement, tier, rfl, .inl hv⟩
      · rintro ⟨_, _, hsame, h⟩
        obtain ⟨rfl, rfl⟩ := Prod.mk.inj (Except.ok.inj hsame)
        rw [hv] at h
        rcases h with h | ⟨q, h, -⟩
        · exact congrArg _ (Except.error.inj h)
        · cases h
    | ok q =>
      constructor
      · intro h
        exact ⟨statement, tier, rfl, .inr ⟨q, hv, map_eq_error_iff.1 h⟩⟩
      · rintro ⟨_, _, hsame, h⟩
        obtain ⟨rfl, rfl⟩ := Prod.mk.inj (Except.ok.inj hsame)
        rw [hv] at h
        rcases h with h | ⟨q', h, hshow⟩
        · cases h
        · obtain rfl := Except.ok.inj h
          exact map_eq_error_iff.2 hshow

/-- A turn ends in a fault exactly if its line breaks down. -/
theorem fault_recompute_iff : (l.recompute o s).fault = some fault ↔ l.BreaksDown o s fault := by
  rw [fault_recompute, computeLine_eq_fault_iff]
  constructor
  · rintro ⟨hkind, statement, tier, hread, hv | ⟨q, hv, hshow⟩⟩
    · have hsum : tier = .restricted → Grammar.LiteralSum statement.expr := by
        rintro rfl
        exact literalSum_of_readLine hread
      obtain ⟨stack, e, hvisit, hbreak⟩ := (valueAt_eq_fault_iff hsum).1 hv
      exact .part ⟨hkind, hread⟩ hvisit hbreak
    · exact .display ⟨hkind, hread⟩ hv hshow
  · intro h
    cases h with
    | @part statement tier stack e hread hvisit hbreak =>
      refine ⟨hread.1, statement, tier, hread.2, .inl (valueAt_of_breaksAt ?_ hvisit hbreak)⟩
      rintro rfl
      exact literalSum_of_readLine hread.2
    | @display statement tier q hread hv hshow =>
      exact ⟨hread.1, statement, tier, hread.2, .inr ⟨q, hv, hshow⟩⟩

theorem isArithmetic_of_fault (h : (Failure.fault fault).IsArithmetic) :
    fault = .overflow ∨ fault = .zeroDivision := by
  cases h with
  | overflow => exact .inl rfl
  | zeroDivision => exact .inr rfl

/-- With the units of a named system, and columns that have labels, nothing but the arithmetic of
numbers breaks down. -/
theorem Line.BreaksDown.isArithmetic (hpreferences : o.preferences.IsNamed)
    (hcolumns : s.addresses.HasColumns) (h : l.BreaksDown o s fault) :
    fault = .overflow ∨ fault = .zeroDivision := by
  cases h with
  | @part statement tier stack e hread hvisit hbreak =>
    cases hbreak with
    | unit hunit => exact isArithmetic_of_fault (isArithmetic_of_resolveUnit hunit)
    | exponent => exact .inl rfl
    | cycle htier ha hs hcircular =>
      subst htier
      exact absurd (valueAt_of_breaksAt (by simp) hvisit (.cycle rfl ha hs hcircular))
        (eval_ne_column hcolumns _)
  | display hread hv hshow =>
    rcases displayQuantity_eq_fault hshow with ⟨label, hconvert⟩ | ⟨-, hzero, hnone⟩
    · rcases convertTo_eq_fault hconvert with hunit | ⟨hfault, -⟩
      · exact isArithmetic_of_fault (isArithmetic_of_resolveUnit hunit)
      · exact .inr hfault
    · exact absurd hnone (preferredUnit?_ne_none hpreferences hzero)

end

section
variable {Place : Type} {o : Options} {sheet : Sheet} {addresses : AddressReader} {store : Store}
  {lines : List (Line × Place)}

theorem scope_of_mem_turns {l : Line} {s : Scope}
    (h : (l, s) ∈ turns o sheet addresses store lines) : s.sheet = sheet ∧ s.addresses = addresses := by
  induction lines generalizing store with
  | nil => exact absurd h List.not_mem_nil
  | cons entry rest ih =>
    obtain ⟨l', place⟩ := entry
    rw [turns_cons] at h
    rcases List.mem_cons.1 h with h | h
    · obtain ⟨-, rfl⟩ := Prod.mk.inj h
      exact ⟨rfl, rfl⟩
    · exact ih (mem_followedBy_iff.1 h).2

/-- The fault of a pass is the fault of one of its turns. -/
theorem fault_runLines_iff {fault : Fault} :
    (runLines o sheet addresses store lines).fault = some fault ↔
      ∃ l s, (l, s) ∈ turns o sheet addresses store lines ∧ (l.recompute o s).fault = some fault := by
  induction lines generalizing store with
  | nil => simp [runLines, turns]
  | cons entry rest ih =>
    obtain ⟨l, place⟩ := entry
    rw [runLines_cons, turns_cons]
    cases hturn : (l.recompute o ⟨store, sheet, addresses⟩).fault with
    | some other =>
      rw [andThen_of_fault hturn]
      constructor
      · intro h
        exact ⟨l, _, List.mem_cons_self, hturn.trans h⟩
      · rintro ⟨l', s', hmem, hfault⟩
        rcases List.mem_cons.1 hmem with hmem | hmem
        · obtain ⟨rfl, rfl⟩ := Prod.mk.inj hmem
          exact hturn.symm.trans hfault
        · rw [(mem_followedBy_iff.1 hmem).1] at hturn
          cases hturn
    | none =>
      rw [andThen_of_none hturn]
      dsimp only
      rw [ih]
      constructor
      · rintro ⟨l', s', hmem, hfault⟩
        exact ⟨l', s', List.mem_cons_of_mem _ (mem_followedBy_iff.2 ⟨hturn, hmem⟩), hfault⟩
      · rintro ⟨l', s', hmem, hfault⟩
        rcases List.mem_cons.1 hmem with hmem | hmem
        · obtain ⟨rfl, rfl⟩ := Prod.mk.inj hmem
          rw [hturn] at hfault
          cases hfault
        · exact ⟨l', s', (mem_followedBy_iff.1 hmem).2, hfault⟩

/-- Without a fault every line has its turn, and is left with what its text amounts to. -/
theorem lines_runLines_of_none (h : (runLines o sheet addresses store lines).fault = none) :
    (turns o sheet addresses store lines).map Prod.fst = lines.map Prod.fst ∧
      (runLines o sheet addresses store lines).lines.map Prod.fst =
        (turns o sheet addresses store lines).map fun t => t.1.settled (t.1.answer o t.2) := by
  induction lines generalizing store with
  | nil => exact ⟨rfl, rfl⟩
  | cons entry rest ih =>
    obtain ⟨l, place⟩ := entry
    rw [runLines_cons] at h ⊢
    rw [turns_cons]
    cases hturn : (l.recompute o ⟨store, sheet, addresses⟩).fault with
    | some fault =>
      rw [andThen_of_fault hturn] at h
      cases h
    | none =>
      rw [andThen_of_none hturn] at h ⊢
      obtain ⟨hfst, hlines⟩ := ih h
      simp [Turn.followedBy, hturn, hfst, hlines, line_recompute]

end

/-- Recomputing a document returns unless a line breaks down in its turn. If it returns, every line
has had its turn and holds what its text amounts to with the names that it finds, so what is wrong
with a line is on this line and all others are there. In a named system of units, and with columns
that have labels, the only breakdowns are an overflow and a unit of size zero. -/
theorem recompute_returns_iff (d : Document) (o : Options) (sheet : Sheet)
    (addresses : AddressReader) :
    ((d.recompute o sheet addresses).2 = none ↔
      ∀ l s fault, (l, s) ∈ d.turns o sheet addresses → ¬ l.BreaksDown o s fault) ∧
    ((d.recompute o sheet addresses).2 = none →
      (d.turns o sheet addresses).map Prod.fst = d.ordered ∧
      (d.recompute o sheet addresses).1.ordered =
        (d.turns o sheet addresses).map fun t => t.1.settled (t.1.answer o t.2)) ∧
    (o.preferences.IsNamed → addresses.HasColumns →
      ∀ fault, (d.recompute o sheet addresses).2 = some fault →
        fault = .overflow ∨ fault = .zeroDivision) := by
  have hfault : ∀ fault, (d.recompute o sheet addresses).2 = some fault ↔
      ∃ l s, (l, s) ∈ d.turns o sheet addresses ∧ l.BreaksDown o s fault := by
    intro fault
    simp only [← fault_recompute_iff]
    exact fault_runLines_iff
  refine ⟨?_, fun h => ?_, fun hpreferences hcolumns fault h => ?_⟩
  · constructor
    · intro h l s fault hturn hbreak
      rw [(hfault fault).2 ⟨l, s, hturn, hbreak⟩] at h
      cases h
    · intro h
      cases hpass : (d.recompute o sheet addresses).2 with
      | none => rfl
      | some fault =>
        obtain ⟨l, s, hturn, hbreak⟩ := (hfault fault).1 hpass
        exact absurd hbreak (h l s fault hturn)
  · have hnone : (runLines o sheet addresses .empty d.numbered).fault = none := h
    obtain ⟨hfst, hlines⟩ := lines_runLines_of_none hnone
    exact ⟨hfst, (ordered_recompute d o sheet addresses).trans hlines⟩
  · obtain ⟨l, s, hturn, hbreak⟩ := (hfault fault).1 h
    exact hbreak.isArithmetic hpreferences ((scope_of_mem_turns hturn).2 ▸ hcolumns)

theorem readLine_hugePower : readLine "1 ^ 1e19" =
    .ok (⟨none, .binary .pow (.literal 1 none) (.literal 1e19 none)⟩, .full) := by
  have hprepared : preparedText "1 ^ 1e19" = "1 ^ 1e19" :=
    preparedText_eq_self (by decide) (by decide +kernel) (by decide +kernel)
  have hstrays : (lex "1 ^ 1e19").strays = [] := by decide +kernel
  have htokens : Token.significant (lex "1 ^ 1e19").tokens =
      [⟨.number 1, "1", 0⟩] ++ ⟨.caret, "^", 2⟩ :: [⟨.number 1e19, "1e19", 4⟩] := by decide +kernel
  have hpower : Grammar.Derives .power
      ([⟨.number 1, "1", 0⟩] ++ ⟨.caret, "^", 2⟩ :: [⟨.number 1e19, "1e19", 4⟩])
      (.binary (.ofSymbol "^") (.literal 1 none) (.literal 1e19 none)) :=
    .powerMore (.signedOfPrimary (.number rfl)) rfl (.powerOfSigned (.signedOfPrimary (.number rfl)))
  have hsum : ¬ Grammar.LiteralSum (.binary .pow (.literal 1 none) (.literal 1e19 none)) := by
    intro h
    cases h with
    | more _ _ _ hop => simp at hop
  obtain ⟨hstrays, hparse⟩ := parse_preparedText hprepared hstrays htokens
    (.formula (.sumOfProduct (.productOfPower hpower)))
  exact readLine_of_parse hstrays hparse hsum

def hugePower (id : String) : Line := { id, text := "1 ^ 1e19" }

theorem breaksDown_hugePower (o : Options) (s : Scope) (id : String) :
    (hugePower id).BreaksDown o s .overflow := by
  have hkind : lineKind (normalize "1 ^ 1e19") ≠ .text := by decide +kernel
  have hbreak : s.BreaksAt .full o.strict []
      (.binary .pow (.literal 1 none) (.literal 1e19 none)) .overflow :=
    .exponent rfl rfl rfl rfl (by decide +kernel) (by rfl)
  exact .part ⟨hkind, readLine_hugePower⟩ .here hbreak

def stoppedDocument : Document :=
  ⟨[{ id := "1", text := "a = 1 m" }, hugePower "2", { id := "3", text := "b = 2 m" }], .pad, .empty⟩

theorem runLines_stoppedDocument : ∃ first second store,
    runLines {} .empty .standard .empty stoppedDocument.numbered =
      ⟨[(first, 0), (second, 1), ({ id := "3", text := "b = 2 m" }, 2)], store, some .overflow⟩ := by
  have hnumbered : stoppedDocument.numbered = [({ id := "1", text := "a = 1 m" }, 0),
      (hugePower "2", 1), ({ id := "3", text := "b = 2 m" }, 2)] := rfl
  have hfirst : (Line.recompute {} ⟨.empty, .empty, .standard⟩
      { id := "1", text := "a = 1 m" }).fault = none := by decide +kernel
  rw [hnumbered, runLines_cons, andThen_of_none hfirst, runLines_cons,
    andThen_of_fault (fault_recompute_iff.2 (breaksDown_hugePower _ _ _))]
  exact ⟨_, _, _, rfl⟩

theorem fault_stoppedDocument :
    (stoppedDocument.recompute {} .empty .standard).2 = some .overflow := by
  obtain ⟨first, second, store, hpass⟩ := runLines_stoppedDocument
  rw [recompute_eq, hpass]

/-- The overflow ends the pass, and the last line has no turn. -/
theorem recompute_stoppedDocument :
    (stoppedDocument.recompute {} .empty .standard).2 = some .overflow ∧
      ∃ l, (stoppedDocument.recompute {} .empty .standard).1.ordered[2]? = some l ∧
        l.text = "b = 2 m" ∧ l.kind ≠ lineKind (normalize l.text) := by
  obtain ⟨first, second, store, hpass⟩ := runLines_stoppedDocument
  refine ⟨fault_stoppedDocument, { id := "3", text := "b = 2 m" }, ?_, rfl, by decide +kernel⟩
  rw [ordered_recompute, hpass]
  rfl

end UnitSheet
