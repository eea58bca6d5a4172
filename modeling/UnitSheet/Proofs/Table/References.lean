import UnitSheet.Proofs.Address
import UnitSheet.Proofs.Document.Dimensions
import UnitSheet.Proofs.Line.Opening
import UnitSheet.Proofs.Table.Cells

set_option autoImplicit false

/-!
References to the cells of a table that has been recomputed. A line drops an equals sign at its end
and folds repeated units before it is read, and a reference to its cell does not; where there is
nothing to drop and to fold, a reference reads the value that the line has.
-/

namespace UnitSheet

/-- A line whose normal form neither ends in an equals sign nor has repeats to fold. -/
def IsPlainLine (text : String) : Prop :=
  (normalize text).toList.getLast? ≠ some '=' ∧ foldRepeats (normalize text) = normalize text

instance (text : String) : Decidable (IsPlainLine text) :=
  inferInstanceAs (Decidable (_ ∧ _))

section
variable {s : Scope} {text : String} {statement : Statement} {tier : Tier} {q : Quantity}

theorem preparedText_of_isPlainLine (h : IsPlainLine text)
    (hread : readLine text = .ok (statement, tier)) : preparedText text = normalize text := by
  rw [preparedText_of_endsOpenly (endsOpenly_of_readLine hread), trimEquals_normalize_of_ne h.1, h.2]

theorem isPlainLine_of_denotes (hstrays : (lex (normalize text)).strays = [])
    (hparse : Grammar.parse (lex (normalize text)).tokens = .ok statement)
    (h : s.Denotes statement.expr q) : IsPlainLine text := by
  have hread : statement.IsReadFrom (normalize text) := ⟨hstrays, Grammar.parse_eq_ok_iff.1 hparse⟩
  have hvalue : s.evalText (normalize text) = .ok q := by
    rw [Scope.evalText, Grammar.parseText, hparse]
    exact eval_eq_ok_iff_denotes.2 h
  refine ⟨fun hequal => ?_, (isUnderstood_of_evalText hstrays hvalue).foldRepeats_eq⟩
  obtain ⟨front, hfront⟩ := List.getLast?_eq_some_iff.1 hequal
  have hclosing := hread.closing hfront (by decide)
  exact absurd hclosing (by decide)

end

section
variable {s : Scope} {sheet : Sheet} {label shown text id : String} {a : Address} {v : CellValue}
  {statement : Statement} {tier : Tier} {q r : Quantity}

theorem denotes_cell_iff : s.Denotes (.cell label) q ↔
    ∃ a statement, s.addresses (upper label) = .ok (some a) ∧
      s.sheet.formula (upper label) a = .ok statement ∧ s.Denotes statement.expr q := by
  constructor
  · intro h
    cases h with
    | cell ha hformula h => exact ⟨_, _, ha, hformula, h⟩
  · rintro ⟨a, statement, ha, hformula, h⟩
    exact .cell ha hformula h

/-- A reference to a cell and the line of the cell read one text, in its normal form, if the line can
be read at all. -/
theorem cellText_of_lineText (hshown : v.shown = .ok shown) (htext : v.lineText = .ok text)
    (hread : readLine text = .ok (statement, tier)) : cellText shown = normalize text := by
  obtain ⟨shown', hshown', hcases⟩ := Table.exists_shown_of_lineText htext
  obtain rfl := Except.ok.inj (hshown'.symm.trans hshown)
  rcases hcases with rfl | ⟨rest, hrest, rfl⟩
  · exact cellText_of_readLine hread
  · exact cellText_of_equal hrest hread

/-- What the formula of a cell denotes is what its line denotes if the line is plain, and nothing
else. -/
theorem denotes_formula_iff (label : String) (hcell : s.sheet.read a = .ok shown) (htext : cellText shown = normalize text)
    (hread : readLine text = .ok (statement, tier)) (hq : s.Denotes statement.expr q) :
    (∃ found, s.sheet.formula label a = .ok found ∧ s.Denotes found.expr r) ↔
      r = q ∧ IsPlainLine text := by
  obtain ⟨hstrays, hparse⟩ := parse_of_readLine hread
  constructor
  · rintro ⟨found, hformula, hr⟩
    rw [formula_eq_ok_iff hcell, htext] at hformula
    have hplain := isPlainLine_of_denotes hformula.1 hformula.2 hr
    rw [preparedText_of_isPlainLine hplain hread] at hparse
    obtain rfl := Except.ok.inj (hparse.symm.trans hformula.2)
    exact ⟨hq.unique hr, hplain⟩
  · rintro ⟨rfl, hplain⟩
    rw [preparedText_of_isPlainLine hplain hread] at hstrays hparse
    exact ⟨statement, (formula_eq_ok_iff hcell).2 (htext ▸ ⟨hstrays, hparse⟩), hq⟩

end

section
variable {o : Options} {sheet : Sheet} {addresses : AddressReader} {d : Document} {l : Line}
  {q : Quantity}

theorem foldl_enter_of_definedName? {lines : List Line} {store : Store}
    (h : ∀ l ∈ lines, l.definedName? = none) : lines.foldl Store.enter store = store := by
  induction lines with
  | nil => rfl
  | cons l lines ih =>
    have hl : l.definition? = none := Option.map_eq_none_iff.1 (h l List.mem_cons_self)
    rw [List.foldl_cons, Store.enter, hl]
    exact ih fun l' hl' => h l' (List.mem_cons_of_mem l hl')

theorem exists_statement_of_recompute {s : Scope} (hq : (l.recompute o s).line.outcome.result? = some q) :
    ∃ statement tier, readLine (l.recompute o s).line.text = .ok (statement, tier) ∧
      s.Denotes statement.expr q := by
  have htext : (l.recompute o s).line.text = l.text := by rw [line_recompute, Line.settled]
  rw [htext]
  rcases recompute_cases o s l with ⟨-, hnone⟩ | ⟨statement, tier, q', hread, hvalue, hq', -⟩
  · rw [hnone] at hq
    cases hq
  · obtain rfl := Option.some.inj (hq'.symm.trans hq)
    exact ⟨statement, tier, hread.2, denotes_of_valueAt hvalue⟩

theorem scope_of_definedName? {Place : Type} {lines : List (Line × Place)} {s : Scope}
    (hnames : ∀ t ∈ turns o sheet addresses .empty lines, (t.1.recompute o t.2).line.definedName? = none)
    (hturn : (l, s) ∈ turns o sheet addresses .empty lines) : s = ⟨.empty, sheet, addresses⟩ := by
  obtain ⟨before, behind, hturns⟩ := List.append_of_mem hturn
  have hstore : s.store = .empty := by
    rw [store_of_turns hturns, ← List.foldl_map (f := fun t : Line × Scope => (t.1.recompute o t.2).line)]
    refine foldl_enter_of_definedName? fun l' hl' => ?_
    obtain ⟨t, ht, rfl⟩ := List.mem_map.1 hl'
    exact hnames t (by rw [hturns]; exact List.mem_append_left _ ht)
  obtain ⟨hsheet, haddresses⟩ := scope_of_mem_turns hturn
  obtain ⟨store, sheet', addresses'⟩ := s
  dsimp only at hstore hsheet haddresses
  rw [hstore, hsheet, haddresses]

/-- Where no line defines a name, there are no names behind a pass, and the result of a line is what
its statement denotes without any. -/
theorem recompute_of_definedName? {after : Document}
    (h : d.recompute o sheet addresses = (after, none))
    (hnames : ∀ l ∈ after.lines, l.definedName? = none) :
    after.store = .empty ∧ ∀ l ∈ after.lines, ∀ q, l.outcome.result? = some q →
      ∃ statement tier, readLine l.text = .ok (statement, tier) ∧
        (⟨.empty, sheet, addresses⟩ : Scope).Denotes statement.expr q := by
  have hpass : (runLines o sheet addresses .empty d.numbered).fault = none := congrArg Prod.snd h
  obtain rfl : (d.recompute o sheet addresses).1 = after := congrArg Prod.fst h
  have hlines := (lines_runLines_of_none hpass).2
  simp only [← line_recompute] at hlines
  simp only [← Document.mem_ordered_iff, ordered_recompute] at hnames ⊢
  refine ⟨(store_runLines hpass).trans (foldl_enter_of_definedName? hnames), ?_⟩
  rw [hlines] at hnames ⊢
  intro l hl q hq
  obtain ⟨⟨first, s⟩, hturn, rfl⟩ := List.mem_map.1 hl
  obtain rfl := scope_of_definedName? (fun t ht => hnames _ (List.mem_map_of_mem ht)) hturn
  exact exists_statement_of_recompute hq

end

namespace Table

section
variable {t : Table} {o : Options} {after : Document} {l : Line} {q : Quantity}

theorem recompute_eq_ok {fault : Option Fault} (h : t.recompute o = .ok (after, fault)) :
    ∃ d, t.document = .ok d ∧ d.recompute o t.sheet .standard = (after, fault) := by
  unfold recompute at h
  cases hd : t.document with
  | error fault =>
    rw [hd] at h
    cases h
  | ok d =>
    rw [hd] at h
    exact ⟨d, rfl, Except.ok.inj h⟩

theorem exists_cell_of_mem_recompute {fault : Option Fault} (h : t.recompute o = .ok (after, fault))
    (hl : l ∈ after.lines) : ∃ a v, (a, v) ∈ t.cells ∧ v.lineText = .ok l.text ∧ a.label = .ok l.id ∧
      l.place.address = some a := by
  obtain ⟨d, hd, hrecompute⟩ := recompute_eq_ok h
  have hfresh := fresh_recompute_document d o t.sheet .standard
  rw [hrecompute] at hfresh
  have hlines : after.lines.map Line.fresh = d.lines.map Line.fresh := congrArg Document.lines hfresh
  have hmem : l.fresh ∈ d.lines.map Line.fresh := hlines ▸ List.mem_map_of_mem hl
  obtain ⟨first, hfirst, hsame⟩ := List.mem_map.1 hmem
  obtain ⟨a, v, hcell, htext, hid, haddress⟩ := exists_cell_of_mem_document hd hfirst
  obtain ⟨hid', htext', hplace⟩ : first.id = l.id ∧ first.text = l.text ∧ first.place = l.place := by
    simpa [Line.fresh] using hsame
  exact ⟨a, v, hcell, htext' ▸ htext, hid' ▸ hid, hplace ▸ haddress⟩

/-- Behind a recomputation of a table whose cells define no names, a line with a result has the label
of its cell for its id, and a reference to the cell has that result for its value if the line is plain.
If an equals sign or a repeat has been dropped from the line, the reference has no value. -/
theorem eval_cell_iff (ht : t.IsMade) (h : t.recompute o = .ok (after, none))
    (hnames : ∀ l ∈ after.lines, l.definedName? = none) (hl : l ∈ after.lines)
    (hq : l.outcome.result? = some q) :
    (∃ a, l.place.address = some a ∧ a.label = .ok l.id) ∧
      ∀ r, (⟨after.store, t.sheet, .standard⟩ : Scope).eval (.cell l.id) = .ok r ↔
        r = q ∧ IsPlainLine l.text := by
  obtain ⟨a, v, hcell, htext, hid, haddress⟩ := exists_cell_of_mem_recompute h hl
  obtain ⟨d, hd, hrecompute⟩ := recompute_eq_ok h
  obtain ⟨hstore, hresults⟩ := recompute_of_definedName? hrecompute hnames
  obtain ⟨statement, tier, hread, hvalue⟩ := hresults l hl q hq
  obtain ⟨shown, hshown, -⟩ := exists_shown_of_lineText htext
  have haddress' : AddressReader.standard (upper l.id) = .ok (some a) :=
    standard_of_label (ht.isProper.row _ hcell) hid
  refine ⟨⟨a, haddress, hid⟩, fun r => ?_⟩
  rw [hstore, eval_eq_ok_iff_denotes, denotes_cell_iff]
  have hread' : (⟨.empty, t.sheet, .standard⟩ : Scope).sheet.read a = .ok shown :=
    read_sheet ht.isProper hcell hshown
  rw [← denotes_formula_iff (upper l.id) hread' (cellText_of_lineText hshown htext hread) hread hvalue]
  constructor
  · rintro ⟨a', found, ha', hfound⟩
    obtain rfl : a = a' := Option.some.inj (Except.ok.inj (haddress'.symm.trans ha'))
    exact ⟨found, hfound⟩
  · rintro ⟨found, hfound⟩
    exact ⟨a, found, haddress', hfound⟩

def settledIds? (t : Table) (o : Options) : Option (List (String × Option String)) :=
  match t.recompute o with
  | .ok (after, none) =>
    if after.lines.all fun l => l.outcome.result?.isSome then
      some (after.lines.map fun l => (l.id, l.definedName?))
    else none
  | _ => none

theorem exists_line_of_settledIds? {id : String} (h : t.settledIds? o = some [(id, none)]) :
    ∃ after l q, t.recompute o = .ok (after, none) ∧ after.lines = [l] ∧ l.id = id ∧
      l.definedName? = none ∧ l.outcome.result? = some q := by
  unfold settledIds? at h
  split at h
  · rename_i after hrecompute
    split at h
    · rename_i hresults
      obtain ⟨l, hlines, hl⟩ := List.map_eq_singleton_iff.1 (Option.some.inj h)
      rw [hlines, List.all_cons, List.all_nil, Bool.and_true] at hresults
      obtain ⟨q, hq⟩ := Option.isSome_iff_exists.1 hresults
      exact ⟨after, l, q, hrecompute, hlines, congrArg Prod.fst hl, congrArg Prod.snd hl, hq⟩
    · cases h
  · cases h

def spanTable : Table := .ofRows [[.text "= 5 ft + 3 ft"]]

theorem eval_cell_iff_spanTable : ∃ after l q, spanTable.recompute {} = .ok (after, none) ∧
    l ∈ after.lines ∧ l.outcome.result? = some q ∧
      (⟨after.store, spanTable.sheet, .standard⟩ : Scope).eval (.cell l.id) = .ok q := by
  have hfound : spanTable.settledIds? {} = some [("A1", none)] := by decide +kernel
  obtain ⟨after, l, q, h, hlines, hid, hname, hq⟩ := exists_line_of_settledIds? hfound
  have hl : l ∈ after.lines := by simp [hlines]
  have hnames : ∀ l ∈ after.lines, l.definedName? = none := by simp [hlines, hname]
  obtain ⟨a, v, hcell, htext, -⟩ := exists_cell_of_mem_recompute h hl
  obtain rfl : v = .text "= 5 ft + 3 ft" := by
    have hcells : spanTable.cells = [(⟨0, 0⟩, .text "= 5 ft + 3 ft")] := rfl
    rw [hcells, List.mem_singleton] at hcell
    exact congrArg Prod.snd hcell
  have htyped : (CellValue.text "= 5 ft + 3 ft").lineText = .ok "5 ft + 3 ft" := by decide +kernel
  have hplain : IsPlainLine l.text := by
    rw [Except.ok.inj (htext.symm.trans htyped)]
    decide +kernel
  exact ⟨after, l, q, h, hl, hq, ((eval_cell_iff (.rows _) h hnames hl hq).2 q).2 ⟨rfl, hplain⟩⟩

def totalTable : Table := .ofRows [[.text "5 ft + 3 ft ="]]

/-- The line drops the sign and has a result, and no reference to the cell has a value. -/
theorem eval_cell_totalTable : ∃ after l q, totalTable.recompute {} = .ok (after, none) ∧
    (∀ l ∈ after.lines, l.definedName? = none) ∧ l ∈ after.lines ∧ l.outcome.result? = some q ∧
      ∀ r, (⟨after.store, totalTable.sheet, .standard⟩ : Scope).eval (.cell l.id) ≠ .ok r := by
  have hfound : totalTable.settledIds? {} = some [("A1", none)] := by decide +kernel
  obtain ⟨after, l, q, h, hlines, hid, hname, hq⟩ := exists_line_of_settledIds? hfound
  refine ⟨after, l, q, h, by simp [hlines, hname], by simp [hlines], hq, fun r hr => ?_⟩
  rw [eval_eq_ok_iff_denotes, hid, denotes_cell_iff] at hr
  obtain ⟨a, statement, ha, hformula, -⟩ := hr
  have hfirst : AddressReader.standard (upper "A1") = .ok (some ⟨0, 0⟩) :=
    standard_of_label (a := ⟨0, 0⟩) (by decide) (by decide +kernel)
  obtain rfl := Option.some.inj (Except.ok.inj (hfirst.symm.trans ha))
  have hread : totalTable.sheet.read ⟨0, 0⟩ = .ok "5 ft + 3 ft =" := by rfl
  have htext : cellText "5 ft + 3 ft =" = "5 ft + 3 ft =" := by decide +kernel
  rw [formula_eq_ok_iff hread, htext] at hformula
  have hfrom : statement.IsReadFrom "5 ft + 3 ft =" :=
    ⟨hformula.1, Grammar.parse_eq_ok_iff.1 hformula.2⟩
  have hend : "5 ft + 3 ft =".toList = "5 ft + 3 ft ".toList ++ ['='] := rfl
  exact absurd (hfrom.closing hend (by decide)) (by decide)

end

end Table

end UnitSheet
