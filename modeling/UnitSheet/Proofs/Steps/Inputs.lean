import UnitSheet.Proofs.Document.Names
import UnitSheet.Proofs.Evaluation.Reference
import UnitSheet.Proofs.Grammar.RoundTrip
import UnitSheet.Proofs.Quantity.Chosen
import UnitSheet.Proofs.Steps
import UnitSheet.Proofs.Text.Upper

set_option autoImplicit false

namespace UnitSheet

namespace Reference

def text : Reference → String
  | name n => n
  | cell label => label

def key : Reference → String
  | name n => n
  | cell label => upper label

end Reference

def Expr.segments : Expr → List (String ⊕ Reference)
  | literal value none => [.inl (literalText value)]
  | literal value (some unit) => [.inl s!"{literalText value} {unit}"]
  | name n => [.inr (.name n)]
  | cell label => [.inr (.cell label)]
  | signed sign operand => .inl sign.symbol :: operand.segments
  | binary op left right =>
    .inl "(" :: left.segments ++ .inl s!" {op.symbol} " :: right.segments ++ [.inl ")"]

def writeSegments (shown : Reference → String) (segments : List (String ⊕ Reference)) : String :=
  String.join (segments.map (Sum.elim id shown))

def Statement.opening (s : Statement) : String :=
  match s.target with
  | some name => name ++ " = "
  | none => ""

section
variable {e : Expr} {r : Reference} {shown shown' : Reference → String}
  {segments segments' : List (String ⊕ Reference)}

theorem mem_segments_iff : .inr r ∈ e.segments ↔ r ∈ e.references := by
  induction e with
  | literal value unit => cases unit <;> simp [Expr.segments, Expr.references]
  | name n => simp [Expr.segments, Expr.references]
  | cell label => simp [Expr.segments, Expr.references]
  | signed sign operand ih => simpa [Expr.segments, Expr.references] using ih
  | binary op left right ihl ihr => simp [Expr.segments, Expr.references, ihl, ihr]

theorem writeSegments_congr (h : ∀ r, .inr r ∈ segments → shown r = shown' r) :
    writeSegments shown segments = writeSegments shown' segments := by
  refine congrArg String.join (List.map_congr_left fun segment hsegment => ?_)
  cases segment with
  | inl text => rfl
  | inr r => exact h r hsegment

theorem writeSegments_cons (segment : String ⊕ Reference) :
    writeSegments shown (segment :: segments) =
      Sum.elim id shown segment ++ writeSegments shown segments := by
  rw [writeSegments, List.map_cons, String.join_cons]
  rfl

theorem writeSegments_append :
    writeSegments shown (segments ++ segments') =
      writeSegments shown segments ++ writeSegments shown segments' := by
  rw [writeSegments, List.map_append, String.join_append]
  rfl

theorem text_eq_writeSegments (values : NameMap String) (e : Expr) :
    e.text values = writeSegments (fun r => (values.get? r.key).getD r.text) e.segments := by
  induction e with
  | literal value unit => cases unit <;> simp [Expr.text, Expr.segments, writeSegments]
  | name n => simp [Expr.text, Expr.segments, writeSegments, Reference.key, Reference.text]
  | cell label => simp [Expr.text, Expr.segments, writeSegments, Reference.key, Reference.text]
  | signed sign operand ih => rw [Expr.text, Expr.segments, writeSegments_cons, ih]; rfl
  | binary op left right ihl ihr =>
    simp only [Expr.text, Expr.segments, List.cons_append, List.append_assoc, writeSegments_cons,
      writeSegments_append, ihl, ihr]
    simp [writeSegments, toString, String.append_assoc]

theorem textWith_eq_writeSegments (values : NameMap String) (s : Statement) :
    s.textWith values = s.opening ++
      writeSegments (fun r => (values.get? r.key).getD r.text) s.expr.segments := by
  obtain ⟨target, e⟩ := s
  rw [← text_eq_writeSegments]
  cases target <;> simp [Statement.textWith, Statement.opening, toString]

end

theorem ne_upper_of_isNameText {n label : String} (hname : IsNameText n.toList)
    (hcell : IsCellText label.toList) : n ≠ upper label := by
  obtain ⟨letters, digits, -, hne, hdigits, hlabel⟩ := hcell
  rintro rfl
  have hlast : digits.getLast hne ∈ (upper label).toList := by
    rw [upper, String.toList_ofList, hlabel, List.flatMap_append]
    have hmem := List.getLast_mem hne
    refine List.mem_append_right _ (List.mem_flatMap.2 ⟨_, hmem, ?_⟩)
    rw [upperChar_of_isDecimalDigit (hdigits _ hmem)]
    exact List.mem_singleton_self _
  have hdigit := hdigits _ (List.getLast_mem hne)
  have hword := isNameChar_of_isNameText hname _ hlast
  rw [isNameChar, Bool.or_eq_true] at hword
  rcases hword with hstart | hquote
  · rw [isDecimalDigit_of_isNameStart hstart] at hdigit
    cases hdigit
  · rw [beq_iff_eq.1 hquote] at hdigit
    revert hdigit
    decide

def Reference.IsWritten : Reference → Prop
  | .name n => IsNameText n.toList
  | .cell label => IsCellText label.toList

theorem isWritten_of_mem_references {e : Expr} (h : e.IsWritten) {r : Reference}
    (hr : r ∈ e.references) : r.IsWritten := by
  induction e with
  | literal value unit => cases hr
  | name n =>
    obtain rfl := List.mem_singleton.1 hr
    exact h
  | cell label =>
    obtain rfl := List.mem_singleton.1 hr
    exact h
  | signed sign operand ih => exact ih h.2 hr
  | binary op left right ihl ihr =>
    rcases List.mem_append.1 hr with hr | hr
    · exact ihl h.2.1 hr
    · exact ihr h.2.2 hr

theorem key_eq_cases {r r' : Reference} (hr : r.IsWritten) (hr' : r'.IsWritten)
    (h : r.key = r'.key) :
    r = r' ∨ ∃ label label', r = .cell label ∧ r' = .cell label' ∧ upper label = upper label' := by
  cases r with
  | name n =>
    cases r' with
    | name n' => exact .inl (congrArg _ h)
    | cell label' => exact absurd h (ne_upper_of_isNameText hr hr')
  | cell label =>
    cases r' with
    | name n' => exact absurd h.symm (ne_upper_of_isNameText hr' hr)
    | cell label' => exact .inr ⟨label, label', rfl, rfl, h⟩

def IsCaseBlind (cell : String → Except Failure Quantity) : Prop :=
  ∀ label label', upper label = upper label' → cell label = cell label'

theorem isCaseBlind_evalCell (s : Scope) (stack : List Address) : IsCaseBlind (s.evalCell stack) := by
  intro label label' h
  rw [evalCell_eq, evalCell_eq, h]

def shownText? (p : Preferences) (value : Except Failure Quantity) : Option String :=
  (value.bind fun q => displayQuantity q none p).toOption

/-- What goes into a calculation for a reference: a name that a line defines, or a cell, if its value
has a text. -/
def Reference.input? (store : Store) (cell : String → Except Failure Quantity) (p : Preferences) :
    Reference → Option StepInput
  | name n => (store.owner? n).bind fun owner =>
    (shownText? p (store.evalName n)).map fun shown => ⟨n, shown, owner⟩
  | .cell label =>
    (shownText? p (cell label)).map fun shown => ⟨upper label, shown, upper label⟩

namespace Steps

section
variable (store : Store) (cell : String → Except Failure Quantity) (p : Preferences)

def sourceIn? : Reference → Option (String × String)
  | .name n => (store.owner? n).map (n, ·)
  | .cell label => some (upper label, upper label)

def valueTextWith (e : Expr) : Except Failure (Quantity × String) :=
  match e.evalWith store cell with
  | .error failure => .error failure
  | .ok value => (displayQuantity value none p).map (value, ·)

def addInputWith (inputs : List StepInput) (r : Reference) : Except Fault (List StepInput) :=
  match sourceIn? store r with
  | none => .ok inputs
  | some (name, source) =>
    if inputs.any fun i => i.name == name then .ok inputs
    else match settle (valueTextWith store cell p r.expr) with
      | .error fault => .error fault
      | .ok (.error _) => .ok inputs
      | .ok (.ok (_, shown)) => .ok (inputs ++ [⟨name, shown, source⟩])

def ofStatementWith (statement : Statement) : Except Fault Steps :=
  match (firstOccurrences statement.expr.references).foldlM (addInputWith store cell p) [] with
  | .error fault => .error fault
  | .ok inputs =>
    let values := NameMap.ofList (inputs.map fun i => (i.name, i.shown))
    (settle (valueTextWith store cell p statement.expr)).map fun result =>
      { equation := statement.text
        inputs
        substitution := statement.textWith values
        result }

def ofTextWith (text : String) : Except Fault Steps :=
  let text := preparedText text
  let lexed := lex text
  match lexed.strays with
  | stray :: _ => .ok (unread text (.stray stray))
  | [] =>
    match Grammar.parse lexed.tokens with
    | .error e => .ok (unread text (.parse e))
    | .ok statement => ofStatementWith store cell p statement

end

theorem ofText_eq (s : Scope) (p : Preferences) (text : String) :
    ofText s p text = ofTextWith s.store (s.evalCell []) p text := by
  have hadd : addInput s p = addInputWith s.store (s.evalCell []) p := by
    funext inputs r
    cases r <;> rfl
  unfold ofText ofTextWith
  dsimp only
  cases (lex (preparedText text)).strays with
  | cons stray more => rfl
  | nil =>
    cases Grammar.parse (lex (preparedText text)).tokens with
    | error e => rfl
    | ok statement =>
      dsimp only
      rw [ofStatement, ofStatementWith, hadd]
      rfl

section
variable {store : Store} {cell : String → Except Failure Quantity} {p : Preferences}
  {inputs inputs' : List StepInput} {refs : List Reference} {r : Reference} {i : StepInput}

theorem shownText?_of_settle {e : Expr} {y : Except CalcError (Quantity × String)}
    (h : settle (valueTextWith store cell p e) = .ok y) :
    shownText? p (e.evalWith store cell) = y.toOption.map Prod.snd := by
  have hvalue := settle_eq_ok h
  rw [valueTextWith] at hvalue
  rw [shownText?]
  cases hv : e.evalWith store cell with
  | error failure =>
    rw [hv] at hvalue
    cases y with
    | error e => rfl
    | ok found => cases hvalue
  | ok value =>
    rw [hv] at hvalue
    change (displayQuantity value none p).map (value, ·) = _ at hvalue
    change (displayQuantity value none p).toOption = _
    cases hshown : displayQuantity value none p with
    | error failure =>
      rw [hshown] at hvalue
      cases y with
      | error e => rfl
      | ok found => cases hvalue
    | ok shown =>
      rw [hshown] at hvalue
      cases y with
      | error e => cases hvalue
      | ok found =>
        obtain rfl := Except.ok.inj hvalue
        rfl

theorem input?_eq : r.input? store cell p = (sourceIn? store r).bind fun found =>
    (shownText? p (r.expr.evalWith store cell)).map fun shown => ⟨found.1, shown, found.2⟩ := by
  cases r with
  | name n =>
    rw [Reference.input?, sourceIn?, Option.bind_map]
    rfl
  | cell label => rfl

theorem key_of_sourceIn? {name source : String} (h : sourceIn? store r = some (name, source)) :
    name = r.key := by
  cases r with
  | name n =>
    obtain ⟨owner, -, hfound⟩ := Option.map_eq_some_iff.1 h
    exact (Prod.mk.inj hfound).1.symm
  | cell label => exact (Prod.mk.inj (Option.some.inj h)).1.symm

theorem name_of_input? (h : r.input? store cell p = some i) : i.name = r.key := by
  rw [input?_eq] at h
  obtain ⟨⟨name, source⟩, hsource, h⟩ := Option.bind_eq_some_iff.1 h
  obtain ⟨shown, -, rfl⟩ := Option.map_eq_some_iff.1 h
  exact key_of_sourceIn? hsource

/-- A reference is passed over if it has no value with a text or is listed already, and goes to the
end of the inputs otherwise. -/
theorem addInputWith_eq_ok (h : addInputWith store cell p inputs r = .ok inputs') :
    (∀ i, r.input? store cell p = some i → ∃ j ∈ inputs, j.name = r.key) ∧ inputs' = inputs ∨
    ∃ i, r.input? store cell p = some i ∧ inputs' = inputs ++ [i] ∧ ∀ j ∈ inputs, j.name ≠ r.key := by
  unfold addInputWith at h
  rw [input?_eq]
  split at h
  · rename_i hsource
    rw [hsource]
    exact .inl ⟨fun i hi => (nomatch hi), (Except.ok.inj h).symm⟩
  · rename_i name source hsource
    obtain rfl := key_of_sourceIn? hsource
    rw [hsource]
    split at h
    · rename_i hlisted
      obtain ⟨j, hj, hname⟩ := List.any_eq_true.1 hlisted
      exact .inl ⟨fun i _ => ⟨j, hj, beq_iff_eq.1 hname⟩, (Except.ok.inj h).symm⟩
    · rename_i hnew
      cases hsettled : settle (valueTextWith store cell p r.expr) with
      | error fault =>
        rw [hsettled] at h
        cases h
      | ok y =>
        rw [hsettled] at h
        rw [Option.bind_some, shownText?_of_settle hsettled]
        cases y with
        | error e => exact .inl ⟨fun i hi => (nomatch hi), (Except.ok.inj h).symm⟩
        | ok found =>
          refine .inr ⟨_, rfl, (Except.ok.inj h).symm, fun j hj hname => hnew ?_⟩
          exact List.any_eq_true.2 ⟨j, hj, beq_iff_eq.2 hname⟩

/-- The inputs of the references `refs`: each is listed once, and where its key is read first. -/
structure Lists (store : Store) (cell : String → Except Failure Quantity) (p : Preferences)
    (refs : List Reference) (inputs : List StepInput) : Prop where
  mem : ∀ i, i ∈ inputs ↔ ∃ r ∈ refs, r.input? store cell p = some i
  order : (inputs.map StepInput.name).Pairwise fun a b =>
    (refs.map Reference.key).idxOf a < (refs.map Reference.key).idxOf b

def KeysAgree (store : Store) (cell : String → Except Failure Quantity) (p : Preferences)
    (refs : List Reference) : Prop :=
  ∀ r ∈ refs, ∀ r' ∈ refs, r.key = r'.key → r.input? store cell p = r'.input? store cell p

theorem keysAgree_references {e : Expr} (hcell : IsCaseBlind cell) (hwritten : e.IsWritten) :
    KeysAgree store cell p e.references := by
  intro r hr r' hr' hkey
  rcases key_eq_cases (isWritten_of_mem_references hwritten hr)
    (isWritten_of_mem_references hwritten hr') hkey with rfl | ⟨label, label', rfl, rfl, hupper⟩
  · rfl
  · rw [Reference.input?, Reference.input?, hcell _ _ hupper, hupper]

theorem Lists.name_mem (h : Lists store cell p refs inputs) {name : String}
    (hname : name ∈ inputs.map StepInput.name) : name ∈ refs.map Reference.key := by
  obtain ⟨i, hi, rfl⟩ := List.mem_map.1 hname
  obtain ⟨r, hr, hinput⟩ := (h.mem i).1 hi
  rw [name_of_input? hinput]
  exact List.mem_map_of_mem hr

theorem Lists.order_concat (h : Lists store cell p refs inputs) (r : Reference) :
    (inputs.map StepInput.name).Pairwise fun a b =>
      ((refs ++ [r]).map Reference.key).idxOf a < ((refs ++ [r]).map Reference.key).idxOf b := by
  refine h.order.imp_of_mem fun ha hb hlt => ?_
  rwa [List.map_append, List.idxOf_append_of_mem (h.name_mem ha),
    List.idxOf_append_of_mem (h.name_mem hb)]

theorem Lists.skip (h : Lists store cell p refs inputs) (hagree : KeysAgree store cell p (refs ++ [r]))
    (hr : ∀ i, r.input? store cell p = some i → ∃ j ∈ inputs, j.name = r.key) :
    Lists store cell p (refs ++ [r]) inputs := by
  refine ⟨fun i => ⟨fun hi => ?_, ?_⟩, h.order_concat r⟩
  · obtain ⟨r', hr', hinput⟩ := (h.mem i).1 hi
    exact ⟨r', List.mem_append_left _ hr', hinput⟩
  · rintro ⟨r', hr', hinput⟩
    rcases List.mem_append.1 hr' with hr' | hr'
    · exact (h.mem i).2 ⟨r', hr', hinput⟩
    · obtain rfl := List.mem_singleton.1 hr'
      obtain ⟨j, hj, hname⟩ := hr i hinput
      obtain ⟨r'', hr'', hother⟩ := (h.mem j).1 hj
      have hsame := hagree r'' (List.mem_append_left _ hr'') r' (by simp)
        ((name_of_input? hother).symm.trans hname)
      rw [hother, hinput] at hsame
      exact Option.some.inj hsame ▸ hj

theorem Lists.add (h : Lists store cell p refs inputs) (hagree : KeysAgree store cell p (refs ++ [r]))
    (hinput : r.input? store cell p = some i) (hnew : ∀ j ∈ inputs, j.name ≠ r.key) :
    Lists store cell p (refs ++ [r]) (inputs ++ [i]) := by
  have hkey : r.key ∉ refs.map Reference.key := by
    intro hmem
    obtain ⟨r', hr', hsame⟩ := List.mem_map.1 hmem
    have hinput' := hagree r' (List.mem_append_left _ hr') r (by simp) hsame
    exact hnew i ((h.mem i).2 ⟨r', hr', hinput'.trans hinput⟩) (name_of_input? hinput)
  constructor
  · intro j
    simp only [List.mem_append, List.mem_singleton, h.mem]
    constructor
    · rintro (⟨r', hr', hj⟩ | rfl)
      · exact ⟨r', .inl hr', hj⟩
      · exact ⟨r, .inr rfl, hinput⟩
    · rintro ⟨r', hr' | rfl, hj⟩
      · exact .inl ⟨r', hr', hj⟩
      · exact .inr (Option.some.inj (hj.symm.trans hinput))
  · rw [List.map_append (f := StepInput.name), List.pairwise_append]
    refine ⟨h.order_concat r, List.pairwise_singleton _ _, fun a ha b hb => ?_⟩
    obtain rfl := List.mem_singleton.1 hb
    rw [name_of_input? hinput, List.map_append, List.idxOf_append_of_mem (h.name_mem ha),
      List.idxOf_append_of_notMem hkey]
    have hlt := List.idxOf_lt_length_of_mem (h.name_mem ha)
    omega

/-- The inputs that are added for the references of a formula are theirs. -/
theorem lists_of_foldlM (hagree : KeysAgree store cell p refs)
    (h : (firstOccurrences refs).foldlM (addInputWith store cell p) [] = .ok inputs) :
    Lists store cell p refs inputs := by
  induction refs using List.reverseRecOn generalizing inputs with
  | nil =>
    obtain rfl := Except.ok.inj h
    exact ⟨fun i => by simp, .nil⟩
  | append_singleton refs r ih =>
    have hbefore : KeysAgree store cell p refs := fun r hr r' hr' =>
      hagree r (List.mem_append_left _ hr) r' (List.mem_append_left _ hr')
    rw [firstOccurrences_concat] at h
    split at h
    · -- A reference that was read before has its input already.
      rename_i hseen
      have hlists := ih hbefore h
      refine hlists.skip hagree fun i hi => ⟨i, ?_, name_of_input? hi⟩
      exact (hlists.mem i).2 ⟨r, mem_firstOccurrences.1 hseen, hi⟩
    · rw [List.foldlM_append] at h
      cases hfold : (firstOccurrences refs).foldlM (addInputWith store cell p) [] with
      | error fault =>
        rw [hfold] at h
        cases h
      | ok before =>
        rw [hfold] at h
        change [r].foldlM (addInputWith store cell p) before = .ok inputs at h
        rw [List.foldlM_cons] at h
        cases hadd : addInputWith store cell p before r with
        | error fault =>
          rw [hadd] at h
          cases h
        | ok after =>
          rw [hadd] at h
          obtain rfl := Except.ok.inj h
          rcases addInputWith_eq_ok hadd with ⟨hskip, rfl⟩ | ⟨i, hinput, rfl, hnew⟩
          · exact (ih hbefore hfold).skip hagree hskip
          · exact (ih hbefore hfold).add hagree hinput hnew

theorem Lists.nodup (h : Lists store cell p refs inputs) :
    (inputs.map StepInput.name).Nodup := by
  refine h.order.imp fun hlt hsame => ?_
  rw [hsame] at hlt
  exact Nat.lt_irrefl _ hlt

theorem Lists.get?_shown (h : Lists store cell p refs inputs) (hagree : KeysAgree store cell p refs)
    (hr : r ∈ refs) :
    (NameMap.ofList (inputs.map fun i => (i.name, i.shown))).get? r.key =
      (r.input? store cell p).map StepInput.shown := by
  have hnodup : ((inputs.map fun i => (i.name, i.shown)).map Prod.fst).Nodup := by
    rw [List.map_map]
    exact h.nodup
  rw [NameMap.get?, NameMap.entries_ofList hnodup]
  cases hinput : r.input? store cell p with
  | some i =>
    refine lookup_of_mem hnodup (List.mem_map.2 ⟨i, (h.mem i).2 ⟨r, hr, hinput⟩, ?_⟩)
    rw [name_of_input? hinput]
  | none =>
    refine lookup_eq_none fun hmem => ?_
    rw [List.map_map] at hmem
    obtain ⟨j, hj, hname⟩ := List.mem_map.1 hmem
    obtain ⟨r', hr', hother⟩ := (h.mem j).1 hj
    have hsame := hagree r' hr' r hr ((name_of_input? hother).symm.trans hname)
    rw [hother, hinput] at hsame
    cases hsame

end

/-- The inputs are those of the references of the statement, and the substitution is the equation with
their texts in place of exactly these references. -/
structure Substitutes (store : Store) (cell : String → Except Failure Quantity) (p : Preferences)
    (s : Statement) (steps : Steps) : Prop where
  distinct : (steps.inputs.map StepInput.name).Nodup
  inputs : Lists store cell p s.expr.references steps.inputs
  equation : steps.equation = s.opening ++ writeSegments Reference.text s.expr.segments
  substitution : steps.substitution = s.opening ++ writeSegments
    (fun r => ((r.input? store cell p).map StepInput.shown).getD r.text) s.expr.segments

theorem substitutes_of_ofStatementWith {store : Store} {cell : String → Except Failure Quantity}
    {p : Preferences} {s : Statement} {steps : Steps} (hcell : IsCaseBlind cell)
    (hwritten : s.expr.IsWritten) (h : ofStatementWith store cell p s = .ok steps) :
    Substitutes store cell p s steps := by
  have hagree : KeysAgree store cell p s.expr.references := keysAgree_references hcell hwritten
  unfold ofStatementWith at h
  split at h
  · cases h
  · rename_i inputs hinputs
    have hlists := lists_of_foldlM hagree hinputs
    obtain ⟨result, -, rfl⟩ := exists_of_map_eq_ok h
    refine ⟨hlists.nodup, hlists, textWith_eq_writeSegments .empty s, ?_⟩
    change s.textWith _ = _
    rw [textWith_eq_writeSegments]
    refine congrArg _ (writeSegments_congr fun r hr => ?_)
    rw [hlists.get?_shown hagree (mem_segments_iff.1 hr)]

/-- If no evaluation breaks down in the steps of a text that reads as a statement, the inputs have
different names in the order in which these are read first, and are those of the names that lines
define and of the cells that have a value with a text. The substitution is the equation with the texts
of exactly these references in their places. -/
theorem substitutes_of_ofText {p : Preferences} {text : String} {statement : Statement}
    (hstrays : (lex (preparedText text)).strays = [])
    (hparse : Grammar.parse (lex (preparedText text)).tokens = .ok statement) :
    (∀ store cell steps, IsCaseBlind cell → ofTextWith store cell p text = .ok steps →
      Substitutes store cell p statement steps) ∧
    ∀ (s : Scope) steps, ofText s p text = .ok steps →
      Substitutes s.store (s.evalCell []) p statement steps := by
  have hwritten : statement.expr.IsWritten := (Grammar.isWritten_of_parseText hparse).1
  have hsteps : ∀ store cell steps, IsCaseBlind cell → ofTextWith store cell p text = .ok steps →
      Substitutes store cell p statement steps := by
    intro store cell steps hcell h
    unfold ofTextWith at h
    dsimp only at h
    rw [hstrays, hparse] at h
    exact substitutes_of_ofStatementWith hcell hwritten h
  refine ⟨hsteps, fun s steps h => hsteps _ _ _ (isCaseBlind_evalCell s []) ?_⟩
  rwa [← ofText_eq]

def loneCell (label : String) : Except Failure Quantity :=
  if upper label = "A1" then .ok (.scalar 2) else .error (.eval (.cellInvalid (upper label)))

/-- A cell that is read twice, in small and in capital letters, next to one without a value. -/
theorem substitutes_of_ofText_loneCell : ∃ statement steps,
    (lex (preparedText "x = a1 + A1 + B2")).strays = [] ∧
    Grammar.parse (lex (preparedText "x = a1 + A1 + B2")).tokens = .ok statement ∧
    ofTextWith .empty loneCell {} "x = a1 + A1 + B2" = .ok steps ∧
      IsCaseBlind loneCell ∧ Substitutes .empty loneCell {} statement steps ∧
        steps.inputs = [⟨"A1", "2", "A1"⟩] ∧ steps.substitution = "x = ((2 + 2) + B2)" := by
  have htext : preparedText "x = a1 + A1 + B2" = "x = a1 + A1 + B2" :=
    preparedText_eq_self (by decide) (by decide +kernel) (by decide +kernel)
  have hstrays : (lex "x = a1 + A1 + B2").strays = [] := by decide +kernel
  have htokens : Token.significant (lex "x = a1 + A1 + B2").tokens =
      ⟨.identifier, "x", 0⟩ :: ⟨.equal, "=", 2⟩ ::
        (([⟨.cellRef, "a1", 4⟩] ++ ⟨.plus, "+", 7⟩ :: [⟨.cellRef, "A1", 9⟩]) ++
          ⟨.plus, "+", 12⟩ :: [⟨.cellRef, "B2", 14⟩]) := by decide +kernel
  have hread : (lex (preparedText "x = a1 + A1 + B2")).strays = [] ∧
      Grammar.parse (lex (preparedText "x = a1 + A1 + B2")).tokens =
        .ok ⟨some "x", .binary .add (.binary .add (.cell "a1") (.cell "A1")) (.cell "B2")⟩ :=
    parse_preparedText htext hstrays htokens (.definition rfl rfl (.sumMore (.sumMore
      (.sumOfProduct (Grammar.Restricted.product_of_primary (.cell rfl))) (.inl rfl)
      (Grammar.Restricted.product_of_primary (.cell rfl))) (.inl rfl)
      (Grammar.Restricted.product_of_primary (.cell rfl))))
  obtain ⟨hstrays, hparse⟩ := hread
  have hblind : IsCaseBlind loneCell := by
    intro label label' h
    rw [loneCell, loneCell, h]
  have hsteps : ∃ steps, ofTextWith .empty loneCell {} "x = a1 + A1 + B2" = .ok steps ∧
      steps.inputs = [⟨"A1", "2", "A1"⟩] ∧ steps.substitution = "x = ((2 + 2) + B2)" := by
    have hshown : ((ofStatementWith .empty loneCell {} ⟨some "x",
        .binary .add (.binary .add (.cell "a1") (.cell "A1")) (.cell "B2")⟩).toOption.map
          fun steps => (steps.inputs, steps.substitution)) =
        some ([⟨"A1", "2", "A1"⟩], "x = ((2 + 2) + B2)") := by decide +kernel
    unfold ofTextWith
    dsimp only
    rw [hstrays, hparse]
    dsimp only
    cases hsteps : ofStatementWith .empty loneCell {} ⟨some "x",
        .binary .add (.binary .add (.cell "a1") (.cell "A1")) (.cell "B2")⟩ with
    | error fault =>
      rw [hsteps] at hshown
      cases hshown
    | ok steps =>
      rw [hsteps] at hshown
      exact ⟨steps, rfl, Prod.mk.inj (Option.some.inj hshown)⟩
  obtain ⟨steps, hsteps, hshown⟩ := hsteps
  exact ⟨_, steps, hstrays, hparse, hsteps, hblind,
    (substitutes_of_ofText hstrays hparse).1 _ _ _ hblind hsteps, hshown⟩

end Steps

end UnitSheet
