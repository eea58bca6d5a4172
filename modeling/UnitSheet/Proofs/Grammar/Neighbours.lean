import Mathlib.Data.List.Chain
import UnitSheet.Evaluation
import UnitSheet.Proofs.Grammar.Derivation

set_option autoImplicit false

namespace UnitSheet

def TokenKind.isOperand : TokenKind → Bool
  | number _ | unit | identifier | cellRef => true
  | _ => false

def TokenKind.Opens (k : TokenKind) : Prop :=
  k.isOperand = true ∨ k = .leftParen ∨ k = .plus ∨ k = .minus

/-- Of two operands side by side, the first one is a number and the second one its unit. -/
def TokenKind.MayPrecede (k k' : TokenKind) : Prop :=
  k.isOperand = true → k'.isOperand = true → (∃ value, k = .number value) ∧ k' = .unit

namespace TokenKind
variable {k k' : TokenKind}

theorem mayPrecede_of_left (h : k.isOperand = false) : k.MayPrecede k' := by
  intro hk
  rw [h] at hk
  cases hk

theorem mayPrecede_of_right (h : k'.isOperand = false) : k.MayPrecede k' := by
  intro _ hk
  rw [h] at hk
  cases hk

end TokenKind

namespace Grammar

def OperandsApart (ts : List Token) : Prop := ts.IsChain fun t u => t.kind.MayPrecede u.kind

section
variable {p : Phrase} {ts us : List Token} {e : Expr} {op : Token}

theorem OperandsApart.around (hts : OperandsApart ts) (hus : OperandsApart us)
    (hop : op.kind.isOperand = false) : OperandsApart (ts ++ op :: us) := by
  refine List.isChain_append.2 ⟨hts, List.isChain_cons.2 ⟨fun u _ => ?_, hus⟩, fun t _ u hu => ?_⟩
  · exact TokenKind.mayPrecede_of_left hop
  · obtain rfl := Option.some.inj hu
    exact TokenKind.mayPrecede_of_right hop

theorem Derives.operandsApart (h : Derives p ts e) : OperandsApart ts := by
  induction h with
  | sumOfProduct _ ih | productOfPower _ ih | powerOfSigned _ ih | signedOfPrimary _ ih => exact ih
  | sumMore _ hop _ ihl ihr | productMore _ hop _ ihl ihr =>
    exact ihl.around ihr (by rcases hop with hop | hop <;> rw [hop] <;> rfl)
  | powerMore _ hop _ ihl ihr => exact ihl.around ihr (by rw [hop]; rfl)
  | signedMore hsign _ ih =>
    exact OperandsApart.around .nil ih (by rcases hsign with hsign | hsign <;> rw [hsign] <;> rfl)
  | number | cell | name => exact .singleton _
  | quantity ht hunit => exact .cons_cons (fun _ _ => ⟨⟨_, ht⟩, hunit⟩) (.singleton _)
  | parens hleft _ hright ih =>
    have hinside := ih.around .nil (by rw [hright]; rfl)
    exact OperandsApart.around .nil hinside (by rw [hleft]; rfl)

theorem DerivesStatement.operandsApart {s : Statement} (h : DerivesStatement ts s) :
    OperandsApart ts := by
  cases h with
  | formula h => exact h.operandsApart
  | definition _ hequal h =>
    exact OperandsApart.around (.singleton _) h.operandsApart (by rw [hequal]; rfl)

theorem Derives.closes (h : Derives p ts e) :
    ∀ t ∈ ts.getLast?, t.kind.isOperand = true ∨ t.kind = .rightParen := by
  induction h with
  | sumOfProduct _ ih | productOfPower _ ih | powerOfSigned _ ih | signedOfPrimary _ ih => exact ih
  | sumMore _ _ hr _ ihr | productMore _ _ hr _ ihr | powerMore _ _ hr _ ihr =>
    rw [List.append_cons, List.getLast?_append_of_ne_nil _ hr.ne_nil]
    exact ihr
  | signedMore _ h ih =>
    rw [← List.singleton_append, List.getLast?_append_of_ne_nil _ h.ne_nil]
    exact ih
  | @number last _ ht | @cell last ht | @name last ht | @quantity _ last _ _ ht =>
    intro t hlast
    have hkind : last.kind = t.kind := congrArg Token.kind (Option.some.inj hlast)
    rw [← hkind, ht]
    exact .inl rfl
  | parens _ _ hright =>
    intro t hlast
    rw [← List.cons_append, List.getLast?_concat] at hlast
    exact .inr (Option.some.inj hlast ▸ hright)

theorem DerivesStatement.closes {s : Statement} (h : DerivesStatement ts s) :
    ∀ t ∈ ts.getLast?, t.kind.isOperand = true ∨ t.kind = .rightParen := by
  cases h with
  | formula h => exact h.closes
  | @definition ts e name equal _ _ h =>
    rw [← List.singleton_append, ← List.singleton_append (l := ts), ← List.append_assoc,
      List.getLast?_append_of_ne_nil _ h.ne_nil]
    exact h.closes

theorem Derives.opens (h : Derives p ts e) : ∀ t ∈ ts.head?, t.kind.Opens := by
  induction h with
  | sumOfProduct _ ih | productOfPower _ ih | powerOfSigned _ ih | signedOfPrimary _ ih => exact ih
  | sumMore hl _ _ ihl | productMore hl _ _ ihl | powerMore hl _ _ ihl =>
    rw [List.head?_append_of_ne_nil _ hl.ne_nil]
    exact ihl
  | signedMore hsign =>
    intro t hfirst
    obtain rfl := Option.some.inj hfirst
    rcases hsign with hsign | hsign <;> rw [hsign]
    · exact .inr (.inr (.inl rfl))
    · exact .inr (.inr (.inr rfl))
  | number ht | cell ht | name ht | quantity ht =>
    intro t hfirst
    rw [← Option.some.inj hfirst, ht]
    exact .inl rfl
  | parens hleft =>
    intro t hfirst
    rw [← Option.some.inj hfirst, hleft]
    exact .inr (.inl rfl)

theorem DerivesStatement.opens {s : Statement} (h : DerivesStatement ts s) :
    ∀ t ∈ ts.head?, t.kind.Opens := by
  cases h with
  | formula h => exact h.opens
  | definition hname =>
    intro t hfirst
    rw [← Option.some.inj hfirst, hname]
    exact .inl rfl

def UnitsResolve (ts : List Token) : Prop :=
  ∀ t ∈ ts, t.kind = .unit → ∃ u, resolveUnit t.text = .ok u

end

section
variable {p : Phrase} {ts : List Token} {e : Expr} {store : Store}
  {cell : String → Except Failure Quantity}

theorem evalWith_binary_eq_ok {op : BinaryOp} {l r : Expr} {q : Quantity}
    (h : (Expr.binary op l r).evalWith store cell = .ok q) :
    (∃ a, l.evalWith store cell = .ok a) ∧ ∃ b, r.evalWith store cell = .ok b := by
  rw [Expr.evalWith] at h
  split at h
  · cases h
  · rename_i a ha
    split at h
    · cases h
    · rename_i b hb
      exact ⟨⟨a, ha⟩, ⟨b, hb⟩⟩

theorem UnitsResolve.around {ts us : List Token} {op : Token} (hts : UnitsResolve ts)
    (hus : UnitsResolve us) (hop : op.kind.isOperand = false) : UnitsResolve (ts ++ op :: us) := by
  intro t ht hunit
  rcases List.mem_append.1 ht with ht | ht
  · exact hts t ht hunit
  · rcases List.mem_cons.1 ht with rfl | ht
    · rw [hunit] at hop
      cases hop
    · exact hus t ht hunit

theorem unitsResolve_nil : UnitsResolve [] := fun _ ht => absurd ht List.not_mem_nil

theorem unitsResolve_singleton {t : Token} (h : t.kind ≠ .unit) : UnitsResolve [t] := by
  intro u hu hunit
  rw [List.mem_singleton.1 hu] at hunit
  exact absurd hunit h

/-- A formula is evaluated with all of its parts, so a value takes known units. -/
theorem Derives.unitsResolve (h : Derives p ts e)
    (hvalue : ∃ q, e.evalWith store cell = .ok q) : UnitsResolve ts := by
  induction h with
  | sumOfProduct _ ih | productOfPower _ ih | powerOfSigned _ ih | signedOfPrimary _ ih =>
    exact ih hvalue
  | sumMore _ hop _ ihl ihr | productMore _ hop _ ihl ihr =>
    obtain ⟨hl, hr⟩ := evalWith_binary_eq_ok hvalue.choose_spec
    exact (ihl hl).around (ihr hr) (by rcases hop with hop | hop <;> rw [hop] <;> rfl)
  | powerMore _ hop _ ihl ihr =>
    obtain ⟨hl, hr⟩ := evalWith_binary_eq_ok hvalue.choose_spec
    exact (ihl hl).around (ihr hr) (by rw [hop]; rfl)
  | signedMore hsign _ ih =>
    obtain ⟨q, hq⟩ := hvalue
    rw [Expr.evalWith] at hq
    split at hq
    · cases hq
    · rename_i a ha
      exact unitsResolve_nil.around (ih ⟨a, ha⟩)
        (by rcases hsign with hsign | hsign <;> rw [hsign] <;> rfl)
  | number ht | cell ht | name ht => exact unitsResolve_singleton (by rw [ht]; exact nofun)
  | @quantity t unit value ht hunit =>
    obtain ⟨q, hq⟩ := hvalue
    rw [Expr.evalWith, Quantity.ofUnit] at hq
    split at hq
    · cases hq
    · rename_i u hu
      intro v hv hkind
      rcases List.mem_cons.1 hv with rfl | hv
      · rw [ht] at hkind
        cases hkind
      · rw [List.mem_singleton.1 hv]
        exact ⟨u, hu⟩
  | parens hleft _ hright ih =>
    have hinside := (ih hvalue).around unitsResolve_nil (by rw [hright]; rfl)
    exact unitsResolve_nil.around hinside (by rw [hleft]; rfl)

theorem DerivesStatement.unitsResolve {s : Statement} (h : DerivesStatement ts s)
    (hvalue : ∃ q, s.expr.evalWith store cell = .ok q) : UnitsResolve ts := by
  cases h with
  | formula h => exact h.unitsResolve hvalue
  | definition hname hequal h =>
    exact (unitsResolve_singleton (by rw [hname]; exact nofun)).around (h.unitsResolve hvalue)
      (by rw [hequal]; rfl)

end

end Grammar

end UnitSheet
