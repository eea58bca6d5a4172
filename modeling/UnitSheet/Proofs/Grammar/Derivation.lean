import UnitSheet.Grammar.Full

set_option autoImplicit false

namespace UnitSheet.Grammar

inductive Phrase
  | sum
  | product
  | power
  | signed
  | primary

/-- The tokens are a phrase of the given sort, and the expression is what they write. -/
inductive Derives : Phrase → List Token → Expr → Prop
  | sumOfProduct {ts : List Token} {e : Expr} :
      Derives .product ts e → Derives .sum ts e
  | sumMore {ts us : List Token} {l r : Expr} {op : Token} :
      Derives .sum ts l → (op.kind = .plus ∨ op.kind = .minus) → Derives .product us r →
        Derives .sum (ts ++ op :: us) (.binary (.ofSymbol op.text) l r)
  | productOfPower {ts : List Token} {e : Expr} :
      Derives .power ts e → Derives .product ts e
  | productMore {ts us : List Token} {l r : Expr} {op : Token} :
      Derives .product ts l → (op.kind = .star ∨ op.kind = .slash) → Derives .power us r →
        Derives .product (ts ++ op :: us) (.binary (.ofSymbol op.text) l r)
  | powerOfSigned {ts : List Token} {e : Expr} :
      Derives .signed ts e → Derives .power ts e
  | powerMore {ts us : List Token} {l r : Expr} {op : Token} :
      Derives .signed ts l → op.kind = .caret → Derives .power us r →
        Derives .power (ts ++ op :: us) (.binary (.ofSymbol op.text) l r)
  | signedOfPrimary {ts : List Token} {e : Expr} :
      Derives .primary ts e → Derives .signed ts e
  | signedMore {ts : List Token} {e : Expr} {sign : Token} :
      (sign.kind = .plus ∨ sign.kind = .minus) → Derives .signed ts e →
        Derives .signed (sign :: ts) (.signed (.ofSymbol sign.text) e)
  | number {t : Token} {value : Float} :
      t.kind = .number value → Derives .primary [t] (.literal value none)
  | quantity {t unit : Token} {value : Float} :
      t.kind = .number value → unit.kind = .unit →
        Derives .primary [t, unit] (.literal value (some unit.text))
  | cell {t : Token} : t.kind = .cellRef → Derives .primary [t] (.cell t.text)
  | name {t : Token} : t.kind = .identifier → Derives .primary [t] (.name t.text)
  | parens {ts : List Token} {e : Expr} {left right : Token} :
      left.kind = .leftParen → Derives .sum ts e → right.kind = .rightParen →
        Derives .primary (left :: (ts ++ [right])) e

inductive DerivesStatement : List Token → Statement → Prop
  | formula {ts : List Token} {e : Expr} :
      Derives .sum ts e → DerivesStatement ts ⟨none, e⟩
  | definition {ts : List Token} {e : Expr} {name equal : Token} :
      name.kind = .identifier → equal.kind = .equal → Derives .sum ts e →
        DerivesStatement (name :: equal :: ts) ⟨some name.text, e⟩

theorem Derives.ne_nil {p : Phrase} {ts : List Token} {e : Expr} (h : Derives p ts e) :
    ts ≠ [] := by
  induction h with
  | sumOfProduct _ ih | productOfPower _ ih | powerOfSigned _ ih | signedOfPrimary _ ih => exact ih
  | sumMore | productMore | powerMore | signedMore | number | quantity | cell | name | parens =>
    simp

theorem DerivesStatement.ne_nil {ts : List Token} {s : Statement} (h : DerivesStatement ts s) :
    ts ≠ [] := by
  cases h with
  | formula h => exact h.ne_nil
  | definition => simp

theorem Derives.kind_ne_equal {p : Phrase} {ts : List Token} {e : Expr} (h : Derives p ts e) :
    ∀ t ∈ ts, t.kind ≠ .equal := by
  induction h with
  | sumOfProduct _ ih | productOfPower _ ih | powerOfSigned _ ih | signedOfPrimary _ ih => exact ih
  | sumMore _ hop _ ihl ihr | productMore _ hop _ ihl ihr =>
    intro t ht
    rcases List.mem_append.1 ht with ht | ht
    · exact ihl t ht
    · rcases List.mem_cons.1 ht with rfl | ht
      · rcases hop with hop | hop <;> simp [hop]
      · exact ihr t ht
  | powerMore _ hop _ ihl ihr =>
    intro t ht
    rcases List.mem_append.1 ht with ht | ht
    · exact ihl t ht
    · rcases List.mem_cons.1 ht with rfl | ht
      · simp [hop]
      · exact ihr t ht
  | signedMore hs _ ih =>
    intro t ht
    rcases List.mem_cons.1 ht with rfl | ht
    · rcases hs with hs | hs <;> simp [hs]
    · exact ih t ht
  | number ht | cell ht | name ht => simp [ht]
  | quantity ht hu => simp [ht, hu]
  | parens hl _ hr ih =>
    intro t ht
    rcases List.mem_cons.1 ht with rfl | ht
    · simp [hl]
    · rcases List.mem_append.1 ht with ht | ht
      · exact ih t ht
      · rw [List.mem_singleton.1 ht, hr]
        simp

end UnitSheet.Grammar
