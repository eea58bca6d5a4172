import UnitSheet.Proofs.Grammar.Readers

set_option autoImplicit false

namespace UnitSheet.Grammar

theorem sumOp?_eq_some {t : Token} {op : BinaryOp} (h : sumOp? t = some op) :
    (t.kind = .plus ∨ t.kind = .minus) ∧ op = .ofSymbol t.text := by
  unfold sumOp? at h
  split at h
  · rename_i hk
    exact ⟨.inl hk, (Option.some.inj h).symm⟩
  · rename_i hk
    exact ⟨.inr hk, (Option.some.inj h).symm⟩
  · cases h

theorem productOp?_eq_some {t : Token} {op : BinaryOp} (h : productOp? t = some op) :
    (t.kind = .star ∨ t.kind = .slash) ∧ op = .ofSymbol t.text := by
  unfold productOp? at h
  split at h
  · rename_i hk
    exact ⟨.inl hk, (Option.some.inj h).symm⟩
  · rename_i hk
    exact ⟨.inr hk, (Option.some.inj h).symm⟩
  · cases h

theorem signOp?_eq_some {t : Token} {sign : SignOp} (h : signOp? t = some sign) :
    (t.kind = .plus ∨ t.kind = .minus) ∧ sign = .ofSymbol t.text := by
  unfold signOp? at h
  split at h
  · rename_i hk
    exact ⟨.inl hk, (Option.some.inj h).symm⟩
  · rename_i hk
    exact ⟨.inr hk, (Option.some.inj h).symm⟩
  · cases h

theorem isCaret_iff {k : TokenKind} : isCaret k = true ↔ k = .caret := by
  cases k <;> simp [isCaret]

theorem derives_takeUnit {t : Token} {value : Float} (ht : t.kind = .number value)
    (ts : List Token) : ∃ used, t :: ts = used ++ (takeUnit ts).2 ∧
      Derives .primary used (.literal value (takeUnit ts).1) := by
  unfold takeUnit
  split
  · rename_i text position rest
    exact ⟨[t, ⟨.unit, text, position⟩], rfl, .quantity ht rfl⟩
  · exact ⟨[t], rfl, .number ht⟩

theorem plainClose_eq_ok {stop : Nat} {e e' : Expr} {ts rest : List Token}
    (h : plainClose stop e ts = .ok (e', rest)) :
    e' = e ∧ ∃ right : Token, right.kind = .rightParen ∧ ts = right :: rest := by
  unfold plainClose at h
  split at h
  · cases h
  · split at h
    · rename_i hk
      obtain ⟨rfl, rfl⟩ := Prod.mk.inj (Except.ok.inj h)
      exact ⟨rfl, _, hk, rfl⟩
    · cases h

-- Each reader calls the next tighter one on the same tokens and the looser ones on fewer, so the
-- lemmas recur exactly as the readers do.
mutual

theorem derives_of_readSum (stop : Nat) (ts : List Token) {e : Expr} {rest : List Token}
    (h : plain (readSum stop ts) = .ok (e, rest)) :
    ∃ used, ts = used ++ rest ∧ Derives .sum used e := by
  rw [plain_readSum] at h
  obtain ⟨⟨left, mid⟩, hleft, htail⟩ := bind_eq_ok h
  have hlt := plain_length hleft
  obtain ⟨used, hts, hd⟩ := derives_of_readProduct stop ts hleft
  obtain ⟨more, hmid, hd'⟩ := derives_of_readSumTail stop mid (.sumOfProduct hd) htail
  exact ⟨used ++ more, by rw [hts, hmid, List.append_assoc], hd'⟩
termination_by (ts.length, 5)

theorem derives_of_readSumTail (stop : Nat) (ts : List Token) {left e : Expr}
    {used rest : List Token} (hl : Derives .sum used left)
    (h : plain (readSumTail stop left ts) = .ok (e, rest)) :
    ∃ more, ts = more ++ rest ∧ Derives .sum (used ++ more) e := by
  cases ts with
  | nil =>
    rw [plain_readSumTail_nil] at h
    obtain ⟨rfl, rfl⟩ := Prod.mk.inj (Except.ok.inj h)
    exact ⟨[], rfl, by rwa [List.append_nil]⟩
  | cons t ts =>
    rw [plain_readSumTail_cons] at h
    cases hop : sumOp? t with
    | none =>
      rw [hop] at h
      obtain ⟨rfl, rfl⟩ := Prod.mk.inj (Except.ok.inj h)
      exact ⟨[], rfl, by rwa [List.append_nil]⟩
    | some op =>
      rw [hop] at h
      obtain ⟨⟨right, mid⟩, hright, htail⟩ := bind_eq_ok h
      obtain ⟨hk, rfl⟩ := sumOp?_eq_some hop
      have hlt := plain_length hright
      obtain ⟨us, hts, hr⟩ := derives_of_readProduct stop ts hright
      obtain ⟨more, hmid, hd⟩ := derives_of_readSumTail stop mid (.sumMore hl hk hr) htail
      exact ⟨t :: us ++ more, by simp [hts, hmid], by simpa using hd⟩
termination_by (ts.length, 0)

theorem derives_of_readProduct (stop : Nat) (ts : List Token) {e : Expr} {rest : List Token}
    (h : plain (readProduct stop ts) = .ok (e, rest)) :
    ∃ used, ts = used ++ rest ∧ Derives .product used e := by
  rw [plain_readProduct] at h
  obtain ⟨⟨left, mid⟩, hleft, htail⟩ := bind_eq_ok h
  have hlt := plain_length hleft
  obtain ⟨used, hts, hd⟩ := derives_of_readPower stop ts hleft
  obtain ⟨more, hmid, hd'⟩ := derives_of_readProductTail stop mid (.productOfPower hd) htail
  exact ⟨used ++ more, by rw [hts, hmid, List.append_assoc], hd'⟩
termination_by (ts.length, 4)

theorem derives_of_readProductTail (stop : Nat) (ts : List Token) {left e : Expr}
    {used rest : List Token} (hl : Derives .product used left)
    (h : plain (readProductTail stop left ts) = .ok (e, rest)) :
    ∃ more, ts = more ++ rest ∧ Derives .product (used ++ more) e := by
  cases ts with
  | nil =>
    rw [plain_readProductTail_nil] at h
    obtain ⟨rfl, rfl⟩ := Prod.mk.inj (Except.ok.inj h)
    exact ⟨[], rfl, by rwa [List.append_nil]⟩
  | cons t ts =>
    rw [plain_readProductTail_cons] at h
    cases hop : productOp? t with
    | none =>
      rw [hop] at h
      obtain ⟨rfl, rfl⟩ := Prod.mk.inj (Except.ok.inj h)
      exact ⟨[], rfl, by rwa [List.append_nil]⟩
    | some op =>
      rw [hop] at h
      obtain ⟨⟨right, mid⟩, hright, htail⟩ := bind_eq_ok h
      obtain ⟨hk, rfl⟩ := productOp?_eq_some hop
      have hlt := plain_length hright
      obtain ⟨us, hts, hr⟩ := derives_of_readPower stop ts hright
      obtain ⟨more, hmid, hd⟩ := derives_of_readProductTail stop mid (.productMore hl hk hr) htail
      exact ⟨t :: us ++ more, by simp [hts, hmid], by simpa using hd⟩
termination_by (ts.length, 0)

theorem derives_of_readPower (stop : Nat) (ts : List Token) {e : Expr} {rest : List Token}
    (h : plain (readPower stop ts) = .ok (e, rest)) :
    ∃ used, ts = used ++ rest ∧ Derives .power used e := by
  rw [plain_readPower] at h
  obtain ⟨⟨base, mid⟩, hbase, hexp⟩ := bind_eq_ok h
  have hlt := plain_length hbase
  obtain ⟨used, hts, hd⟩ := derives_of_readSigned stop ts hbase
  cases mid with
  | nil =>
    obtain ⟨rfl, rfl⟩ := Prod.mk.inj (Except.ok.inj hexp)
    exact ⟨used, hts, .powerOfSigned hd⟩
  | cons t mid =>
    dsimp only [plainExponent] at hexp
    split at hexp
    · rename_i hc
      obtain ⟨⟨exponent, rest'⟩, hread, hok⟩ := bind_eq_ok hexp
      obtain ⟨rfl, rfl⟩ := Prod.mk.inj (Except.ok.inj hok)
      rw [List.length_cons] at hlt
      obtain ⟨us, hmid, hr⟩ := derives_of_readPower stop mid hread
      exact ⟨used ++ t :: us, by simp [hts, hmid], .powerMore hd (isCaret_iff.1 hc) hr⟩
    · obtain ⟨rfl, rfl⟩ := Prod.mk.inj (Except.ok.inj hexp)
      exact ⟨used, hts, .powerOfSigned hd⟩
termination_by (ts.length, 3)

theorem derives_of_readSigned (stop : Nat) (ts : List Token) {e : Expr} {rest : List Token}
    (h : plain (readSigned stop ts) = .ok (e, rest)) :
    ∃ used, ts = used ++ rest ∧ Derives .signed used e := by
  rcases plain_readSigned_cases stop ts with heq | ⟨t, us, sign, hts, hs, heq⟩
  · obtain ⟨used, hts, hd⟩ := derives_of_readPrimary stop ts (heq ▸ h)
    exact ⟨used, hts, .signedOfPrimary hd⟩
  · rw [heq] at h
    obtain ⟨⟨operand, rest'⟩, hread, hok⟩ := bind_eq_ok h
    obtain ⟨rfl, rfl⟩ := Prod.mk.inj (Except.ok.inj hok)
    obtain ⟨hk, rfl⟩ := signOp?_eq_some hs
    have hlt : us.length < ts.length := by rw [hts, List.length_cons]; omega
    obtain ⟨used, hus, hd⟩ := derives_of_readSigned stop us hread
    exact ⟨t :: used, by rw [hts, hus, List.cons_append], .signedMore hk hd⟩
termination_by (ts.length, 2)

theorem derives_of_readPrimary (stop : Nat) (ts : List Token) {e : Expr} {rest : List Token}
    (h : plain (readPrimary stop ts) = .ok (e, rest)) :
    ∃ used, ts = used ++ rest ∧ Derives .primary used e := by
  cases ts with
  | nil =>
    rw [readPrimary] at h
    cases h
  | cons t ts =>
    rw [plain_readPrimary_cons] at h
    split at h
    · rename_i value hk
      obtain ⟨rfl, rfl⟩ := Prod.mk.inj (Except.ok.inj h)
      exact derives_takeUnit hk ts
    · rename_i hk
      obtain ⟨rfl, rfl⟩ := Prod.mk.inj (Except.ok.inj h)
      exact ⟨[t], rfl, .cell hk⟩
    · rename_i hk
      obtain ⟨rfl, rfl⟩ := Prod.mk.inj (Except.ok.inj h)
      exact ⟨[t], rfl, .name hk⟩
    · rename_i hk
      obtain ⟨⟨e', mid⟩, hread, hclose⟩ := bind_eq_ok h
      obtain ⟨rfl, right, hright, rfl⟩ := plainClose_eq_ok hclose
      obtain ⟨used, hts, hd⟩ := derives_of_readSum stop ts hread
      exact ⟨t :: (used ++ [right]), by simp [hts], .parens hk hd hright⟩
    · cases h
termination_by (ts.length, 1)

end

def Phrase.isExtendedBy : Phrase → TokenKind → Bool
  -- It may end in a number, which takes the unit.
  | _, .unit => true
  | .sum, .caret | .product, .caret | .power, .caret => true
  | .sum, .star | .sum, .slash | .product, .star | .product, .slash => true
  | .sum, .plus | .sum, .minus => true
  | _, _ => false

def Phrase.EndsBefore (p : Phrase) (rest : List Token) : Prop :=
  ∀ t ∈ rest.head?, p.isExtendedBy t.kind = false

theorem Phrase.endsBefore_nil (p : Phrase) : p.EndsBefore [] := by
  intro t ht
  cases ht

theorem Phrase.endsBefore_cons {p : Phrase} {t : Token} (h : p.isExtendedBy t.kind = false)
    (rest : List Token) : p.EndsBefore (t :: rest) := by
  intro u hu
  obtain rfl := Option.some.inj hu
  exact h

theorem Phrase.EndsBefore.tighter {p q : Phrase} {rest : List Token} (h : p.EndsBefore rest)
    (hpq : ∀ k, q.isExtendedBy k = true → p.isExtendedBy k = true) : q.EndsBefore rest := by
  intro t ht
  cases hq : q.isExtendedBy t.kind with
  | false => rfl
  | true =>
    have hp := hpq t.kind hq
    rw [h t ht] at hp
    cases hp

theorem takeUnit_of_endsBefore {rest : List Token} (h : Phrase.primary.EndsBefore rest) :
    takeUnit rest = (none, rest) := by
  unfold takeUnit
  split
  · cases h _ rfl
  · rfl

theorem plainExponent_of_endsBefore {stop : Nat} {e : Expr} {rest : List Token}
    (h : Phrase.power.EndsBefore rest) : plainExponent stop e rest = .ok (e, rest) := by
  cases rest with
  | nil => rfl
  | cons t rest =>
    have hk : isCaret t.kind = false := by
      have ht := h t rfl
      revert ht
      cases t.kind <;> simp [Phrase.isExtendedBy, isCaret]
    simp only [plainExponent, hk, Bool.false_eq_true, if_false]

theorem plain_readProductTail_of_endsBefore {stop : Nat} {e : Expr} {rest : List Token}
    (h : Phrase.product.EndsBefore rest) :
    plain (readProductTail stop e rest) = .ok (e, rest) := by
  cases rest with
  | nil => exact plain_readProductTail_nil stop e
  | cons t rest =>
    have hop : productOp? t = none := by
      have ht := h t rfl
      revert ht
      unfold productOp?
      cases t.kind <;> simp [Phrase.isExtendedBy]
    rw [plain_readProductTail_cons, hop]

theorem plain_readSumTail_of_endsBefore {stop : Nat} {e : Expr} {rest : List Token}
    (h : Phrase.sum.EndsBefore rest) : plain (readSumTail stop e rest) = .ok (e, rest) := by
  cases rest with
  | nil => exact plain_readSumTail_nil stop e
  | cons t rest =>
    have hop : sumOp? t = none := by
      have ht := h t rfl
      revert ht
      unfold sumOp?
      cases t.kind <;> simp [Phrase.isExtendedBy]
    rw [plain_readSumTail_cons, hop]

/-- The reader of a phrase reads it whole. A chain is read up to its end; whether it goes on is left
to the reader of the tail. -/
def IsRead (stop : Nat) : Phrase → List Token → Expr → Prop
  | .sum, ts, e => ∀ rest, Phrase.product.EndsBefore rest →
      plain (readSum stop (ts ++ rest)) = plain (readSumTail stop e rest)
  | .product, ts, e => ∀ rest, Phrase.power.EndsBefore rest →
      plain (readProduct stop (ts ++ rest)) = plain (readProductTail stop e rest)
  | .power, ts, e => ∀ rest, Phrase.power.EndsBefore rest →
      plain (readPower stop (ts ++ rest)) = .ok (e, rest)
  | .signed, ts, e => ∀ rest, Phrase.primary.EndsBefore rest →
      plain (readSigned stop (ts ++ rest)) = .ok (e, rest)
  | .primary, ts, e => ∀ rest, Phrase.primary.EndsBefore rest →
      plain (readPrimary stop (ts ++ rest)) = .ok (e, rest)

theorem IsRead.product_ok {stop : Nat} {ts rest : List Token} {e : Expr}
    (h : IsRead stop .product ts e) (hrest : Phrase.product.EndsBefore rest) :
    plain (readProduct stop (ts ++ rest)) = .ok (e, rest) := by
  rw [h rest (hrest.tighter (by intro k; cases k <;> simp [Phrase.isExtendedBy]))]
  exact plain_readProductTail_of_endsBefore hrest

theorem head_of_derives_primary {ts : List Token} {e : Expr} (h : Derives .primary ts e) :
    ∃ t us, ts = t :: us ∧ signOp? t = none := by
  cases h with
  | number ht | quantity ht | cell ht | name ht | parens ht =>
    exact ⟨_, _, rfl, by simp [signOp?, ht]⟩

theorem isRead_of_derives (stop : Nat) {p : Phrase} {ts : List Token} {e : Expr}
    (h : Derives p ts e) : IsRead stop p ts e := by
  induction h with
  | sumOfProduct _ ih =>
    intro rest hrest
    rw [plain_readSum, ih.product_ok hrest]
    rfl
  | @sumMore ts us l r op _ hop _ ihl ihr =>
    intro rest hrest
    have hends : Phrase.product.EndsBefore (op :: (us ++ rest)) :=
      Phrase.endsBefore_cons (by rcases hop with hop | hop <;> rw [hop] <;> rfl) _
    have hsome : sumOp? op = some (.ofSymbol op.text) := by
      rcases hop with hop | hop <;> simp [sumOp?, hop]
    rw [List.append_assoc, List.cons_append, ihl _ hends, plain_readSumTail_cons, hsome]
    dsimp only
    rw [ihr.product_ok hrest]
    rfl
  | productOfPower _ ih =>
    intro rest hrest
    rw [plain_readProduct, ih rest hrest]
    rfl
  | @productMore ts us l r op _ hop _ ihl ihr =>
    intro rest hrest
    have hends : Phrase.power.EndsBefore (op :: (us ++ rest)) :=
      Phrase.endsBefore_cons (by rcases hop with hop | hop <;> rw [hop] <;> rfl) _
    have hsome : productOp? op = some (.ofSymbol op.text) := by
      rcases hop with hop | hop <;> simp [productOp?, hop]
    rw [List.append_assoc, List.cons_append, ihl _ hends, plain_readProductTail_cons, hsome]
    dsimp only
    rw [ihr rest hrest]
    rfl
  | powerOfSigned _ ih =>
    intro rest hrest
    rw [plain_readPower,
      ih rest (hrest.tighter (by intro k; cases k <;> simp [Phrase.isExtendedBy]))]
    exact plainExponent_of_endsBefore hrest
  | @powerMore ts us l r op _ hop _ ihl ihr =>
    intro rest hrest
    have hends : Phrase.primary.EndsBefore (op :: (us ++ rest)) :=
      Phrase.endsBefore_cons (by rw [hop]; rfl) _
    rw [List.append_assoc, List.cons_append, plain_readPower, ihl _ hends]
    simp only [Except.bind, plainExponent, isCaret_iff.2 hop, if_true, ihr rest hrest]
  | @signedOfPrimary ts e hd ih =>
    intro rest hrest
    obtain ⟨t, us, rfl, hs⟩ := head_of_derives_primary hd
    rw [List.cons_append, plain_readSigned_cons, hs]
    exact ih rest hrest
  | @signedMore ts e sign hs _ ih =>
    intro rest hrest
    have hsome : signOp? sign = some (.ofSymbol sign.text) := by
      rcases hs with hs | hs <;> simp [signOp?, hs]
    rw [List.cons_append, plain_readSigned_cons, hsome]
    dsimp only
    rw [ih rest hrest]
    rfl
  | number ht =>
    intro rest hrest
    rw [List.cons_append, List.nil_append, plain_readPrimary_cons, ht,
      takeUnit_of_endsBefore hrest]
  | @quantity t unit value ht hu =>
    intro rest _
    obtain ⟨_, text, position⟩ := unit
    dsimp only at hu
    subst hu
    simp only [List.cons_append, List.nil_append, plain_readPrimary_cons, ht, takeUnit]
  | cell ht =>
    intro rest _
    rw [List.cons_append, List.nil_append, plain_readPrimary_cons, ht]
  | name ht =>
    intro rest _
    rw [List.cons_append, List.nil_append, plain_readPrimary_cons, ht]
  | @parens ts e left right hl _ hr ih =>
    intro rest _
    have hends : ∀ p : Phrase, p.EndsBefore (right :: rest) := fun p =>
      Phrase.endsBefore_cons (by rw [hr]; cases p <;> rfl) _
    rw [List.cons_append, List.append_assoc, plain_readPrimary_cons, hl]
    dsimp only
    rw [List.singleton_append, ih _ (hends _), plain_readSumTail_of_endsBefore (hends _)]
    simp only [Except.bind, plainClose, hr]

theorem readSum_eq_ok_iff {stop : Nat} {ts : List Token} {e : Expr} :
    plain (readSum stop ts) = .ok (e, []) ↔ Derives .sum ts e := by
  constructor
  · intro h
    obtain ⟨used, hts, hd⟩ := derives_of_readSum stop ts h
    rw [List.append_nil] at hts
    rwa [hts]
  · intro h
    have hread := isRead_of_derives stop h [] (Phrase.endsBefore_nil _)
    rw [List.append_nil, plain_readSumTail_nil] at hread
    exact hread

theorem readStatement_eq_ok_iff {formula : (ts : List Token) → Reading ts Expr}
    {ts : List Token} {s : Statement} :
    readStatement formula ts = .ok s ↔
      ts ≠ [] ∧ plain (formula (takeTarget ts).2) = .ok (s.expr, []) ∧
        (takeTarget ts).1 = s.target := by
  obtain ⟨target, expr⟩ := s
  cases ts with
  | nil => simp [readStatement]
  | cons t ts =>
    simp only [readStatement]
    rcases formula (takeTarget (t :: ts)).2 with stop | ⟨e, _ | ⟨u, us⟩, h⟩ <;>
      simp [plain, Except.map, and_comm]

theorem takeTarget_cases (ts : List Token) :
    (∃ name equal rest, ts = name :: equal :: rest ∧ name.kind = .identifier ∧
      equal.kind = .equal ∧ takeTarget ts = (some name.text, rest)) ∨
    ((¬ ∃ name equal rest, ts = name :: equal :: rest ∧ name.kind = .identifier ∧
      equal.kind = .equal) ∧ takeTarget ts = (none, ts)) := by
  rcases ts with _ | ⟨name, _ | ⟨equal, rest⟩⟩
  · exact .inr ⟨by simp, rfl⟩
  · exact .inr ⟨by simp, rfl⟩
  · by_cases h : name.kind = .identifier ∧ equal.kind = .equal
    · exact .inl ⟨name, equal, rest, rfl, h.1, h.2, by simp [takeTarget, h]⟩
    · refine .inr ⟨?_, ?_⟩
      · rintro ⟨_, _, _, heq, hn, he⟩
        injection heq with h1 h2
        injection h2 with h2 h3
        subst h1 h2
        exact h ⟨hn, he⟩
      · simp only [takeTarget]
        split
        · rename_i hn he
          exact absurd ⟨hn, he⟩ h
        · rfl

theorem readFormula_eq_ok_iff {ts : List Token} {s : Statement} :
    readFormula ts = .ok s ↔ DerivesStatement ts s := by
  unfold readFormula
  rw [readStatement_eq_ok_iff, readSum_eq_ok_iff]
  obtain ⟨target, expr⟩ := s
  constructor
  · rintro ⟨-, hd, htarget⟩
    rcases takeTarget_cases ts with ⟨name, equal, rest, rfl, hn, he, h⟩ | ⟨-, h⟩
    · rw [h] at hd htarget
      obtain rfl := htarget
      exact .definition hn he hd
    · rw [h] at hd htarget
      obtain rfl := htarget
      exact .formula hd
  · intro h
    rcases takeTarget_cases ts with ⟨name, equal, rest, rfl, hn, he, ht⟩ | ⟨hno, ht⟩
    · rw [ht]
      cases h with
      | formula hd => exact absurd he (hd.kind_ne_equal equal (by simp))
      | definition _ _ hd => exact ⟨by simp, hd, rfl⟩
    · rw [ht]
      cases h with
      | formula hd => exact ⟨hd.ne_nil, hd, rfl⟩
      | definition hn he _ => exact absurd ⟨_, _, _, rfl, hn, he⟩ hno

theorem DerivesStatement.unique {ts : List Token} {s s' : Statement}
    (h : DerivesStatement ts s) (h' : DerivesStatement ts s') : s = s' := by
  have hs := readFormula_eq_ok_iff.2 h
  rw [readFormula_eq_ok_iff.2 h'] at hs
  exact (Except.ok.inj hs).symm

theorem parse_eq_ok_iff {ts : List Token} {s : Statement} :
    parse ts = .ok s ↔ DerivesStatement (Token.significant ts) s := by
  rw [← readFormula_eq_ok_iff, parse]
  cases readFormula (Token.significant ts) with
  | error e =>
    constructor
    · intro h
      cases h
    · intro h
      cases h
  | ok s' =>
    constructor
    · intro h
      rw [Except.ok.inj h]
    · intro h
      rw [Except.ok.inj h]
      rfl

/-- A statement defines a name exactly if its tokens start with a name and an equals sign. -/
theorem DerivesStatement.target_eq_some_iff {ts : List Token} {s : Statement}
    (h : DerivesStatement ts s) (n : String) :
    s.target = some n ↔ ∃ name equal rest, ts = name :: equal :: rest ∧
      name.kind = .identifier ∧ equal.kind = .equal ∧ name.text = n := by
  cases h with
  | formula hd =>
    constructor
    · intro h
      cases h
    · rintro ⟨name, equal, rest, rfl, -, he, -⟩
      exact absurd he (hd.kind_ne_equal equal (by simp))
  | @definition ts e name equal hn he hd =>
    constructor
    · intro h
      exact ⟨name, equal, ts, rfl, hn, he, Option.some.inj h⟩
    · rintro ⟨name', equal', rest, heq, -, -, rfl⟩
      injection heq with h1 h2
      rw [h1]

/-- The parser and the grammar agree: the parser answers with the statement that the tokens write,
which is the only one, and complains exactly if there is none. -/
theorem parse_exact (ts : List Token) :
    (∀ s, parse ts = .ok s ↔ DerivesStatement (Token.significant ts) s) ∧
    ((∃ e, parse ts = .error e) ↔ ¬ ∃ s, DerivesStatement (Token.significant ts) s) ∧
    (∀ s s', DerivesStatement (Token.significant ts) s →
      DerivesStatement (Token.significant ts) s' → s = s') ∧
    (∀ s n, DerivesStatement (Token.significant ts) s →
      (s.target = some n ↔ ∃ name equal rest, Token.significant ts = name :: equal :: rest ∧
        name.kind = .identifier ∧ equal.kind = .equal ∧ name.text = n)) := by
  refine ⟨fun s => parse_eq_ok_iff, ?_, fun s s' h h' => h.unique h',
    fun s n h => h.target_eq_some_iff n⟩
  constructor
  · rintro ⟨e, he⟩ ⟨s, hs⟩
    rw [parse_eq_ok_iff.2 hs] at he
    cases he
  · intro hno
    cases h : parse ts with
    | error e => exact ⟨e, rfl⟩
    | ok s => exact absurd ⟨s, parse_eq_ok_iff.1 h⟩ hno

end UnitSheet.Grammar
