import UnitSheet.Proofs.Grammar.Derivation

set_option autoImplicit false

namespace UnitSheet.Grammar

theorem bind_eq_ok {ε α β : Type} {x : Except ε α} {f : α → Except ε β} {b : β}
    (h : x.bind f = .ok b) : ∃ a, x = .ok a ∧ f a = .ok b := by
  cases x with
  | error e => cases h
  | ok a => exact ⟨a, rfl, h⟩

/-- The answer of a reader, without the proof that fewer tokens are left. -/
def plain {P : List Token → Prop} (r : Except ParseStop (Expr × { rest : List Token // P rest })) :
    Except ParseStop (Expr × List Token) :=
  r.map fun x => (x.1, x.2.val)

theorem plain_length {ts rest : List Token} {e : Expr} {r : Reading ts Expr}
    (h : plain r = .ok (e, rest)) : rest.length < ts.length := by
  rcases r with stop | ⟨e', rest', h'⟩
  · cases h
  · obtain ⟨-, rfl⟩ := Prod.mk.inj (Except.ok.inj h)
    exact h'

theorem plain_readSum (stop : Nat) (ts : List Token) :
    plain (readSum stop ts) =
      (plain (readProduct stop ts)).bind fun x => plain (readSumTail stop x.1 x.2) := by
  rw [readSum]
  rcases readProduct stop ts with e | ⟨left, rest, h⟩
  · rfl
  · simp only [plain, Except.map, Except.bind]
    rcases readSumTail stop left rest with e | ⟨e, rest', h'⟩ <;> rfl

theorem plain_readSumTail_nil (stop : Nat) (left : Expr) :
    plain (readSumTail stop left []) = .ok (left, []) := by
  rw [readSumTail]
  rfl

theorem plain_readSumTail_cons (stop : Nat) (left : Expr) (t : Token) (ts : List Token) :
    plain (readSumTail stop left (t :: ts)) =
      match sumOp? t with
      | none => .ok (left, t :: ts)
      | some op => (plain (readProduct stop ts)).bind fun x =>
          plain (readSumTail stop (.binary op left x.1) x.2) := by
  rw [readSumTail]
  rcases sumOp? t with _ | op
  · rfl
  · dsimp only
    rcases readProduct stop ts with e | ⟨right, rest, h⟩
    · rfl
    · simp only [plain, Except.map, Except.bind]
      rcases readSumTail stop (.binary op left right) rest with e | ⟨e, rest', h'⟩ <;> rfl

theorem plain_readProduct (stop : Nat) (ts : List Token) :
    plain (readProduct stop ts) =
      (plain (readPower stop ts)).bind fun x => plain (readProductTail stop x.1 x.2) := by
  rw [readProduct]
  rcases readPower stop ts with e | ⟨left, rest, h⟩
  · rfl
  · simp only [plain, Except.map, Except.bind]
    rcases readProductTail stop left rest with e | ⟨e, rest', h'⟩ <;> rfl

theorem plain_readProductTail_nil (stop : Nat) (left : Expr) :
    plain (readProductTail stop left []) = .ok (left, []) := by
  rw [readProductTail]
  rfl

theorem plain_readProductTail_cons (stop : Nat) (left : Expr) (t : Token) (ts : List Token) :
    plain (readProductTail stop left (t :: ts)) =
      match productOp? t with
      | none => .ok (left, t :: ts)
      | some op => (plain (readPower stop ts)).bind fun x =>
          plain (readProductTail stop (.binary op left x.1) x.2) := by
  rw [readProductTail]
  rcases productOp? t with _ | op
  · rfl
  · dsimp only
    rcases readPower stop ts with e | ⟨right, rest, h⟩
    · rfl
    · simp only [plain, Except.map, Except.bind]
      rcases readProductTail stop (.binary op left right) rest with e | ⟨e, rest', h'⟩ <;> rfl

def plainExponent (stop : Nat) (base : Expr) :
    List Token → Except ParseStop (Expr × List Token)
  | [] => .ok (base, [])
  | t :: ts =>
    if isCaret t.kind then
      (plain (readPower stop ts)).bind fun x => .ok (.binary (.ofSymbol t.text) base x.1, x.2)
    else .ok (base, t :: ts)

theorem plain_readPower (stop : Nat) (ts : List Token) :
    plain (readPower stop ts) =
      (plain (readSigned stop ts)).bind fun x => plainExponent stop x.1 x.2 := by
  rw [readPower]
  rcases readSigned stop ts with e | ⟨base, _ | ⟨t, rest⟩, h⟩
  · rfl
  · rfl
  · by_cases hc : isCaret t.kind = true
    · simp only [plain, Except.map, Except.bind, plainExponent, hc, if_true]
      rcases readPower stop rest with e | ⟨exponent, rest', h'⟩ <;> rfl
    · simp only [plain, Except.map, Except.bind, plainExponent, hc, if_false, Bool.false_eq_true]

theorem plain_readSigned_cons (stop : Nat) (t : Token) (ts : List Token) :
    plain (readSigned stop (t :: ts)) =
      match signOp? t with
      | none => plain (readPrimary stop (t :: ts))
      | some sign => (plain (readSigned stop ts)).bind fun x => .ok (.signed sign x.1, x.2) := by
  rw [readSigned]
  rcases signOp? t with _ | sign
  · rfl
  · dsimp only
    rcases readSigned stop ts with e | ⟨operand, rest, h⟩ <;> rfl

theorem plain_readSigned_cases (stop : Nat) (ts : List Token) :
    plain (readSigned stop ts) = plain (readPrimary stop ts) ∨
      ∃ (t : Token) (us : List Token) (sign : SignOp), ts = t :: us ∧ signOp? t = some sign ∧
        plain (readSigned stop ts) =
          (plain (readSigned stop us)).bind fun x => .ok (.signed sign x.1, x.2) := by
  cases ts with
  | nil => exact .inl (by rw [readSigned])
  | cons t us =>
    have h := plain_readSigned_cons stop t us
    cases hs : signOp? t with
    | none => exact .inl (by rw [h, hs])
    | some sign => exact .inr ⟨t, us, sign, rfl, hs, by rw [h, hs]⟩

def plainClose (stop : Nat) (e : Expr) : List Token → Except ParseStop (Expr × List Token)
  | [] => .error ⟨.unclosed stop, []⟩
  | t :: ts =>
    match t.kind with
    | .rightParen => .ok (e, ts)
    | _ => .error ⟨.unclosed t.position, t :: ts⟩

theorem plain_readPrimary_cons (stop : Nat) (t : Token) (ts : List Token) :
    plain (readPrimary stop (t :: ts)) =
      match t.kind with
      | .number value => .ok (.literal value (takeUnit ts).1, (takeUnit ts).2)
      | .cellRef => .ok (.cell t.text, ts)
      | .identifier => .ok (.name t.text, ts)
      | .leftParen => (plain (readSum stop ts)).bind fun x => plainClose stop x.1 x.2
      | _ => .error ⟨.unexpected t, t :: ts⟩ := by
  rw [readPrimary]
  cases t.kind with
  | leftParen =>
    dsimp only
    rcases readSum stop ts with e | ⟨e, _ | ⟨next, rest⟩, h⟩
    · rfl
    · rfl
    · simp only [plain, Except.map, Except.bind, plainClose]
      cases next.kind <;> rfl
  | _ => rfl

end UnitSheet.Grammar
