import UnitSheet.Grammar.Restricted
import UnitSheet.Proofs.Grammar.Exactness

set_option autoImplicit false

namespace UnitSheet.Grammar

/-- A sum of literals that groups to the left. -/
inductive LiteralSum : Expr → Prop
  | literal (value : Float) (unit : Option String) : LiteralSum (.literal value unit)
  | more {op : BinaryOp} {l : Expr} (value : Float) (unit : Option String) :
      LiteralSum l → (op = .add ∨ op = .sub) → LiteralSum (.binary op l (.literal value unit))

def SumsSpelled (ts : List Token) : Prop :=
  ∀ t ∈ ts, ∀ op, sumOp? t = some op → op = .add ∨ op = .sub

theorem SumsSpelled.mono {ts us : List Token} (h : SumsSpelled ts) (hus : ∀ t ∈ us, t ∈ ts) :
    SumsSpelled us :=
  fun t ht => h t (hus t ht)

namespace Restricted

theorem plain_readTerm_eq_ok {stop : Nat} {ts rest : List Token} {e : Expr}
    (h : plain (readTerm stop ts) = .ok (e, rest)) :
    ∃ value unit used, e = .literal value unit ∧ ts = used ++ rest ∧ Derives .primary used e := by
  cases ts with
  | nil => cases h
  | cons t ts =>
    simp only [readTerm] at h
    split at h
    · rename_i value hk
      obtain ⟨rfl, rfl⟩ := Prod.mk.inj (Except.ok.inj h)
      obtain ⟨used, hts, hd⟩ := derives_takeUnit hk ts
      exact ⟨value, (takeUnit ts).1, used, rfl, hts, hd⟩
    all_goals cases h

theorem plain_readSumTail_cons (stop : Nat) (left : Expr) (t : Token) (ts : List Token) :
    plain (readSumTail stop left (t :: ts)) =
      match sumOp? t with
      | none => .ok (left, t :: ts)
      | some op => (plain (readTerm stop ts)).bind fun x =>
          plain (readSumTail stop (.binary op left x.1) x.2) := by
  rw [readSumTail]
  rcases sumOp? t with _ | op
  · rfl
  · dsimp only
    rcases readTerm stop ts with e | ⟨right, rest, h⟩
    · rfl
    · simp only [plain, Except.map, Except.bind]
      rcases readSumTail stop (.binary op left right) rest with e | ⟨e, rest', h'⟩ <;> rfl

theorem plain_readSum (stop : Nat) (ts : List Token) :
    plain (readSum stop ts) =
      (plain (readTerm stop ts)).bind fun x => plain (readSumTail stop x.1 x.2) := by
  unfold readSum
  rcases readTerm stop ts with e | ⟨left, rest, h⟩
  · rfl
  · simp only [plain, Except.map, Except.bind]
    rcases readSumTail stop left rest with e | ⟨e, rest', h'⟩ <;> rfl

theorem product_of_primary {ts : List Token} {e : Expr} (h : Derives .primary ts e) :
    Derives .product ts e :=
  .productOfPower (.powerOfSigned (.signedOfPrimary h))

theorem derives_of_readSumTail (stop : Nat) (ts : List Token) {left e : Expr}
    {used rest : List Token} (hts : SumsSpelled ts) (hl : Derives .sum used left)
    (hsum : LiteralSum left) (h : plain (readSumTail stop left ts) = .ok (e, rest)) :
    ∃ more, ts = more ++ rest ∧ Derives .sum (used ++ more) e ∧ LiteralSum e := by
  cases ts with
  | nil =>
    rw [readSumTail] at h
    obtain ⟨rfl, rfl⟩ := Prod.mk.inj (Except.ok.inj h)
    exact ⟨[], rfl, by rwa [List.append_nil], hsum⟩
  | cons t ts =>
    rw [plain_readSumTail_cons] at h
    cases hop : sumOp? t with
    | none =>
      rw [hop] at h
      obtain ⟨rfl, rfl⟩ := Prod.mk.inj (Except.ok.inj h)
      exact ⟨[], rfl, by rwa [List.append_nil], hsum⟩
    | some op =>
      rw [hop] at h
      obtain ⟨⟨right, mid⟩, hright, htail⟩ := bind_eq_ok h
      have hlt := plain_length hright
      obtain ⟨value, unit, us, rfl, rfl, hd⟩ := plain_readTerm_eq_ok hright
      have hisOp := hts t List.mem_cons_self op hop
      obtain ⟨hk, rfl⟩ := sumOp?_eq_some hop
      have hmid : SumsSpelled mid := hts.mono (by simp +contextual)
      obtain ⟨more, rfl, hd', hsum'⟩ := derives_of_readSumTail stop mid hmid
        (.sumMore hl hk (product_of_primary hd)) (.more value unit hsum hisOp) htail
      exact ⟨t :: us ++ more, by simp, by simpa using hd', hsum'⟩
termination_by ts.length

theorem derives_of_readSum {stop : Nat} {ts : List Token} {e : Expr} (hts : SumsSpelled ts)
    (h : plain (readSum stop ts) = .ok (e, [])) : Derives .sum ts e ∧ LiteralSum e := by
  rw [plain_readSum] at h
  obtain ⟨⟨left, mid⟩, hleft, htail⟩ := bind_eq_ok h
  obtain ⟨value, unit, used, rfl, rfl, hd⟩ := plain_readTerm_eq_ok hleft
  obtain ⟨more, rfl, hd', hsum⟩ := derives_of_readSumTail stop mid (hts.mono (by simp +contextual))
    (.sumOfProduct (product_of_primary hd)) (.literal value unit) htail
  rw [List.append_nil]
  exact ⟨hd', hsum⟩

theorem mem_of_mem_takeTarget {ts : List Token} {t : Token} (h : t ∈ (takeTarget ts).2) :
    t ∈ ts := by
  rcases takeTarget_cases ts with ⟨name, equal, rest, rfl, -, -, ht⟩ | ⟨-, ht⟩
  · rw [ht] at h
    exact List.mem_cons_of_mem _ (List.mem_cons_of_mem _ h)
  · rwa [ht] at h

/-- A statement of the restricted grammar is the statement that the full grammar reads, and its
formula is a sum of literals. -/
theorem parse_of_parsed {ts : List Token} {s : Statement} (hts : SumsSpelled ts)
    (h : parse ts = .parsed s) : Grammar.parse ts = .ok s ∧ LiteralSum s.expr := by
  unfold parse at h
  dsimp only at h
  split at h
  · cases h
  · split at h
    · rename_i statement hread
      obtain rfl := Answer.parsed.inj h
      obtain ⟨hne, hplain, htarget⟩ := readStatement_eq_ok_iff.1 hread
      have hspelled : SumsSpelled (takeTarget (Token.significant ts)).2 :=
        hts.mono fun t ht => (List.mem_filter.1 (mem_of_mem_takeTarget ht)).1
      obtain ⟨hd, hsum⟩ := derives_of_readSum hspelled hplain
      have hfull : readStatement (Grammar.readSum (endPosition (Token.significant ts)))
          (Token.significant ts) = .ok statement :=
        readStatement_eq_ok_iff.2 ⟨hne, readSum_eq_ok_iff.2 hd, htarget⟩
      refine ⟨?_, hsum⟩
      simp only [Grammar.parse, readFormula, hfull]
      rfl
    · cases h

end Restricted

end UnitSheet.Grammar
