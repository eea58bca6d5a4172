import Mathlib.Data.List.Basic
import UnitSheet.Proofs.Grammar.Exactness

set_option autoImplicit false

/-!
Places in a statement. A place says what may come next, and each token leads from one place to
another or nowhere. The parser accepts what leads to an end, it complains about the first token that
leads nowhere, and from every place some tokens lead to an end, so no earlier token is to blame.
-/

namespace UnitSheet.Grammar

/-- What may come next in a statement. The depth counts the parentheses that are open. -/
inductive Place
  | start
  /-- Behind a name in front, which may be the one that is defined. -/
  | named
  | operand (depth : Nat)
  /-- Behind a number, which may take a unit. -/
  | unit (depth : Nat)
  | operator (depth : Nat)

namespace Place

def stepOperand (depth : Nat) : TokenKind → Option Place
  | .plus | .minus => some (operand depth)
  | .number _ => some (unit depth)
  | .cellRef | .identifier => some (operator depth)
  | .leftParen => some (operand (depth + 1))
  | _ => none

def stepOperator (depth : Nat) : TokenKind → Option Place
  | .plus | .minus | .star | .slash | .caret => some (operand depth)
  | .rightParen => match depth with
    | 0 => none
    | outer + 1 => some (operator outer)
  | _ => none

def step : Place → TokenKind → Option Place
  | start, .identifier => some named
  | start, k => stepOperand 0 k
  | named, .equal => some (operand 0)
  | named, k => stepOperator 0 k
  | operand depth, k => stepOperand depth k
  | unit depth, .unit => some (operator depth)
  | unit depth, k => stepOperator depth k
  | operator depth, k => stepOperator depth k

def run (q : Place) : List Token → Option Place
  | [] => some q
  | t :: ts => (q.step t.kind).bind fun q' => q'.run ts

def IsLast : Place → Prop
  | named | unit 0 | operator 0 => True
  | _ => False

def Closes (depth : Nat) (q : Place) : Prop := q = unit depth ∨ q = operator depth

/-- The place that tokens lead to, and the tokens that are left there. -/
def Reaches (q : Place) (ts : List Token) (q' : Place) (rest : List Token) : Prop :=
  ∃ used, ts = used ++ rest ∧ q.run used = some q'

def EndsPhrase (p : Phrase) (q : Place) (rest : List Token) : Prop :=
  ∀ t ∈ rest.head?, p.isExtendedBy t.kind = true → q.step t.kind = none

/-- The complaint is about the token in front, which may not stand here, or about the end. -/
def Blames (stop : Nat) (q : Place) : List Token → ParseError → Prop
  | [], e => ¬ q.IsLast ∧ e.position = stop
  | t :: _, e => q.step t.kind = none ∧ e.position = t.position

section
variable {p : Phrase} {q q' q'' : Place} {t : Token} {ts us rest : List Token} {depth stop : Nat}
  {k : TokenKind}

theorem run_append (q : Place) (ts us : List Token) :
    q.run (ts ++ us) = (q.run ts).bind fun q' => q'.run us := by
  induction ts generalizing q with
  | nil => rfl
  | cons t ts ih =>
    rw [List.cons_append, run, run]
    cases q.step t.kind with
    | none => rfl
    | some q' => exact ih q'

theorem run_step (h : q.step t.kind = some q') (ts : List Token) : q.run (t :: ts) = q'.run ts := by
  rw [run, h]
  rfl

theorem Reaches.refl (q : Place) (ts : List Token) : q.Reaches ts q ts := ⟨[], rfl, rfl⟩

theorem Reaches.head (h : q.step t.kind = some q') (hrest : q'.Reaches ts q'' rest) :
    q.Reaches (t :: ts) q'' rest := by
  obtain ⟨used, rfl, hrun⟩ := hrest
  exact ⟨t :: used, rfl, by rw [run_step h, hrun]⟩

theorem Reaches.trans (h : q.Reaches ts q' us) (h' : q'.Reaches us q'' rest) :
    q.Reaches ts q'' rest := by
  obtain ⟨used, rfl, hrun⟩ := h
  obtain ⟨more, rfl, hrun'⟩ := h'
  exact ⟨used ++ more, by rw [List.append_assoc], by rw [run_append, hrun]; exact hrun'⟩

theorem endsPhrase_nil (p : Phrase) (q : Place) : EndsPhrase p q [] := by
  intro t ht
  cases ht

theorem EndsPhrase.of_cons {p' : Phrase} (h : q.EndsPhrase p (t :: rest))
    (hext : p'.isExtendedBy t.kind = true → p.isExtendedBy t.kind = true) :
    q.EndsPhrase p' (t :: rest) := by
  intro u hu hcarries
  obtain rfl := Option.some.inj hu
  exact h t rfl (hext hcarries)

theorem Closes.not_isLast (h : q.Closes (depth + 1)) : ¬ q.IsLast := by
  rcases h with rfl | rfl <;> exact id

theorem Closes.isLast (h : q.Closes 0) : q.IsLast := by
  rcases h with rfl | rfl <;> trivial

theorem Closes.step_operator (h : q.Closes depth)
    (hk : (k = .plus ∨ k = .minus) ∨ (k = .star ∨ k = .slash) ∨ k = .caret) :
    q.step k = some (operand depth) := by
  rcases h with rfl | rfl <;> rcases hk with (rfl | rfl) | (rfl | rfl) | rfl <;> rfl

/-- Behind a sum nothing may stand but a parenthesis that closes an open one. -/
theorem Closes.step_eq_none (h : q.Closes depth)
    (hsum : Phrase.sum.isExtendedBy k = true → q.step k = none)
    (hright : k = .rightParen → depth = 0) : q.step k = none := by
  rcases h with rfl | rfl
  · cases k with
    | rightParen => rw [hright rfl]; rfl
    | unit | plus | minus | star | slash | caret => exact hsum rfl
    | _ => rfl
  · cases k with
    | rightParen => rw [hright rfl]; rfl
    | unit | plus | minus | star | slash | caret => exact hsum rfl
    | _ => rfl

end

end Place

/-- The reader goes from `q` to a place behind an operand, where its phrase ends, or it complains
where it is stuck. -/
def Tracks (p : Phrase) (depth stop : Nat) (q : Place) (ts : List Token) :
    Except ParseStop (Expr × List Token) → Prop
  | .ok (_, rest) => ∃ q' : Place, q.Reaches ts q' rest ∧ q'.Closes depth ∧ q'.EndsPhrase p rest
  | .error e => ∃ q' : Place, q.Reaches ts q' e.rest ∧ q'.Blames stop e.rest e.error

section
variable {p p' : Phrase} {q q' : Place} {t : Token} {ts us rest : List Token}
  {depth depth' stop : Nat} {r : Except ParseStop (Expr × List Token)} {e : Expr}

theorem tracks_ok (hq : q.Closes depth) (hends : q.EndsPhrase p ts) :
    Tracks p depth stop q ts (.ok (e, ts)) := ⟨q, .refl q ts, hq, hends⟩

theorem tracks_error {err : ParseError} (h : q.Blames stop ts err) :
    Tracks p depth stop q ts (.error ⟨err, ts⟩) := ⟨q, .refl q ts, h⟩

theorem Tracks.reaches (h : q.Reaches ts q' us) (hr : Tracks p depth stop q' us r) :
    Tracks p depth stop q ts r := by
  rcases r with e | ⟨e, rest⟩
  · obtain ⟨q'', hreach, hblames⟩ := hr
    exact ⟨q'', h.trans hreach, hblames⟩
  · obtain ⟨q'', hreach, hend⟩ := hr
    exact ⟨q'', h.trans hreach, hend⟩

theorem Tracks.head (h : q.step t.kind = some q') (hr : Tracks p depth stop q' ts r) :
    Tracks p depth stop q (t :: ts) r :=
  hr.reaches (.head h (.refl q' ts))

theorem Tracks.bind {f : Expr × List Token → Except ParseStop (Expr × List Token)}
    (h : Tracks p depth stop q ts r)
    (hf : ∀ e rest (q' : Place), r = .ok (e, rest) → q'.Closes depth → q'.EndsPhrase p rest →
      Tracks p' depth' stop q' rest (f (e, rest))) :
    Tracks p' depth' stop q ts (r.bind f) := by
  rcases r with e | ⟨e, rest⟩
  · exact h
  · obtain ⟨q', hreach, hq, hends⟩ := h
    exact (hf e rest q' rfl hq hends).reaches hreach

theorem sumOp?_eq_none (h : sumOp? t = none) : t.kind ≠ .plus ∧ t.kind ≠ .minus := by
  unfold sumOp? at h
  split at h
  · cases h
  · cases h
  · exact ⟨‹_›, ‹_›⟩

theorem productOp?_eq_none (h : productOp? t = none) : t.kind ≠ .star ∧ t.kind ≠ .slash := by
  unfold productOp? at h
  split at h
  · cases h
  · cases h
  · exact ⟨‹_›, ‹_›⟩

theorem signOp?_eq_none (h : signOp? t = none) : t.kind ≠ .plus ∧ t.kind ≠ .minus := by
  unfold signOp? at h
  split at h
  · cases h
  · cases h
  · exact ⟨‹_›, ‹_›⟩

theorem Tracks.signed (h : Tracks .primary depth stop q ts r) : Tracks .signed depth stop q ts r := by
  rcases r with e | ⟨e, rest⟩
  · exact h
  · obtain ⟨q', hreach, hq, hends⟩ := h
    refine ⟨q', hreach, hq, fun t ht hext => hends t ht ?_⟩
    revert hext
    cases t.kind <;> exact id

theorem tracks_operand (h : q.step t.kind = some (.operator depth)) :
    Tracks .primary depth stop q (t :: ts) (.ok (e, ts)) := by
  refine .head h (tracks_ok (.inr rfl) fun u _ hu => ?_)
  cases hk : u.kind with
  | unit => rfl
  | _ => rw [hk] at hu; cases hu

theorem tracks_takeUnit {value : Float} (ht : t.kind = .number value) (ts : List Token) :
    Tracks .primary depth stop (.operand depth) (t :: ts)
      (.ok (.literal value (takeUnit ts).1, (takeUnit ts).2)) := by
  have hnumber : (Place.operand depth).step t.kind = some (.unit depth) := by rw [ht]; rfl
  refine .head hnumber ?_
  unfold takeUnit
  split
  · rename_i text position rest
    exact tracks_operand rfl
  · rename_i hunit
    refine tracks_ok (.inl rfl) fun u hu hext => ?_
    cases hk : u.kind with
    | unit =>
      obtain ⟨more, rfl⟩ : ∃ more, ts = u :: more := ⟨_, List.eq_cons_of_mem_head? hu⟩
      obtain ⟨_, text, position⟩ := u
      obtain rfl := hk
      exact (hunit text position more rfl).elim
    | _ => rw [hk] at hext; cases hext

theorem tracks_plainClose (hq : q.Closes (depth + 1)) (hends : q.EndsPhrase .sum ts) :
    Tracks .primary depth stop q ts (plainClose stop e ts) := by
  cases ts with
  | nil => exact tracks_error ⟨hq.not_isLast, rfl⟩
  | cons t ts =>
    rw [plainClose]
    split
    · rename_i hk
      exact tracks_operand (by rw [hk]; rcases hq with rfl | rfl <;> rfl)
    · rename_i hk
      exact tracks_error ⟨hq.step_eq_none (hends t rfl) fun h => (hk h).elim, rfl⟩

end

mutual

theorem tracks_readSum (depth stop : Nat) (ts : List Token) :
    Tracks .sum depth stop (.operand depth) ts (plain (readSum stop ts)) := by
  rw [plain_readSum]
  refine (tracks_readProduct depth stop ts).bind fun left rest q hread hq hends => ?_
  have hlt := plain_length hread
  exact tracks_readSumTail depth stop left rest hq hends
termination_by (ts.length, 5)

theorem tracks_readSumTail (depth stop : Nat) (left : Expr) (ts : List Token) {q : Place}
    (hq : q.Closes depth) (hends : q.EndsPhrase .product ts) :
    Tracks .sum depth stop q ts (plain (readSumTail stop left ts)) := by
  cases ts with
  | nil =>
    rw [plain_readSumTail_nil]
    exact tracks_ok hq (q.endsPhrase_nil _)
  | cons t ts =>
    rw [plain_readSumTail_cons]
    cases hop : sumOp? t with
    | none =>
      refine tracks_ok hq (hends.of_cons ?_)
      have hne := sumOp?_eq_none hop
      revert hne
      cases t.kind <;> simp [Phrase.isExtendedBy]
    | some op =>
      have hstep := hq.step_operator (.inl (sumOp?_eq_some hop).1)
      refine .head hstep ((tracks_readProduct depth stop ts).bind fun right rest q' hread hq' hends' => ?_)
      have hlt := plain_length hread
      exact tracks_readSumTail depth stop _ rest hq' hends'
termination_by (ts.length, 0)
decreasing_by all_goals (subst_vars; exact Prod.Lex.left _ _ (by simp only [List.length_cons]; omega))

theorem tracks_readProduct (depth stop : Nat) (ts : List Token) :
    Tracks .product depth stop (.operand depth) ts (plain (readProduct stop ts)) := by
  rw [plain_readProduct]
  refine (tracks_readPower depth stop ts).bind fun left rest q hread hq hends => ?_
  have hlt := plain_length hread
  exact tracks_readProductTail depth stop left rest hq hends
termination_by (ts.length, 4)

theorem tracks_readProductTail (depth stop : Nat) (left : Expr) (ts : List Token) {q : Place}
    (hq : q.Closes depth) (hends : q.EndsPhrase .power ts) :
    Tracks .product depth stop q ts (plain (readProductTail stop left ts)) := by
  cases ts with
  | nil =>
    rw [plain_readProductTail_nil]
    exact tracks_ok hq (q.endsPhrase_nil _)
  | cons t ts =>
    rw [plain_readProductTail_cons]
    cases hop : productOp? t with
    | none =>
      refine tracks_ok hq (hends.of_cons ?_)
      have hne := productOp?_eq_none hop
      revert hne
      cases t.kind <;> simp [Phrase.isExtendedBy]
    | some op =>
      have hstep := hq.step_operator (.inr (.inl (productOp?_eq_some hop).1))
      refine .head hstep ((tracks_readPower depth stop ts).bind fun right rest q' hread hq' hends' => ?_)
      have hlt := plain_length hread
      exact tracks_readProductTail depth stop _ rest hq' hends'
termination_by (ts.length, 0)
decreasing_by all_goals (subst_vars; exact Prod.Lex.left _ _ (by simp only [List.length_cons]; omega))

theorem tracks_readPower (depth stop : Nat) (ts : List Token) :
    Tracks .power depth stop (.operand depth) ts (plain (readPower stop ts)) := by
  rw [plain_readPower]
  refine (tracks_readSigned depth stop ts).bind fun base rest q hread hq hends => ?_
  have hlt := plain_length hread
  cases rest with
  | nil => exact tracks_ok hq (q.endsPhrase_nil _)
  | cons t rest =>
    dsimp only [plainExponent]
    split
    · rename_i hc
      have hless : rest.length < ts.length := Nat.lt_of_succ_lt hlt
      refine .head (hq.step_operator (.inr (.inr (isCaret_iff.1 hc)))) ?_
      exact (tracks_readPower depth stop rest).bind fun _ _ _ _ hq' hends' => tracks_ok hq' hends'
    · rename_i hc
      refine tracks_ok hq (hends.of_cons ?_)
      have hne : t.kind ≠ .caret := fun h => hc (isCaret_iff.2 h)
      revert hne
      cases t.kind <;> simp [Phrase.isExtendedBy]
termination_by (ts.length, 3)

theorem tracks_readSigned (depth stop : Nat) (ts : List Token) :
    Tracks .signed depth stop (.operand depth) ts (plain (readSigned stop ts)) := by
  cases ts with
  | nil =>
    rw [readSigned, readPrimary]
    exact tracks_error ⟨id, rfl⟩
  | cons t ts =>
    rw [plain_readSigned_cons]
    cases hs : signOp? t with
    | none =>
      exact (tracks_readPrimary depth stop t ts hs).signed
    | some sign =>
      have hstep : (Place.operand depth).step t.kind = some (.operand depth) := by
        rcases (signOp?_eq_some hs).1 with hk | hk <;> rw [hk] <;> rfl
      refine .head hstep ?_
      exact (tracks_readSigned depth stop ts).bind fun _ _ _ _ hq hends => tracks_ok hq hends
termination_by (ts.length, 2)

theorem tracks_readPrimary (depth stop : Nat) (t : Token) (ts : List Token) (hs : signOp? t = none) :
    Tracks .primary depth stop (.operand depth) (t :: ts) (plain (readPrimary stop (t :: ts))) := by
  have hsigns := signOp?_eq_none hs
  rw [plain_readPrimary_cons]
  split
  · rename_i value hk
    exact tracks_takeUnit hk ts
  · rename_i hk
    exact tracks_operand (by rw [hk]; rfl)
  · rename_i hk
    exact tracks_operand (by rw [hk]; rfl)
  · rename_i hk
    have hstep : (Place.operand depth).step t.kind = some (.operand (depth + 1)) := by rw [hk]; rfl
    refine .head hstep ((tracks_readSum (depth + 1) stop ts).bind fun e rest q _ hq hends => ?_)
    exact tracks_plainClose hq hends
  · rename_i hnumber hcell hname hparen
    refine tracks_error ⟨?_, rfl⟩
    cases hk : t.kind with
    | number value => exact (hnumber value hk).elim
    | cellRef => exact (hcell hk).elim
    | identifier => exact (hname hk).elim
    | leftParen => exact (hparen hk).elim
    | plus => exact (hsigns.1 hk).elim
    | minus => exact (hsigns.2 hk).elim
    | _ => rfl
termination_by (ts.length + 1, 1)

end

end UnitSheet.Grammar
