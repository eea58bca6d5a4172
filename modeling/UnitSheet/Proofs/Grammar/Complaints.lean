import Mathlib.Data.List.Permutation
import UnitSheet.Proofs.Grammar.Places

set_option autoImplicit false

namespace UnitSheet.Grammar

def TracksStatement (stop : Nat) (q : Place) (ts : List Token) :
    Except ParseStop Statement → Prop
  | .ok _ => ∃ q' : Place, q.run ts = some q' ∧ q'.IsLast
  | .error e => ∃ q' : Place, q.Reaches ts q' e.rest ∧ q'.Blames stop e.rest e.error

def plainStatement (target : Option String) :
    Except ParseStop (Expr × List Token) → Except ParseStop Statement
  | .error e => .error e
  | .ok (e, []) => .ok ⟨target, e⟩
  | .ok (_, t :: rest) => .error ⟨.unexpected t, t :: rest⟩

theorem readStatement_cons (formula : (ts : List Token) → Reading ts Expr) (t : Token)
    (ts : List Token) :
    readStatement formula (t :: ts) =
      plainStatement (takeTarget (t :: ts)).1 (plain (formula (takeTarget (t :: ts)).2)) := by
  rw [readStatement]
  rcases formula (takeTarget (t :: ts)).2 with e | ⟨e, _ | ⟨u, us⟩, h⟩ <;> rfl

section
variable {q : Place} {t : Token} {ts used rest : List Token} {stop : Nat}

theorem TracksStatement.head {q' : Place} {r : Except ParseStop Statement}
    (h : q.step t.kind = some q') (hr : TracksStatement stop q' ts r) :
    TracksStatement stop q (t :: ts) r := by
  rcases r with e | s
  · obtain ⟨q'', hreach, hblames⟩ := hr
    exact ⟨q'', .head h hreach, hblames⟩
  · obtain ⟨q'', hrun, hlast⟩ := hr
    exact ⟨q'', by rw [Place.run_step h, hrun], hlast⟩

theorem tracks_plainStatement {r : Except ParseStop (Expr × List Token)} (target : Option String)
    (h : Tracks .sum 0 stop q ts r) : TracksStatement stop q ts (plainStatement target r) := by
  rcases r with e | ⟨e, _ | ⟨t, rest⟩⟩
  · exact h
  · obtain ⟨q', ⟨used, rfl, hrun⟩, hq, -⟩ := h
    exact ⟨q', by rwa [List.append_nil], hq.isLast⟩
  · obtain ⟨q', hreach, hq, hends⟩ := h
    exact ⟨q', hreach, hq.step_eq_none (hends t rfl) fun _ => rfl, rfl⟩

namespace Place

theorem run_start_cons (h : t.kind ≠ .identifier) (ts : List Token) :
    start.run (t :: ts) = (operand 0).run (t :: ts) := by
  have hstep : start.step t.kind = (operand 0).step t.kind := by
    cases hk : t.kind with
    | identifier => exact (h hk).elim
    | _ => rfl
  rw [run, hstep]
  rfl

theorem run_named_cons (h : t.kind ≠ .equal) (ts : List Token) :
    named.run (t :: ts) = (operator 0).run (t :: ts) := by
  have hstep : named.step t.kind = (operator 0).step t.kind := by
    cases hk : t.kind with
    | equal => exact (h hk).elim
    | _ => rfl
  rw [run, hstep]
  rfl

/-- Without a target the tokens of a statement lead to the same places as those of its formula. Only
at the start and behind a name in front does the statement differ, and it is stuck there too. -/
theorem run_start
    (hno : ¬ ∃ name equal more, used ++ rest = name :: equal :: more ∧ name.kind = .identifier ∧
      equal.kind = .equal) (hrun : (operand 0).run used = some q) :
    ∃ q', start.run used = some q' ∧ (q'.IsLast ↔ q.IsLast) ∧
      ∀ t ∈ rest.head?, q.step t.kind = none → q'.step t.kind = none := by
  rcases used with _ | ⟨t, used⟩
  · obtain rfl := Option.some.inj hrun
    refine ⟨start, rfl, .rfl, fun t _ ht => ?_⟩
    cases hk : t.kind with
    | identifier => rw [hk] at ht; cases ht
    | _ => rw [hk] at ht; exact ht
  by_cases hname : t.kind = .identifier
  · have hstart : start.step t.kind = some named := by rw [hname]; rfl
    have hoperand : (operand 0).step t.kind = some (operator 0) := by rw [hname]; rfl
    have hequal : ∀ u ∈ (used ++ rest).head?, u.kind ≠ .equal := by
      intro u hu he
      have hmore : used ++ rest = u :: (used ++ rest).tail := List.eq_cons_of_mem_head? hu
      exact hno ⟨t, u, _, by rw [List.cons_append, hmore], hname, he⟩
    rw [run_step hoperand] at hrun
    rw [run_step hstart]
    rcases used with _ | ⟨u, used⟩
    · obtain rfl := Option.some.inj hrun
      refine ⟨named, rfl, .rfl, fun u hu hnone => ?_⟩
      cases hk : u.kind with
      | equal => exact (hequal u hu hk).elim
      | _ => rw [hk] at hnone; exact hnone
    · exact ⟨q, by rw [run_named_cons (hequal u rfl), hrun], .rfl, fun _ _ => id⟩
  · exact ⟨q, by rw [run_start_cons hname, hrun], .rfl, fun _ _ => id⟩

end Place

theorem TracksStatement.start {r : Except ParseStop Statement}
    (hno : ¬ ∃ name equal more, ts = name :: equal :: more ∧ name.kind = .identifier ∧
      equal.kind = .equal) (h : TracksStatement stop (.operand 0) ts r) :
    TracksStatement stop .start ts r := by
  rcases r with ⟨e, rest⟩ | s
  · obtain ⟨q, ⟨used, rfl, hrun⟩, hblames⟩ := h
    obtain ⟨q', hrun', hlast, hstep⟩ := Place.run_start hno hrun
    refine ⟨q', ⟨used, rfl, hrun'⟩, ?_⟩
    cases rest with
    | nil => exact ⟨fun h => hblames.1 (hlast.1 h), hblames.2⟩
    | cons t rest => exact ⟨hstep t rfl hblames.1, hblames.2⟩
  · obtain ⟨q, hrun, hlast⟩ := h
    rw [← List.append_nil ts] at hno
    obtain ⟨q', hrun', hlast', -⟩ := Place.run_start hno hrun
    exact ⟨q', hrun', hlast'.2 hlast⟩

end

theorem tracks_readFormula (ts : List Token) :
    TracksStatement (endPosition ts) .start ts (readFormula ts) := by
  cases ts with
  | nil => exact ⟨.start, .refl _ _, id, rfl⟩
  | cons t ts =>
    rw [readFormula, readStatement_cons]
    have hformula := tracks_readSum 0 (endPosition (t :: ts)) (takeTarget (t :: ts)).2
    have hwhole := tracks_plainStatement (takeTarget (t :: ts)).1 hformula
    rcases takeTarget_cases (t :: ts) with ⟨name, equal, rest, hts, hn, he, htarget⟩ | ⟨hno, htarget⟩
    · rw [htarget] at hwhole ⊢
      generalize endPosition (t :: ts) = stop at hwhole ⊢
      have hnamed : Place.start.step name.kind = some .named := by rw [hn]; rfl
      have hoperand : Place.named.step equal.kind = some (.operand 0) := by rw [he]; rfl
      rw [hts]
      exact .head hnamed (.head hoperand hwhole)
    · rw [htarget] at hwhole ⊢
      exact hwhole.start hno

/-- Tokens that some more tokens complete to a statement. -/
def IsViable (ts : List Token) : Prop := ∃ more s, parse (ts ++ more) = .ok s

namespace Place

/-- The tokens that complete a statement from here: an operand, if one has to follow, and the
parentheses that are still open. -/
def completion : Place → List Token
  | start => [⟨.number 0, "0", 0⟩]
  | named => []
  | operand depth => ⟨.number 0, "0", 0⟩ :: List.replicate depth ⟨.rightParen, ")", 0⟩
  | unit depth | operator depth => List.replicate depth ⟨.rightParen, ")", 0⟩

theorem run_replicate {depth : Nat} {q : Place} (h : q.Closes depth) :
    ∃ q', q.run (List.replicate depth ⟨.rightParen, ")", 0⟩) = some q' ∧ q'.IsLast := by
  induction depth generalizing q with
  | zero => exact ⟨q, rfl, h.isLast⟩
  | succ depth ih =>
    have hstep : q.step .rightParen = some (operator depth) := by rcases h with rfl | rfl <;> rfl
    rw [List.replicate_succ, run_step hstep]
    exact ih (.inr rfl)

theorem completion_shown (q : Place) : ∀ t ∈ q.completion, t.kind.isWhitespace = false := by
  have hparens : ∀ depth, ∀ t ∈ List.replicate depth (⟨.rightParen, ")", 0⟩ : Token),
      t.kind.isWhitespace = false := by
    intro depth t ht
    rw [List.eq_of_mem_replicate ht]
    rfl
  cases q with
  | start => exact List.forall_mem_singleton.2 rfl
  | named => simp [completion]
  | operand depth => exact List.forall_mem_cons.2 ⟨rfl, hparens depth⟩
  | unit depth | operator depth => exact hparens depth

theorem run_completion (q : Place) : ∃ q', q.run q.completion = some q' ∧ q'.IsLast := by
  cases q with
  | start => exact ⟨unit 0, rfl, trivial⟩
  | named => exact ⟨named, rfl, trivial⟩
  | operand depth =>
    have hstep : (operand depth).step (.number 0) = some (unit depth) := rfl
    rw [completion, run_step hstep]
    exact run_replicate (.inl rfl)
  | unit depth => exact run_replicate (.inl rfl)
  | operator depth => exact run_replicate (.inr rfl)

end Place

section
variable {ts : List Token}

/-- The parser accepts exactly what leads to a place where a statement may end. -/
theorem readFormula_isOk_iff :
    (∃ s, readFormula ts = .ok s) ↔ ∃ q : Place, Place.start.run ts = some q ∧ q.IsLast := by
  have htracks := tracks_readFormula ts
  cases hread : readFormula ts with
  | ok s =>
    rw [hread] at htracks
    exact ⟨fun _ => htracks, fun _ => ⟨s, rfl⟩⟩
  | error e =>
    rw [hread] at htracks
    obtain ⟨q, ⟨used, hts, hrun⟩, hblames⟩ := htracks
    refine ⟨by rintro ⟨s, ⟨⟩⟩, fun ⟨q', hrun', hlast⟩ => ?_⟩
    rw [hts, Place.run_append, hrun, Option.bind_some] at hrun'
    cases hrest : e.rest with
    | nil =>
      rw [hrest] at hrun' hblames
      exact absurd (Option.some.inj hrun' ▸ hlast) hblames.1
    | cons t rest =>
      rw [hrest] at hrun' hblames
      rw [Place.run, hblames.1] at hrun'
      cases hrun'

theorem significant_of_shown (h : ∀ t ∈ ts, t.kind.isWhitespace = false) :
    Token.significant ts = ts := by
  refine List.filter_eq_self.2 fun t ht => ?_
  rw [h t ht]
  rfl

theorem parse_isOk_iff {us : List Token} :
    (∃ s, parse us = .ok s) ↔
      ∃ q : Place, Place.start.run (Token.significant us) = some q ∧ q.IsLast := by
  rw [← readFormula_isOk_iff, parse]
  cases readFormula (Token.significant us) with
  | error e => exact ⟨by rintro ⟨s, ⟨⟩⟩, by rintro ⟨s, ⟨⟩⟩⟩
  | ok s => exact ⟨fun _ => ⟨s, rfl⟩, fun _ => ⟨s, rfl⟩⟩

theorem isViable_iff (hshown : ∀ t ∈ ts, t.kind.isWhitespace = false) :
    IsViable ts ↔ ∃ q, Place.start.run ts = some q := by
  have hsplit : ∀ more, Token.significant (ts ++ more) = ts ++ Token.significant more := by
    intro more
    rw [Token.significant, List.filter_append]
    exact congrArg (· ++ Token.significant more) (significant_of_shown hshown)
  constructor
  · rintro ⟨more, s, hs⟩
    obtain ⟨q, hrun, -⟩ := parse_isOk_iff.1 ⟨s, hs⟩
    rw [hsplit, Place.run_append] at hrun
    obtain ⟨q', hq', -⟩ := Option.bind_eq_some_iff.1 hrun
    exact ⟨q', hq'⟩
  · rintro ⟨q, hq⟩
    obtain ⟨q', hrun, hlast⟩ := q.run_completion
    obtain ⟨s, hs⟩ : ∃ s, parse (ts ++ q.completion) = .ok s := by
      refine parse_isOk_iff.2 ⟨q', ?_, hlast⟩
      rw [hsplit, significant_of_shown q.completion_shown, Place.run_append, hq]
      exact hrun
    exact ⟨q.completion, s, hs⟩

/-- The parser complains about the first token that no statement goes on with: it stands behind the
longest start of the tokens that more tokens complete to a statement. Where all of the tokens are
such a start, the complaint is about their end. -/
theorem position_of_parse_error (hshown : ∀ t ∈ ts, t.kind.isWhitespace = false) {e : ParseError}
    (h : parse ts = .error e) :
    ∃ i ≤ ts.length, IsViable (ts.take i) ∧
      (∀ j, i < j → j ≤ ts.length → ¬ IsViable (ts.take j)) ∧
      (∀ t, ts[i]? = some t → e.position = t.position) ∧
      (i = ts.length → ∀ last, ts.getLast? = some last → e.position = last.stop) := by
  have htracks := tracks_readFormula ts
  rw [parse, significant_of_shown hshown] at h
  have htake : ∀ j, ∀ t ∈ ts.take j, t.kind.isWhitespace = false :=
    fun j t ht => hshown t (List.mem_of_mem_take ht)
  cases hread : readFormula ts with
  | ok s =>
    rw [hread] at h
    cases h
  | error stopped =>
    rw [hread] at h htracks
    obtain rfl : stopped.error = e := Except.error.inj h
    obtain ⟨q, ⟨used, hts, hrun⟩, hblames⟩ := htracks
    cases hrest : stopped.rest with
    | nil =>
      rw [hrest] at hts hblames
      rw [List.append_nil] at hts
      subst hts
      refine ⟨ts.length, Nat.le_refl _, ?_, fun j hij hj => absurd hij (by omega), fun t ht => ?_,
        fun _ last hlast => ?_⟩
      · rw [isViable_iff (htake _), List.take_length]
        exact ⟨q, hrun⟩
      · rw [List.getElem?_length] at ht
        cases ht
      · rw [hblames.2, endPosition, hlast]
    | cons t rest =>
      rw [hrest] at hts hblames
      subst hts
      refine ⟨used.length, by simp, ?_, fun j hij _ => ?_, fun u hu => ?_, fun hlength => ?_⟩
      · rw [isViable_iff (htake _), List.take_left]
        exact ⟨q, hrun⟩
      · obtain ⟨k, rfl⟩ := Nat.exists_eq_add_of_lt hij
        rw [isViable_iff (htake _), Nat.add_assoc, List.take_length_add_append, List.take_succ_cons,
          Place.run_append, hrun, Option.bind_some, Place.run, hblames.1]
        rintro ⟨q', ⟨⟩⟩
      · rw [List.getElem?_append_right (Nat.le_refl _), Nat.sub_self] at hu
        obtain rfl := Option.some.inj hu
        exact hblames.2
      · simp at hlength

def strayFactor : List Token :=
  [⟨.identifier, "a", 0⟩, ⟨.equal, "=", 2⟩, ⟨.leftParen, "(", 4⟩, ⟨.number 2, "2", 5⟩,
    ⟨.plus, "+", 7⟩, ⟨.star, "*", 9⟩, ⟨.number 3, "3", 11⟩]

/-- The complaint is about the star, although the parenthesis is not closed either. -/
theorem position_of_parse_error_strayFactor :
    (∀ t ∈ strayFactor, t.kind.isWhitespace = false) ∧
    parse strayFactor = .error (.unexpected ⟨.star, "*", 9⟩) ∧
    ∃ i ≤ strayFactor.length, IsViable (strayFactor.take i) ∧
      (∀ j, i < j → j ≤ strayFactor.length → ¬ IsViable (strayFactor.take j)) ∧
      (∀ t, strayFactor[i]? = some t → (9 : Nat) = t.position) ∧
      (i = strayFactor.length → ∀ last, strayFactor.getLast? = some last → (9 : Nat) = last.stop) := by
  have hshown : ∀ t ∈ strayFactor, t.kind.isWhitespace = false := by
    simp [strayFactor, TokenKind.isWhitespace]
  have herror : parse strayFactor = .error (.unexpected ⟨.star, "*", 9⟩) := by cbv
  exact ⟨hshown, herror, position_of_parse_error hshown herror⟩

end

end UnitSheet.Grammar
