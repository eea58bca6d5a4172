import UnitSheet.Proofs.Line.Normal

set_option autoImplicit false

namespace UnitSheet

namespace Token

def gapped (gap : Nat → String) : List Token → String
  | [] => ""
  | t :: ts => gap 0 ++ (t.text ++ gapped (fun i => gap (i + 1)) ts)

def spaced (gap : Nat → String) : List Token → String
  | [] => ""
  | t :: ts => t.text ++ gapped gap ts

end Token

structure IsGap (s : String) : Prop where
  ne_empty : s ≠ ""
  blank : ∀ c ∈ s.toList, isBlank c = true

section
variable {ps : List Piece} {gap : Nat → String} {text : String}

theorem head?_gapped (hgap : ∀ i, IsGap (gap i)) (ts : List Token) :
    ∀ c ∈ (Token.gapped gap ts).toList.head?, isBlank c = true := by
  intro c hc
  cases ts with
  | nil => cases hc
  | cons t ts =>
    have hne : (gap 0).toList ≠ [] := fun h => (hgap 0).ne_empty (String.toList_eq_nil_iff.1 h)
    rw [Token.gapped, String.toList_append, List.head?_append_of_ne_nil _ hne] at hc
    exact (hgap 0).blank c (List.mem_of_mem_head? hc)

theorem respaced_gapped (hclean : ∀ p ∈ ps, p.IsClean) (start : Nat) (hgap : ∀ i, IsGap (gap i)) :
    Respaced ps (Token.gapped gap (shownTokens start ps)).toList := by
  induction ps generalizing start gap with
  | nil => exact .nil
  | cons p ps ih =>
    obtain ⟨hp, hps⟩ := List.forall_mem_cons.1 hclean
    cases hp with
    | @blanks chars _ hblank =>
      rw [shownTokens_blank]
      exact .gap hblank (head?_gapped hgap _) (ih hps _ hgap)
    | @token kind chars hwrites =>
      rw [shownTokens_token hwrites.shown, Token.gapped, String.toList_append, String.toList_append,
        String.toList_ofList]
      have hrest := ih hps (start + chars.length) fun i => hgap (i + 1)
      exact (Respaced.token hwrites.shown hwrites.isTokenText hrest).blanks (hgap 0).blank

theorem exists_gapped (hgap : ∀ i, IsGap (gap i)) (ts : List Token) :
    ∃ gap' bs, (∀ i, IsGap (gap' i)) ∧ (∀ b ∈ bs, isBlank b = true) ∧
      (Token.gapped gap' ts).toList = bs ++ (Token.spaced gap ts).toList := by
  cases ts with
  | nil => exact ⟨gap, [], hgap, by simp, rfl⟩
  | cons t ts =>
    -- The first gap is used twice: it makes the blanks at the start.
    refine ⟨fun i => gap (i - 1), (gap 0).toList, fun i => hgap (i - 1), (hgap 0).blank, ?_⟩
    rw [Token.gapped, String.toList_append]
    rfl

theorem shown_pieces_spaced (hclean : ∀ p ∈ pieces none text.toList, p.IsClean)
    (hgap : ∀ i, IsGap (gap i)) :
    (pieces none (Token.spaced gap (Token.significant (lex text).tokens)).toList).filter
        Piece.isShown = (pieces none text.toList).filter Piece.isShown := by
  rw [significant_lex]
  obtain ⟨gap', bs, hgap', hbs, heq⟩ := exists_gapped hgap (shownTokens 0 (pieces none text.toList))
  rw [← shown_pieces_of_respaced none text.toList (respaced_gapped hclean 0 hgap'), heq,
    shown_pieces_append hbs]

/-- The tokens of a text without stray characters do not hang together: joined with any blanks
between them, they are cut into the same tokens, and no stray character comes up. -/
theorem lex_spaced (h : (lex text).strays = []) (hgap : ∀ i, IsGap (gap i)) :
    (lex (Token.spaced gap (Token.significant (lex text).tokens))).strays = [] ∧
      (Token.significant
          (lex (Token.spaced gap (Token.significant (lex text).tokens))).tokens).map Token.content =
        (Token.significant (lex text).tokens).map Token.content := by
  have hclean := stray_not_mem_of_lex h
  have hpieces := shown_pieces_spaced (isClean_pieces hclean) hgap
  refine ⟨strays_lex fun c hc => ?_, ?_⟩
  · have hshown := List.mem_filter.2 ⟨hc, (rfl : (Piece.stray c).isShown = true)⟩
    rw [hpieces] at hshown
    exact hclean c (List.mem_of_mem_filter hshown)
  · rw [content_significant, content_significant, hpieces]

/-- In `2--3ft/A1^2`, a sign, a unit with a separator and a digit that ends it stand close. -/
theorem lex_spaced_closeTokens :
    (lex "2--3ft/A1^2").strays = [] ∧ (∀ _ : Nat, IsGap "\t ") ∧
      (lex (Token.spaced (fun _ => "\t ") (Token.significant (lex "2--3ft/A1^2").tokens))).strays =
        [] ∧
      (Token.significant (lex (Token.spaced (fun _ => "\t ")
          (Token.significant (lex "2--3ft/A1^2").tokens))).tokens).map Token.content =
        (Token.significant (lex "2--3ft/A1^2").tokens).map Token.content := by
  have hstrays : (lex "2--3ft/A1^2").strays = [] := by decide +kernel
  have hblank : ("\t ".toList.all isBlank) = true := by decide +kernel
  have hgap : ∀ _ : Nat, IsGap "\t " := fun _ => ⟨by decide, List.all_eq_true.1 hblank⟩
  exact ⟨hstrays, hgap, lex_spaced hstrays hgap⟩

end

end UnitSheet
