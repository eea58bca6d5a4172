set_option autoImplicit false

namespace UnitSheet

variable {α : Type}

/-- The list in the order of `lt`; an element stays behind an earlier one unless it is less. -/
def arrange (lt : α → α → Bool) (xs : List α) : List α := xs.mergeSort fun a b => !lt b a

theorem arrange_perm (lt : α → α → Bool) (xs : List α) : (arrange lt xs).Perm xs :=
  List.mergeSort_perm xs _

/-- No element of the arranged list is less than one in front of it, if what is not less is a total
preorder. -/
theorem pairwise_arrange {lt : α → α → Bool}
    (trans : ∀ a b c, lt b a = false → lt c b = false → lt c a = false)
    (total : ∀ a b, lt a b = true → lt b a = false) (xs : List α) :
    (arrange lt xs).Pairwise fun a b => lt b a = false := by
  have h : (arrange lt xs).Pairwise fun a b => (!lt b a) = true := List.pairwise_mergeSort
    (fun a b c hab hbc => by
      simp only [Bool.not_eq_true'] at hab hbc ⊢
      exact trans a b c hab hbc)
    (fun a b => by
      cases h : lt a b
      · simp
      · simp [total a b h]) xs
  exact h.imp fun h => by simpa using h

end UnitSheet
