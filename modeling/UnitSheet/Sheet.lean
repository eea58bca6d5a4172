import UnitSheet.Address

set_option autoImplicit false

namespace UnitSheet

structure Sheet where
  read : Address → Except String String
  occupied : List Address
  covers : ∀ a text, read a = .ok text → text ≠ "" → a ∈ occupied

/-- What turns a cell label into an address; it may also find none, or fail for a reason. -/
abbrev AddressReader := String → Except String (Option Address)

namespace AddressReader

def standard : AddressReader := fun label => .ok (Address.ofText? label)

def none : AddressReader := fun _ => .ok Option.none

end AddressReader

namespace Sheet

def empty : Sheet where
  read _ := .ok ""
  occupied := []
  covers _ _ h hne := absurd (Except.ok.inj h).symm hne

def ofCells (cells : List (Address × Except String String)) : Sheet where
  read a := (cells.lookup a).getD (.ok "")
  occupied := cells.map Prod.fst
  covers a text h hne := by
    cases hl : cells.lookup a with
    | none =>
      rw [hl] at h
      exact absurd (Except.ok.inj h).symm hne
    | some answer =>
      clear h hne
      induction cells with
      | nil => simp at hl
      | cons cell rest ih =>
        rw [List.lookup_cons] at hl
        split at hl
        · rename_i ha
          simp [LawfulBEq.eq_of_beq ha]
        · exact List.mem_cons_of_mem _ (ih hl)

end Sheet

end UnitSheet
