set_option autoImplicit false

namespace UnitSheet

def inRanges (table : List (Nat × Nat)) (n : Nat) : Bool :=
  table.any fun (first, last) => first ≤ n && n ≤ last

end UnitSheet
