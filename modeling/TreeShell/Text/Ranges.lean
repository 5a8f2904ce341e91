import TreeShell.Text

/-! Sets of characters given by ranges of code points. -/
namespace TreeShell.Text

abbrev Ranges := List (Nat × Nat)

def Ranges.covers (ranges : Ranges) (c : CodePoint) : Bool :=
  ranges.any fun (first, last) => first ≤ c.toNat && c.toNat ≤ last

end TreeShell.Text
