namespace Lineage

/-- The characters of some runs `(first, last)` of code points, in ascending order. -/
abbrev Runs := List (Nat × Nat)

namespace Runs

def contains (runs : Runs) (char : Char) : Bool :=
  runs.any fun (first, last) => first ≤ char.toNat && char.toNat ≤ last

end Runs

end Lineage
