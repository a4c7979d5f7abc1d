/-!
Lexical tokens of a file as byte ranges. `TokenIndex.within` finds the tokens of a stretch by
bisection: it is exact when the tokens are in order, which the index does not enforce.
-/

namespace Lineage

/-- A token from `start` to before `stop`. -/
structure Token where
  start : Nat
  stop : Nat
  deriving Repr, DecidableEq, Inhabited

/-- The tokens of one file. -/
structure TokenIndex where
  tokens : Array Token := #[]
  deriving Repr, DecidableEq, Inhabited

/-- Halves the window of `size` positions from `base` on until one is left, keeping the upper part
whenever its first position passes `test`; the answer is the position after the last that passes. -/
def bisect (test : Nat → Bool) (base size : Nat) : Nat :=
  if size ≤ 1 then if test base then base + 1 else base
  else bisect test (if test (base + size / 2) then base + size / 2 else base) (size - size / 2)
termination_by size
decreasing_by omega

namespace TokenIndex

def size (index : TokenIndex) : Nat :=
  index.tokens.size

/-- The position of the first token that starts at `start` or later. -/
def firstFrom (index : TokenIndex) (start : Nat) : Nat :=
  bisect (fun i => (index.tokens[i]?).any (·.start < start)) 0 index.size

/-- The tokens from the first one that starts at `start` or later up to the first one that ends
past `stop`, each with its position. -/
def within (index : TokenIndex) (start stop : Nat) : List (Token × Nat) :=
  (index.tokens.toList.zipIdx.drop (index.firstFrom start)).takeWhile fun (token, _) =>
    token.stop ≤ stop

end TokenIndex

end Lineage
