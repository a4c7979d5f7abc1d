import Lineage.Path

/-!
Where a declaration stands in its file: lines for people, byte offsets for slicing.
-/

namespace Lineage

/-- The number of the line, counted from one, that contains the byte at `offset`. -/
def lineAt (source : ByteArray) (offset : Nat) : Nat :=
  (source.data.toList.take offset).count 10 + 1

/-- The bytes from `start` to before `stop`, if the source has all of them. -/
def slice? (source : ByteArray) (start stop : Nat) : Option ByteArray :=
  if start ≤ stop ∧ stop ≤ source.size then some (source.extract start stop) else none

/-- The extent of a declaration. The body is the part that carries the implementation; it is the
whole extent when there is no separable body. -/
structure Location where
  file : Path
  lineStart : Nat
  lineStop : Nat
  start : Nat
  stop : Nat
  bodyStart : Nat := start
  bodyStop : Nat := stop
  deriving Repr, DecidableEq, Inhabited

namespace Location

def hasBody (location : Location) : Bool :=
  location.bodyStart != location.start

end Location

theorem slice?_isSome_iff (source : ByteArray) (start stop : Nat) :
    (slice? source start stop).isSome ↔ start ≤ stop ∧ stop ≤ source.size := by
  unfold slice?; split <;> simp_all

end Lineage
