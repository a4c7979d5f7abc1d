import Lineage.Bag

/-!
Weighted overlap of bags. A score is a ratio of two sums of weights; it is kept as a pair, so that
the ratio of two empty sums stays undefined whatever the arithmetic. The arithmetic is a parameter.
-/

namespace Lineage

/-- The arithmetic of weights. -/
class Weighing (α : Type) where
  zero : α
  add : α → α → α
  /-- A weight taken `count` times. -/
  times : (count : Nat) → α → α
  /-- The weight of a token that occurs in `count` of `documents` documents: the natural logarithm
  of `1 + documents / count`. -/
  rarity : (documents count : Nat) → α
  /-- Whether `part / whole` is defined and greater than `threshold`. -/
  exceeds : (part whole threshold : α) → Bool

/-- Weights in double precision; `0 / 0` is no number and exceeds nothing. -/
instance : Weighing Float where
  zero := 0
  add := (· + ·)
  times count weight := count.toFloat * weight
  rarity documents count := (1 + documents.toFloat / count.toFloat).log
  exceeds part whole threshold := threshold < part / whole

/-- A score as the weight of a part and the weight of the whole. -/
structure Ratio (α : Type) where
  part : α
  whole : α
  deriving Repr

namespace Ratio

def exceeds {α : Type} [Weighing α] (ratio : Ratio α) (threshold : α) : Bool :=
  Weighing.exceeds ratio.part ratio.whole threshold

def toFloat (ratio : Ratio Float) : Float :=
  ratio.part / ratio.whole

end Ratio

/-- Weights of tokens. -/
abbrev Weights (α : Type) := List (String × α)

namespace Weights

variable {α : Type} [Weighing α]

/-- The weights of all keys of `frequency`, which counts the documents that hold a key. -/
def ofFrequency (documents : Nat) (frequency : Bag String) : Weights α :=
  frequency.entries.map fun (token, count) => (token, Weighing.rarity documents count)

/-- The weight of a token; one that was never counted has none. -/
def of (weights : Weights α) (token : String) : α :=
  (weights.lookup token).getD Weighing.zero

/-- The sum of the weights of `tokens`, each taken as often as `count` says. -/
def sum (weights : Weights α) (tokens : List String) (count : String → Nat) : α :=
  tokens.foldl (fun acc token => Weighing.add acc (Weighing.times (count token) (weights.of token)))
    Weighing.zero

/-- The keys of both bags: those of `left`, then those that only `right` has. -/
def jointKeys (left right : Bag String) : List String :=
  left.keys ++ right.keys.filter (left.count · == 0)

/-- What two bags share, as a part of what they hold together. -/
def overlap (weights : Weights α) (left right : Bag String) : Ratio α where
  part := weights.sum (jointKeys left right) fun token =>
    min (left.count token) (right.count token)
  whole := weights.sum (jointKeys left right) fun token =>
    max (left.count token) (right.count token)

/-- What `inner` shares with `outer`, as a part of `inner`. -/
def containment (weights : Weights α) (inner outer : Bag String) : Ratio α where
  part := weights.sum inner.keys fun token => min (inner.count token) (outer.count token)
  whole := weights.sum inner.keys inner.count

end Weights

end Lineage
