import Lineage.Similarity.Profile
import Lineage.Similarity.Ratio

/-!
How alike the declarations of two snapshots are. A token weighs the more the fewer declarations it
occurs in; the counts are taken in each snapshot and the larger one is used.
-/

namespace Lineage

/-- Which snapshot a node belongs to. -/
inductive Side where
  | before
  | after
  deriving Repr, DecidableEq

/-- The profiles of two snapshots and the weights of their tokens and name segments. -/
structure Scorer (α : Type) where
  before : SnapshotProfile
  after : SnapshotProfile
  tokenWeights : Weights α
  nameWeights : Weights α

namespace Scorer

variable {α : Type} [Weighing α]

/-- Profiles both snapshots, the older one first. -/
def ofSnapshots (before after : Snapshot) : Except Error (Scorer α) := do
  let beforeProfile ← SnapshotProfile.ofSnapshot before
  let afterProfile ← SnapshotProfile.ofSnapshot after
  let documents := max before.tree.size after.tree.size
  return {
    before := beforeProfile
    after := afterProfile
    tokenWeights := .ofFrequency documents
      (beforeProfile.tokenFrequency.union afterProfile.tokenFrequency)
    nameWeights := .ofFrequency documents
      (beforeProfile.nameFrequency.union afterProfile.nameFrequency) }

def profile (scorer : Scorer α) : Side → NodeId → Profile
  | .before, id => scorer.before.find id
  | .after, id => scorer.after.find id

/-- How alike two declarations are in all their tokens. -/
def similarity (scorer : Scorer α) (left right : Profile) : Ratio α :=
  scorer.tokenWeights.overlap left.tokens right.tokens

/-- How alike the bodies of two declarations are. -/
def bodySimilarity (scorer : Scorer α) (left right : Profile) : Ratio α :=
  scorer.tokenWeights.overlap left.bodyTokens right.bodyTokens

/-- How alike the names of two declarations are. -/
def nameSimilarity (scorer : Scorer α) (left right : Profile) : Ratio α :=
  scorer.nameWeights.overlap left.name right.name

/-- Tokens that say nothing about extracted code: `return` and the parameters of both versions. -/
def stopTokens (before after : Profile) : List String :=
  "return" :: before.params ++ after.params

/-- How much of the body of `extracted` is made of what `before` lost on the way to `after`. -/
def extraction (scorer : Scorer α) (before after extracted : Profile) : Ratio α :=
  let stop := stopTokens before after
  scorer.tokenWeights.containment (extracted.bodyTokens.withoutKeys stop)
    ((before.bodyTokens.difference after.bodyTokens).withoutKeys stop)

/-- How much of the body of `inlined` is made of what `after` gained over `before`. -/
def inlining (scorer : Scorer α) (before after inlined : Profile) : Ratio α :=
  scorer.tokenWeights.containment inlined.bodyTokens
    (after.bodyTokens.difference before.bodyTokens)

end Scorer

end Lineage
