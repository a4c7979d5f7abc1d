import Lineage.Matching
import Lineage.Similarity

/-!
The relationships between two snapshots: the matched pairs with their kinds, then what was
extracted, what was extracted and moved, what was inlined, what is gone, and what is new.
-/

namespace Lineage

namespace TreePair

/-- The matched pairs in the order of confirmation, each with its kind. -/
def typedPairs (trees : TreePair) (evidence : Evidence) (matching : Matching) : List Relationship :=
  matching.pairs.map fun (b, a) => .pair b a (trees.classify evidence matching b a)

/-- Whether `caller` calls `callee` in a tree. -/
def calls (tree : CodeTree) (caller callee : NodeId) : Bool :=
  (tree.node? caller).any (callee ∈ ·.calls)

/-- Whether the new node `new` was extracted from the matched pair: the pair calls it, its code left
the pair, and it stays with the parent of the pair or `moved` away from it. -/
def isExtracted (trees : TreePair) (evidence : Evidence) (matching : Matching) (moved : Bool)
    (pair : NodeId × NodeId) (new : NodeId) : Bool :=
  calls trees.after pair.2 new && trees.sameParent matching pair.1 new != moved
    && evidence.extracted pair.1 pair.2 new

/-- Distributes nodes over the pairs that they were extracted from; the first such pair takes a
node. The nodes that are left come second. -/
def distribute (test : NodeId × NodeId → NodeId → Bool) (kind : RelationKind) :
    (pairs : List (NodeId × NodeId)) → (nodes : List NodeId) → List Relationship × List NodeId
  | [], nodes => ([], nodes)
  | pair :: pairs, nodes =>
    let (relationships, left) := distribute test kind pairs (nodes.filter (!test pair ·))
    ((nodes.filter (test pair)).map (.pair pair.1 · kind) ++ relationships, left)

/-- The node after that took over the code of the vanished node `old`: the first one whose
counterpart called it and that gained its code. -/
def inlinedInto? (trees : TreePair) (evidence : Evidence) (matching : Matching) (old : NodeId) :
    Option NodeId :=
  (matching.pairs.find? fun (b, a) =>
    calls trees.before b old && evidence.inlined b a old).map Prod.snd

/-- All relationships between two trees. -/
def changes (trees : TreePair) (evidence : Evidence) : List Relationship :=
  let matching := trees.matching evidence
  let extracts := trees.isExtracted evidence matching
  let (extracted, rest) :=
    distribute (extracts false) .extract matching.pairs matching.freeAfter
  let (moved, new) :=
    distribute (extracts true) .extractAndMove matching.pairs rest
  let inlined := matching.freeBefore.filterMap fun old =>
    (trees.inlinedInto? evidence matching old).map fun after => .pair old after .inline
  let gone := matching.freeBefore.filter fun old =>
    (trees.inlinedInto? evidence matching old).isNone
  trees.typedPairs evidence matching ++ extracted ++ moved ++ inlined ++ gone.map .removed
    ++ new.map .added

end TreePair

/-- The verdicts of a scorer: a score counts if it exceeds the threshold. -/
def Evidence.ofScorer {α : Type} [Weighing α] (scorer : Scorer α) (threshold : α) : Evidence where
  similar b a :=
    (scorer.similarity (scorer.profile .before b) (scorer.profile .after a)).exceeds threshold
  nameSimilar b a :=
    (scorer.nameSimilarity (scorer.profile .before b) (scorer.profile .after a)).exceeds threshold
  extracted b a new :=
    (scorer.extraction (scorer.profile .before b) (scorer.profile .after a)
      (scorer.profile .after new)).exceeds threshold
  inlined b a old :=
    (scorer.inlining (scorer.profile .before b) (scorer.profile .after a)
      (scorer.profile .before old)).exceeds threshold

/-- All relationships between two snapshots, if both can be scored. -/
def relationships {α : Type} [Weighing α] (threshold : α) (before after : Snapshot) :
    Except Error (List Relationship) :=
  (Scorer.ofSnapshots before after).map fun scorer =>
    TreePair.changes ⟨before.tree, after.tree⟩ (.ofScorer scorer threshold)

end Lineage
