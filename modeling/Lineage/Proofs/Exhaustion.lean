import Lineage.Proofs.Justification

/-!
What the greedy passes leave behind. A pass comes to each node once and judges it by the pairs of
that moment. Two nodes that are free together at the end were free together then, so they were not
acceptable; and a pair that similarity or shared children make acceptable stays so.
-/

namespace Lineage.TreePair

open Matching (Grows Splits)

/-- What a pass does when it comes to the node `b`. -/
def scanAt (trees : TreePair) (accept : Matching → NodeId → NodeId → Bool) (matching : Matching)
    (b : NodeId) : Matching :=
  if b ∈ matching.freeBefore then
    match matching.freeAfter.find? (accept matching b) with
    | some a => trees.cascade matching [(b, a)]
    | none => matching
  else matching

section Pass

variable {trees : TreePair} {accept : Matching → NodeId → NodeId → Bool} {matching : Matching}
  {befores afters : List NodeId} {b a : NodeId}

theorem scan_eq_foldl (trees : TreePair) (accept : Matching → NodeId → NodeId → Bool)
    (matching : Matching) :
    trees.scan accept matching = matching.freeBefore.foldl (trees.scanAt accept) matching :=
  rfl

theorem scanAt_eq_self (hfind : matching.freeAfter.find? (accept matching b) = none) :
    trees.scanAt accept matching b = matching := by
  rw [scanAt, hfind, ite_self]

theorem scanAt_eq_confirm (hb : b ∈ matching.freeBefore)
    (hfind : matching.freeAfter.find? (accept matching b) = some a)
    (hchildren : ∀ child ∈ trees.namedChildren b a,
      (matching.confirm b a).isFree child.1 child.2 = false) :
    trees.scanAt accept matching b = matching.confirm b a := by
  have hfree := Matching.isFree_iff.mpr ⟨hb, List.mem_of_find?_eq_some hfind⟩
  rw [scanAt, if_pos hb, hfind]
  exact cascade_eq_confirm hfree hchildren

end Pass

/-- The pairs of the first two passes. -/
def similarityMatching (trees : TreePair) (evidence : Evidence) : Matching :=
  trees.matchBySimilarity evidence (trees.matchByName (.start trees.before trees.after))

section Passes

variable {trees : TreePair} {evidence : Evidence} {b a : NodeId}

theorem splits_similarityMatching (hbefore : trees.before.Coherent)
    (hafter : trees.after.Coherent) (evidence : Evidence) :
    Splits trees.before.levelOrder trees.after.levelOrder (trees.similarityMatching evidence) :=
  (splits_matchByName hbefore hafter).grows (trees.grows_scan _ _)

theorem mem_freeBefore_of_unmatched (hbefore : trees.before.Coherent)
    (hafter : trees.after.Coherent) (hb : b ∈ trees.before.levelOrder)
    (hfree : ∀ a', ¬Relationship.Matched (trees.changes evidence) b a') :
    b ∈ (trees.matching evidence).freeBefore := by
  have h := splits_matching hbefore hafter evidence
  exact h.mem_freeBefore_iff.mpr ⟨hb, (mem_map_fst_iff_matched h).not.mpr (not_exists.mpr hfree)⟩

theorem mem_freeAfter_of_unmatched (hbefore : trees.before.Coherent)
    (hafter : trees.after.Coherent) (ha : a ∈ trees.after.levelOrder)
    (hfree : ∀ b', ¬Relationship.Matched (trees.changes evidence) b' a) :
    a ∈ (trees.matching evidence).freeAfter := by
  have h := splits_matching hbefore hafter evidence
  exact h.mem_freeAfter_iff.mpr ⟨ha, (mem_map_snd_iff_matched h).not.mpr (not_exists.mpr hfree)⟩

end Passes

end Lineage.TreePair

namespace Lineage

end Lineage
