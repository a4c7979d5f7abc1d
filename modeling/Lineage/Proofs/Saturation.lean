import Lineage.Proofs.Exhaustion

namespace Lineage

/-- No two unmatched nodes share namespace and name if they are both roots, or if the result matches
their parents to each other. -/
def Saturated (trees : TreePair) (found : List Relationship) : Prop :=
  ∀ b a before after, trees.before.node? b = some before → trees.after.node? a = some after →
    (∀ a', ¬Relationship.Matched found b a') → (∀ b', ¬Relationship.Matched found b' a) →
      (before.parent = none ∧ after.parent = none) ∨
          ParentsMatched (Relationship.Matched found) before after →
        (before.scope, before.name) ≠ (after.scope, after.name)

namespace TreePair

open Matching (Grows Splits)

variable {trees : TreePair} {matching : Matching} {befores afters : List NodeId}

/-- No two equally named children of a confirmed pair are free together. -/
def ChildrenTaken (trees : TreePair) (matching : Matching) : Prop :=
  ∀ pair ∈ matching.pairs, ∀ child ∈ trees.namedChildren pair.1 pair.2,
    matching.isFree child.1 child.2 = false

theorem childrenTaken_start (trees : TreePair) :
    trees.ChildrenTaken (.start trees.before trees.after) := by
  simp [ChildrenTaken, Matching.start]

theorem ChildrenTaken.cascade (h : trees.ChildrenTaken matching)
    (hsplits : Splits befores afters matching) (agenda : List (NodeId × NodeId)) :
    trees.ChildrenTaken (trees.cascade matching agenda) := by
  apply saturated_cascade hsplits
  intro pair hpair child hchild
  exact Or.inl (h pair hpair child hchild)

theorem ChildrenTaken.scan (h : trees.ChildrenTaken matching)
    (hsplits : Splits befores afters matching) (accept : Matching → NodeId → NodeId → Bool) :
    trees.ChildrenTaken (trees.scan accept matching) := by
  refine (scan_induction (motive := fun current =>
    Splits befores afters current ∧ trees.ChildrenTaken current) ⟨hsplits, h⟩ ?_).2
  rintro current b a ⟨hcurrent, htaken⟩ - -
  exact ⟨hcurrent.grows (trees.grows_cascade current _), htaken.cascade hcurrent _⟩

section Result

variable (hbefore : trees.before.Built) (hafter : trees.after.Built) (evidence : Evidence)

include hbefore hafter

theorem childrenTaken_matching : trees.ChildrenTaken (trees.matching evidence) := by
  have hnamed := splits_matchByName hbefore.coherent hafter.coherent
  have hsimilar := splits_similarityMatching hbefore.coherent hafter.coherent evidence
  have htaken : trees.ChildrenTaken (trees.matchByName (.start trees.before trees.after)) :=
    trees.childrenTaken_start.cascade (Splits.start hbefore.coherent hafter.coherent) _
  exact (htaken.scan hnamed _).scan hsimilar _

theorem not_isFree_roots {b a : NodeId}
    (h : (b, a) ∈ trees.sameNamed trees.before.roots trees.after.roots) :
    (trees.matching evidence).isFree b a = false := by
  have hfirst : (trees.matchByName (.start trees.before trees.after)).isFree b a = false :=
    not_isFree_cascade (Splits.start hbefore.coherent hafter.coherent) h
  rw [Bool.eq_false_iff] at hfirst ⊢
  exact fun hfree => hfirst ((trees.grows_matchByName evidence).isFree_of_isFree hfree)

theorem not_isFree_of_place {b a : NodeId} {before after : Node}
    (hb : trees.before.node? b = some before) (ha : trees.after.node? a = some after)
    (hname : trees.sameName b a = true)
    (hplace : (before.parent = none ∧ after.parent = none) ∨
      ParentsMatched (fun p q => (p, q) ∈ (trees.matching evidence).pairs) before after) :
    b ∈ trees.before.levelOrder ∧ a ∈ trees.after.levelOrder ∧
      (trees.matching evidence).isFree b a = false := by
  have h := splits_matching hbefore.coherent hafter.coherent evidence
  have hparent : trees.before.parent? b = before.parent := by simp [CodeTree.parent?, hb]
  have hparent' : trees.after.parent? a = after.parent := by simp [CodeTree.parent?, ha]
  rcases hplace with ⟨hroot, hroot'⟩ | ⟨p, q, hp, hq, hpair⟩
  · have hmem := (hbefore.coherent.mem_roots_iff_parent hb).mpr hroot
    have hmem' := (hafter.coherent.mem_roots_iff_parent ha).mpr hroot'
    refine ⟨hbefore.mem_levelOrder_of_root hmem, hafter.mem_levelOrder_of_root hmem', ?_⟩
    exact not_isFree_roots hbefore hafter evidence (mem_sameNamed_iff.mpr ⟨hmem, hmem', hname⟩)
  · rw [← hparent] at hp
    rw [← hparent'] at hq
    refine ⟨hbefore.mem_levelOrder_of_parent hp (h.fst_mem hpair),
      hafter.mem_levelOrder_of_parent hq (h.snd_mem hpair), ?_⟩
    refine childrenTaken_matching hbefore hafter evidence (p, q) hpair (b, a)
      (mem_sameNamed_iff.mpr ⟨?_, ?_, hname⟩)
    · exact (hbefore.coherent.mem_children_iff p b).mpr hp
    · exact (hafter.coherent.mem_children_iff q a).mpr hq

theorem saturated_changes : Saturated trees (trees.changes evidence) := by
  intro b a before after hb ha hfreeBefore hfreeAfter hplace heq
  have h := splits_matching hbefore.coherent hafter.coherent evidence
  have hname : trees.sameName b a = true := by
    rw [Prod.mk.injEq] at heq
    simp [sameName, holds, hb, ha, heq]
  have hpaired := hplace.imp_right (ParentsMatched.mono fun _ _ => (matched_changes_iff h).mp)
  obtain ⟨hmem, hmem', htaken⟩ :=
    not_isFree_of_place hbefore hafter evidence hb ha hname hpaired
  rw [Bool.eq_false_iff, Ne, Matching.isFree_iff] at htaken
  exact htaken
    ⟨mem_freeBefore_of_unmatched hbefore.coherent hafter.coherent hmem hfreeBefore,
      mem_freeAfter_of_unmatched hbefore.coherent hafter.coherent hmem' hfreeAfter⟩

end Result

end TreePair

/-- Siblings are saturated: the finder leaves no two namesakes unmatched that are both roots or
whose parents it matches to each other. -/
theorem siblings_are_saturated (before after : Snapshot) (hbefore : before.tree.Built)
    (hafter : after.tree.Built) :
    EveryFinding before after fun _ found => Saturated ⟨before.tree, after.tree⟩ found :=
  everyFinding_of_changes fun evidence =>
    @TreePair.saturated_changes ⟨before.tree, after.tree⟩ hbefore hafter evidence

theorem loader_is_saturated :
    (loader "load").tree.Built ∧ (loader "read").tree.Built ∧
      ∃ found, findRelationships {} (loader "load") (loader "read") = .ok found ∧
        Saturated ⟨(loader "load").tree, (loader "read").tree⟩ found := by
  obtain ⟨scorer, hscorer⟩ : ∃ scorer : Scorer Float,
      Scorer.ofSnapshots (loader "load") (loader "read") = .ok scorer := ⟨_, rfl⟩
  have h := siblings_are_saturated (loader "load") (loader "read") (grown_loader _).built
    (grown_loader _).built
  exact ⟨(grown_loader _).built, (grown_loader _).built, h.2 {} scorer (by decide) hscorer⟩

end Lineage
