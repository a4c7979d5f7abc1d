import Lineage.Proofs.Finding
import Lineage.Proofs.Namesakes

namespace Lineage.TreePair

open Matching (Splits)

abbrev twice (tree : CodeTree) : TreePair :=
  ⟨tree, tree⟩

def diagonal (ids : List NodeId) : List (NodeId × NodeId) :=
  ids.map fun id => (id, id)

theorem map_fst_diagonal (ids : List NodeId) : (diagonal ids).map Prod.fst = ids := by
  simp [diagonal, Function.comp_def]

theorem map_snd_diagonal (ids : List NodeId) : (diagonal ids).map Prod.snd = ids := by
  simp [diagonal, Function.comp_def]

section Rows

variable {tree : CodeTree} {row order : List NodeId}

theorem pairUp_twice (hsize : ∀ id ∈ row, id < tree.size) :
    (twice tree).pairUp row row = diagonal row := by
  rw [pairUp, diagonal, ← List.filterMap_eq_map]
  apply List.filterMap_congr
  intro id hid
  obtain ⟨node, hnode⟩ := CodeTree.exists_node?_of_lt_size (hsize id hid)
  have hkey : tree.key? id = some (node.scope, node.name) := by simp [CodeTree.key?, hnode]
  have hmem : id ∈ tree.under (node.scope, node.name) row :=
    List.mem_filter.mpr ⟨hid, by simpa using hkey⟩
  rw [counterpart?, hkey, Option.bind_some, List.getElem?_idxOf hmem]
  rfl

theorem aligned_twice (horder : tree.PreOrder row order) (hsize : ∀ id ∈ order, id < tree.size) :
    (twice tree).Aligned (diagonal row) (diagonal order) := by
  induction horder with
  | nil => exact .nil
  | @cons id rest below after hbelow _ ihBelow ihAfter =>
      obtain ⟨-, hsize⟩ := List.forall_mem_cons.mp hsize
      obtain ⟨hsizeBelow, hsizeAfter⟩ := List.forall_mem_append.mp hsize
      have hrow : (twice tree).pairUp (tree.children id) (tree.children id) =
          diagonal (tree.children id) :=
        pairUp_twice fun child hchild => hsizeBelow child (hbelow.row_sublist.subset hchild)
      have hdiagonal : diagonal (id :: (below ++ after)) =
          (id, id) :: (diagonal below ++ diagonal after) := by simp [diagonal]
      rw [hdiagonal]
      exact .cons (hrow ▸ ihBelow hsizeBelow) (ihAfter hsizeAfter)

end Rows

section Result

variable {tree : CodeTree} {order : List NodeId}

/-- A matching is settled by its pairs; with all nodes paired with themselves none is free. -/
theorem eq_of_pairs_eq_diagonal {ids : List NodeId} {matching : Matching}
    (hsplits : Splits ids ids matching) (hpairs : matching.pairs = diagonal order)
    (hall : ∀ id ∈ ids, id ∈ order) :
    matching = { pairs := diagonal order, freeBefore := [], freeAfter := [] } := by
  have hnone : ids.filter (· ∉ order) = [] := by
    apply List.filter_eq_nil_iff.mpr
    intro id hid
    simpa using hall id hid
  have hbefore := hsplits.freeBefore_eq
  have hafter := hsplits.freeAfter_eq
  rw [hpairs, map_fst_diagonal, hnone] at hbefore
  rw [hpairs, map_snd_diagonal, hnone] at hafter
  cases matching
  cases hpairs
  cases hbefore
  cases hafter
  rfl

theorem matching_twice (hgrown : tree.Grown) (horder : tree.PreOrder tree.roots order)
    (evidence : Evidence) :
    (twice tree).matching evidence =
      { pairs := diagonal order, freeBefore := [], freeAfter := [] } := by
  have hcoherent := hgrown.built.coherent
  have hperm := hgrown.built.preOrder_perm_levelOrder horder
  have hsize : ∀ id ∈ order, id < tree.size := fun id => (hgrown.mem_preOrder_iff horder).mp
  have hpairs : ((twice tree).matchByName (.start tree tree)).pairs = diagonal order := by
    obtain ⟨haligned, -⟩ := @aligned_matchByName (twice tree) hgrown.built hgrown.built
    rw [pairUp_twice fun root hroot => hsize root (horder.row_sublist.subset hroot)] at haligned
    exact haligned.unique (aligned_twice horder hsize)
  have hnamed := @splits_matchByName (twice tree) hcoherent hcoherent
  have hfirst : (twice tree).matchByName (.start tree tree) =
      { pairs := diagonal order, freeBefore := [], freeAfter := [] } :=
    eq_of_pairs_eq_diagonal hnamed hpairs fun id => hperm.mem_iff.mpr
  rw [matching, hfirst]
  rfl

theorem classify_twice (hgrown : tree.Grown) (horder : tree.PreOrder tree.roots order)
    (evidence : Evidence) {id : NodeId} (hid : id < tree.size) :
    (twice tree).classify evidence ((twice tree).matching evidence) id id = .same := by
  have hcoherent := hgrown.built.coherent
  have hsplits := @splits_matching (twice tree) hcoherent hcoherent evidence
  obtain ⟨node, hnode⟩ := CodeTree.exists_node?_of_lt_size hid
  have hparent : (twice tree).sameParent ((twice tree).matching evidence) id id = true := by
    simp only [sameParent, holds, hnode]
    cases hp : node.parent with
    | none => simp
    | some p =>
        have hlt : p < id := hgrown.parent_lt (by simp [CodeTree.parent?, hnode, hp])
        have hmem : p ∈ order := (hgrown.mem_preOrder_iff horder).mpr (Nat.lt_trans hlt hid)
        have hpair : (p, p) ∈ ((twice tree).matching evidence).pairs := by
          rw [matching_twice hgrown horder]
          exact List.mem_map.mpr ⟨p, hmem, rfl⟩
        simpa using hsplits.partner?_eq_some_iff.mpr hpair
  rw [classify_eq]
  simp [sameKind, sameSignature, holds, hnode, hparent]

theorem changes_twice (hgrown : tree.Grown) (horder : tree.PreOrder tree.roots order)
    (evidence : Evidence) :
    (twice tree).changes evidence = order.map fun id => .pair id id .same := by
  have hcoherent := hgrown.built.coherent
  have hsplits := @splits_matching (twice tree) hcoherent hcoherent evidence
  have hmatching := matching_twice hgrown horder evidence
  have hnew : (twice tree).newNodes ((twice tree).matching evidence) = [] := by
    rw [newNodes, ← hsplits.freeAfter_eq, hmatching]
  have hold : (twice tree).oldNodes ((twice tree).matching evidence) = [] := by
    rw [oldNodes, ← hsplits.freeBefore_eq, hmatching]
  have htyped : (twice tree).typedPairs evidence ((twice tree).matching evidence) =
      order.map fun id => .pair id id .same := by
    have hpairs : ((twice tree).matching evidence).pairs = order.map fun id => (id, id) := by
      rw [hmatching]
      rfl
    rw [typedPairs, hpairs, List.map_map]
    apply List.map_congr_left
    intro id hid
    have hsame := classify_twice hgrown horder evidence ((hgrown.mem_preOrder_iff horder).mp hid)
    exact congrArg (Relationship.pair id id) hsame
  rw [changes_eq_segments hsplits, htyped]
  simp [extractSegment, moveSegment, inlineSegment, removedSegment, addedSegment, hnew, hold]

end Result

end Lineage.TreePair

namespace Lineage

/-- A snapshot compared with itself: each node is the same as itself, in depth-first order, and
nothing else is found, whatever the scores say. -/
theorem self_comparison_is_same_in_pre_order (snapshot : Snapshot)
    (hgrown : snapshot.tree.Grown) :
    ∃ order, snapshot.tree.PreOrder snapshot.tree.roots order ∧ order.Nodup ∧
      (∀ id, id ∈ order ↔ id < snapshot.tree.size) ∧
      EveryFinding snapshot snapshot fun _ found =>
        found = order.map fun id => .pair id id .same := by
  obtain ⟨order, horder⟩ := hgrown.exists_preOrder snapshot.tree.roots
  refine ⟨order, horder, hgrown.nodup_preOrder horder, fun id => hgrown.mem_preOrder_iff horder, ?_⟩
  exact everyFinding_of_changes fun evidence => TreePair.changes_twice hgrown horder evidence

def namesakes : Snapshot where
  tree := namesakeTree
  files := ⟨[(⟨"a.js"⟩, ⟨#[102, 40, 41]⟩)]⟩

theorem grown_namesakes : namesakes.tree.Grown :=
  grown_namesakeTree

theorem preOrder_namesakes :
    namesakes.tree.PreOrder namesakes.tree.roots [0, 2, 5, 6, 3, 1, 4] := by
  have hfunctions : namesakes.tree.PreOrder (namesakes.tree.children 2) [5, 6] :=
    .leaf rfl (.leaf rfl .nil)
  have hclasses : namesakes.tree.PreOrder (namesakes.tree.children 0) [2, 5, 6, 3] :=
    .cons hfunctions (.leaf rfl .nil)
  have hother : namesakes.tree.PreOrder (namesakes.tree.children 1) [4] := .leaf rfl .nil
  exact .cons hclasses (.cons hother .nil)

theorem namesakes_are_themselves :
    namesakes.tree.Grown ∧ findRelationships {} namesakes namesakes =
      .ok ([0, 2, 5, 6, 3, 1, 4].map fun id => .pair id id .same) := by
  obtain ⟨scorer, hscorer⟩ : ∃ scorer : Scorer Float,
      Scorer.ofSnapshots namesakes namesakes = .ok scorer := ⟨_, rfl⟩
  obtain ⟨order, horder, -, -, h⟩ :=
    self_comparison_is_same_in_pre_order namesakes grown_namesakes
  obtain ⟨found, hfound, rfl⟩ := h.2 {} scorer (by decide) hscorer
  rw [horder.unique preOrder_namesakes] at hfound
  exact ⟨grown_namesakes, hfound⟩

end Lineage
