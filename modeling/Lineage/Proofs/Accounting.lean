import Mathlib.Data.List.Perm.Basic
import Lineage.Proofs.Finding

namespace Lineage

namespace Relationship

/-- The node before that a relationship settles. An extraction settles the node that is new, not the
one it came from. -/
def settledBefore (relationship : Relationship) : Option NodeId :=
  if relationship.kind = .extract ∨ relationship.kind = .extractAndMove then none
  else relationship.before

/-- The node after that a relationship settles. An inlining settles the node that is gone, not the
one that took its code. -/
def settledAfter (relationship : Relationship) : Option NodeId :=
  if relationship.kind = .inline then none else relationship.after

theorem settledBefore_pair {kind : RelationKind} (hkind : kind ∈ RelationKind.ofPairs)
    (before after : NodeId) : (pair before after kind).settledBefore = some before := by
  have hplain : ¬(kind = .extract ∨ kind = .extractAndMove) := by
    revert kind
    decide
  exact if_neg hplain

theorem settledAfter_pair {kind : RelationKind} (hkind : kind ∈ RelationKind.ofPairs)
    (before after : NodeId) : (pair before after kind).settledAfter = some after := by
  have hplain : kind ≠ .inline := by
    revert kind
    decide
  exact if_neg hplain

theorem count_settledBefore (found : List Relationship) (id : NodeId) :
    (found.filterMap settledBefore).count id =
      found.countP fun r => r.before = some id ∧ r.kind ≠ .extract ∧ r.kind ≠ .extractAndMove := by
  rw [List.count, List.countP_filterMap]
  refine List.countP_congr ?_
  intro r _
  by_cases hkind : r.kind = .extract ∨ r.kind = .extractAndMove
  · rcases hkind with hkind | hkind <;> simp [settledBefore, hkind]
  · rw [not_or] at hkind
    cases hbefore : r.before <;> simp [settledBefore, hkind, hbefore]

theorem count_settledAfter (found : List Relationship) (id : NodeId) :
    (found.filterMap settledAfter).count id =
      found.countP fun r => r.after = some id ∧ r.kind ≠ .inline := by
  rw [List.count, List.countP_filterMap]
  refine List.countP_congr ?_
  intro r _
  by_cases hkind : r.kind = .inline
  · simp [settledAfter, hkind]
  · cases hafter : r.after <;> simp [settledAfter, hkind, hafter]

end Relationship

/-- A list of relationships accounts for the nodes of two trees. -/
structure Accounts (trees : TreePair) (found : List Relationship) : Prop where
  before_once : ∀ id < trees.before.size,
    (found.countP fun r =>
      r.before = some id ∧ r.kind ≠ .extract ∧ r.kind ≠ .extractAndMove) = 1
  after_once : ∀ id < trees.after.size,
    (found.countP fun r => r.after = some id ∧ r.kind ≠ .inline) = 1
  removed_side : ∀ r ∈ found, r.kind = .removed → r.after = none
  added_side : ∀ r ∈ found, r.kind = .added → r.before = none
  extract_matched : ∀ r ∈ found, r.kind = .extract ∨ r.kind = .extractAndMove →
    ∃ id < trees.before.size, r.before = some id ∧ ∃ after, Relationship.Matched found id after
  inline_matched : ∀ r ∈ found, r.kind = .inline →
    ∃ id < trees.after.size, r.after = some id ∧ ∃ before, Relationship.Matched found before id

namespace TreePair

open Matching (Splits)
open Relationship (settledBefore settledAfter)

variable {trees : TreePair} {evidence : Evidence} {matching : Matching}

theorem filterMap_typedPairs {side : Relationship → Option NodeId} {part : NodeId × NodeId → NodeId}
    (hside : ∀ kind ∈ RelationKind.ofPairs, ∀ before after,
      side (.pair before after kind) = some (part (before, after))) :
    (trees.typedPairs evidence matching).filterMap side = matching.pairs.map part := by
  rw [typedPairs, List.filterMap_map, ← List.filterMap_eq_map]
  refine List.filterMap_congr ?_
  rintro ⟨before, after⟩ _
  exact hside _ (classify_mem before after) before after

theorem filterMap_settledBefore_distribute (test : NodeId × NodeId → NodeId → Bool)
    {kind : RelationKind} (hkind : kind = .extract ∨ kind = .extractAndMove)
    (pairs : List (NodeId × NodeId)) (nodes : List NodeId) :
    (distribute test kind pairs nodes).1.filterMap settledBefore = [] := by
  induction pairs generalizing nodes with
  | nil => rfl
  | cons first rest ih =>
      simp only [distribute, List.filterMap_append, ih, List.append_nil, List.filterMap_map,
        List.filterMap_eq_nil_iff]
      intro node _
      exact if_pos hkind

/-- The nodes that distribution settles and those that it leaves are those that it got. -/
theorem filterMap_settledAfter_distribute_perm (test : NodeId × NodeId → NodeId → Bool)
    {kind : RelationKind} (hkind : kind ≠ .inline)
    (pairs : List (NodeId × NodeId)) (nodes : List NodeId) :
    ((distribute test kind pairs nodes).1.filterMap settledAfter ++
      (distribute test kind pairs nodes).2).Perm nodes := by
  induction pairs generalizing nodes with
  | nil => exact List.Perm.refl _
  | cons first rest ih =>
      have hsettled : ((nodes.filter (test first)).map (.pair first.1 · kind)).filterMap
          settledAfter = nodes.filter (test first) := by
        rw [List.filterMap_map]
        refine (List.filterMap_congr ?_).trans List.filterMap_some
        intro node _
        exact if_neg hkind
      simp only [distribute, List.filterMap_append, hsettled, List.append_assoc]
      exact ((ih _).append_left _).trans (List.filter_append_perm (test first) nodes)

section Sides

variable (into? : NodeId → Option NodeId) (olds news : List NodeId)

theorem filterMap_settledBefore_inlined :
    (olds.filterMap fun old => (into? old).map fun after =>
      Relationship.pair old after .inline).filterMap settledBefore =
      olds.filter fun old => (into? old).isSome := by
  induction olds with
  | nil => rfl
  | cons old olds ih =>
      cases hinto : into? old with
      | none => simpa [hinto] using ih
      | some after => simpa [hinto, settledBefore, Relationship.pair] using ih

theorem filterMap_settledAfter_inlined :
    (olds.filterMap fun old => (into? old).map fun after =>
      Relationship.pair old after .inline).filterMap settledAfter = [] := by
  rw [List.filterMap_filterMap, List.filterMap_eq_nil_iff]
  intro old _
  cases into? old <;> rfl

theorem filterMap_settledBefore_removed :
    (olds.map Relationship.removed).filterMap settledBefore = olds := by
  rw [List.filterMap_map]
  exact List.filterMap_some

theorem filterMap_settledAfter_removed :
    (olds.map Relationship.removed).filterMap settledAfter = [] := by
  rw [List.filterMap_map]
  exact List.filterMap_eq_nil_iff.mpr fun _ _ => rfl

theorem filterMap_settledBefore_added :
    (news.map Relationship.added).filterMap settledBefore = [] := by
  rw [List.filterMap_map]
  exact List.filterMap_eq_nil_iff.mpr fun _ _ => rfl

theorem filterMap_settledAfter_added :
    (news.map Relationship.added).filterMap settledAfter = news := by
  rw [List.filterMap_map]
  exact List.filterMap_some

end Sides

theorem settledBefore_changes_perm
    (h : Splits trees.before.levelOrder trees.after.levelOrder (trees.matching evidence)) :
    ((trees.changes evidence).filterMap settledBefore).Perm trees.before.levelOrder := by
  have htyped : (trees.typedPairs evidence (trees.matching evidence)).filterMap settledBefore =
      (trees.matching evidence).pairs.map Prod.fst :=
    filterMap_typedPairs fun _ => Relationship.settledBefore_pair
  simp only [changes, List.filterMap_append, htyped, filterMap_settledBefore_inlined,
    filterMap_settledBefore_removed, filterMap_settledBefore_added,
    filterMap_settledBefore_distribute _ (Or.inl rfl),
    filterMap_settledBefore_distribute _ (Or.inr rfl), List.append_nil, List.nil_append,
    List.append_assoc]
  refine List.Perm.trans (List.Perm.append_left _ ?_) h.before_perm
  simpa only [Option.not_isSome] using List.filter_append_perm
    (fun old => (trees.inlinedInto? evidence (trees.matching evidence) old).isSome) _

theorem settledAfter_changes_perm
    (h : Splits trees.before.levelOrder trees.after.levelOrder (trees.matching evidence)) :
    ((trees.changes evidence).filterMap settledAfter).Perm trees.after.levelOrder := by
  have htyped : (trees.typedPairs evidence (trees.matching evidence)).filterMap settledAfter =
      (trees.matching evidence).pairs.map Prod.snd :=
    filterMap_typedPairs fun _ => Relationship.settledAfter_pair
  simp only [changes, List.filterMap_append, htyped, filterMap_settledAfter_inlined,
    filterMap_settledAfter_removed, filterMap_settledAfter_added, List.append_assoc]
  refine List.Perm.trans (List.Perm.append_left _ ?_) h.after_perm
  refine List.Perm.trans (List.Perm.append_left _ ?_)
    (filterMap_settledAfter_distribute_perm _ (by decide) _ _)
  exact filterMap_settledAfter_distribute_perm _ (by decide) _ _

theorem countP_before_eq_one
    (h : Splits trees.before.levelOrder trees.after.levelOrder (trees.matching evidence))
    {id : NodeId} (hid : id ∈ trees.before.levelOrder) :
    ((trees.changes evidence).countP fun r =>
      r.before = some id ∧ r.kind ≠ .extract ∧ r.kind ≠ .extractAndMove) = 1 := by
  rw [← Relationship.count_settledBefore, (settledBefore_changes_perm h).count_eq]
  exact List.count_eq_one_of_mem h.nodup_befores hid

theorem countP_after_eq_one
    (h : Splits trees.before.levelOrder trees.after.levelOrder (trees.matching evidence))
    {id : NodeId} (hid : id ∈ trees.after.levelOrder) :
    ((trees.changes evidence).countP fun r => r.after = some id ∧ r.kind ≠ .inline) = 1 := by
  rw [← Relationship.count_settledAfter, (settledAfter_changes_perm h).count_eq]
  exact List.count_eq_one_of_mem h.nodup_afters hid

theorem after_eq_none_of_removed {r : Relationship} (h : Arises trees evidence matching r)
    (hkind : r.kind = .removed) : r.after = none := by
  cases h with
  | paired => exact absurd hkind (classify_ne (by decide) _ _)
  | removed => rfl
  | extracted | moved | inlined | added => cases hkind

theorem before_eq_none_of_added {r : Relationship} (h : Arises trees evidence matching r)
    (hkind : r.kind = .added) : r.before = none := by
  cases h with
  | paired => exact absurd hkind (classify_ne (by decide) _ _)
  | added => rfl
  | extracted | moved | inlined | removed => cases hkind

theorem accounts_changes (hbefore : trees.before.Grown) (hafter : trees.after.Grown)
    (evidence : Evidence) : Accounts trees (trees.changes evidence) := by
  have h := splits_matching hbefore.built.coherent hafter.built.coherent evidence
  refine ⟨?_, ?_, ?_, ?_, ?_, ?_⟩
  · intro id hid
    exact countP_before_eq_one h (hbefore.mem_levelOrder_iff.mpr hid)
  · intro id hid
    exact countP_after_eq_one h (hafter.mem_levelOrder_iff.mpr hid)
  · intro r hr
    exact after_eq_none_of_removed ((mem_changes_iff h).mp hr)
  · intro r hr
    exact before_eq_none_of_added ((mem_changes_iff h).mp hr)
  · intro r hr hkind
    obtain ⟨_, pair, _, hpair, -, -, rfl⟩ := ((mem_changes_iff h).mp hr).exists_origin hkind
    exact ⟨pair.1, hbefore.mem_levelOrder_iff.mp (h.fst_mem hpair), rfl, pair.2,
      (matched_changes_iff h).mpr hpair⟩
  · intro r hr hkind
    obtain ⟨pair, _, hpair, -, -, rfl⟩ := ((mem_changes_iff h).mp hr).exists_host hkind
    exact ⟨pair.2, hafter.mem_levelOrder_iff.mp (h.snd_mem hpair), rfl, pair.1,
      (matched_changes_iff h).mpr hpair⟩

end TreePair

/-- The finder accounts for every node of two trees whose parents came before their children. -/
theorem every_node_is_accounted_once (before after : Snapshot) (hbefore : before.tree.Grown)
    (hafter : after.tree.Grown) :
    EveryFinding before after fun _ found => Accounts ⟨before.tree, after.tree⟩ found :=
  everyFinding_of_changes fun evidence => TreePair.accounts_changes hbefore hafter evidence

theorem loader_is_accounted_once :
    (loader "parse").tree.Grown ∧ (loader "read").tree.Grown ∧
      ∃ found, findRelationships {} (loader "parse") (loader "read") = .ok found ∧
        Accounts ⟨(loader "parse").tree, (loader "read").tree⟩ found := by
  obtain ⟨scorer, hscorer⟩ := exists_scorer_loader
  have h := every_node_is_accounted_once (loader "parse") (loader "read") (grown_loader _)
    (grown_loader _)
  exact ⟨grown_loader _, grown_loader _, h.2 {} scorer (by decide) hscorer⟩

end Lineage
