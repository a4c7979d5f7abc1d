import Mathlib.Data.List.Forall2
import Mathlib.Data.List.Sort
import Lineage.Changes
import Lineage.Proofs.Construction

/-!
Trees that declare the same in the same places. The passes that pair nodes read kinds, names,
parameters, parents and children only, so trees that differ in nothing else have the same pairs; if
they also agree on calls, they have the same relationships.
-/

namespace Lineage

/-- Two nodes that declare the same in the same place. They may differ in location and calls. -/
structure Node.Resembles (left right : Node) : Prop where
  kind_eq : left.kind = right.kind
  name_eq : left.name = right.name
  scope_eq : left.scope = right.scope
  params_eq : left.params = right.params
  parent_eq : left.parent = right.parent
  children_eq : left.children = right.children

theorem Node.Resembles.refl (node : Node) : node.Resembles node :=
  ⟨rfl, rfl, rfl, rfl, rfl, rfl⟩

structure CodeTree.Resembles (left right : CodeTree) : Prop where
  roots_eq : left.roots = right.roots
  node : ∀ id, Option.Rel Node.Resembles (left.node? id) (right.node? id)

namespace CodeTree

theorem Resembles.refl (tree : CodeTree) : tree.Resembles tree := by
  refine ⟨rfl, ?_⟩
  intro id
  cases tree.node? id with
  | none => exact .none
  | some node => exact .some (.refl node)

theorem rel_node?_cases {relation : Node → Node → Prop} {left right : CodeTree} {id : NodeId}
    (h : Option.Rel relation (left.node? id) (right.node? id)) :
    (left.node? id = none ∧ right.node? id = none) ∨ ∃ x y, left.node? id = some x ∧
      right.node? id = some y ∧ relation x y := by
  generalize left.node? id = x, right.node? id = y at h
  cases h with
  | none => exact Or.inl ⟨rfl, rfl⟩
  | some hrelated => exact Or.inr ⟨_, _, rfl, rfl, hrelated⟩

theorem entries_related {relation : Node → Node → Prop} {left right : CodeTree}
    (h : ∀ id, Option.Rel relation (left.node? id) (right.node? id)) (ids : List NodeId) :
    List.Forall₂ (fun entry entry' => entry.1 = entry'.1 ∧ relation entry.2 entry'.2)
      (ids.filterMap fun id => (left.node? id).map fun node => (id, node))
      (ids.filterMap fun id => (right.node? id).map fun node => (id, node)) := by
  induction ids with
  | nil => exact .nil
  | cons id rest ih =>
      rcases rel_node?_cases (h id) with ⟨hx, hy⟩ | ⟨x, y, hx, hy, hrelated⟩
      · simpa [hx, hy] using ih
      · simpa [hx, hy] using ⟨hrelated, ih⟩

theorem size_eq_of_rel {relation : Node → Node → Prop} {left right : CodeTree}
    (h : ∀ id, Option.Rel relation (left.node? id) (right.node? id)) : left.size = right.size := by
  have hiff : ∀ id, id < left.size ↔ id < right.size := by
    intro id
    rcases rel_node?_cases (h id) with ⟨hleft, hright⟩ | ⟨x, y, hleft, hright, -⟩
    · constructor
      · intro hlt
        obtain ⟨node, hnode⟩ := exists_node?_of_lt_size hlt
        cases hleft.symm.trans hnode
      · intro hlt
        obtain ⟨node, hnode⟩ := exists_node?_of_lt_size hlt
        cases hright.symm.trans hnode
    · exact iff_of_true (lt_size_of_node? hleft) (lt_size_of_node? hright)
  apply Nat.le_antisymm
  · exact Nat.le_of_not_lt fun hlt => Nat.lt_irrefl _ ((hiff _).mp hlt)
  · exact Nat.le_of_not_lt fun hlt => Nat.lt_irrefl _ ((hiff _).mpr hlt)

theorem parent?_eq_of_rel {left right : CodeTree}
    (h : ∀ id, Option.Rel Node.Resembles (left.node? id) (right.node? id)) (id : NodeId) :
    left.parent? id = right.parent? id := by
  rcases rel_node?_cases (h id) with ⟨hleft, hright⟩ | ⟨x, y, hleft, hright, hnode⟩
  · rw [parent?, parent?, hleft, hright]
  · rw [parent?, parent?, hleft, hright]
    exact hnode.parent_eq

/-- The roots of trees that a builder made are their nodes without a parent, by number, so it is
enough that the nodes agree. -/
theorem Coherent.resembles {left right : CodeTree} (hleft : left.Coherent)
    (hright : right.Coherent)
    (h : ∀ id, Option.Rel Node.Resembles (left.node? id) (right.node? id)) :
    left.Resembles right := by
  refine ⟨hleft.roots_sorted.eq_of_mem_iff hright.roots_sorted ?_, h⟩
  intro id
  rw [hleft.mem_roots_iff, hright.mem_roots_iff, size_eq_of_rel h, parent?_eq_of_rel h]

theorem rows_congr {left right : CodeTree} (h : ∀ id, left.children id = right.children id)
    (count : Nat) (row : List NodeId) : left.rows count row = right.rows count row := by
  have hchildren : left.children = right.children := funext h
  induction count generalizing row with
  | zero => rfl
  | succ count ih =>
      cases row with
      | nil => rfl
      | cons id rest =>
          rw [rows, rows, hchildren, ih]
          all_goals simp

theorem ancestors_congr {left right : CodeTree} (h : ∀ id, left.parent? id = right.parent? id)
    (id : NodeId) : left.ancestors id = right.ancestors id := by
  induction id using Nat.strongRecOn with
  | ind id ih =>
      rw [ancestors, ancestors, h]
      cases right.parent? id with
      | none => rfl
      | some parent =>
          by_cases hlt : parent < id
          · simp [hlt, ih parent hlt]
          · simp [hlt]

namespace Resembles

variable {left right : CodeTree} (h : left.Resembles right)

include h

theorem parent?_eq (id : NodeId) : left.parent? id = right.parent? id :=
  parent?_eq_of_rel h.node id

theorem children_eq (id : NodeId) : left.children id = right.children id := by
  rcases rel_node?_cases (h.node id) with ⟨hleft, hright⟩ | ⟨x, y, hleft, hright, hnode⟩
  · rw [children, children, hleft, hright]
  · rw [children, children, hleft, hright]
    exact hnode.children_eq

theorem levelOrder_eq : left.levelOrder = right.levelOrder := by
  rw [levelOrder, levelOrder, size_eq_of_rel h.node, h.roots_eq, rows_congr h.children_eq]

end Resembles

end CodeTree

namespace TreePair

structure Resembles (left right : TreePair) : Prop where
  before : left.before.Resembles right.before
  after : left.after.Resembles right.after

namespace Resembles

variable {left right : TreePair} (h : left.Resembles right)

include h

theorem holds_eq {relation : Node → Node → Bool}
    (hrelation : ∀ x x' y y', Node.Resembles x x' → Node.Resembles y y' →
      relation x y = relation x' y') (b a : NodeId) :
    left.holds relation b a = right.holds relation b a := by
  rw [holds, holds]
  rcases CodeTree.rel_node?_cases (h.before.node b) with ⟨hb, hb'⟩ | ⟨x, x', hb, hb', hx⟩
  · rw [hb, hb']
  · rcases CodeTree.rel_node?_cases (h.after.node a) with ⟨ha, ha'⟩ | ⟨y, y', ha, ha', hy⟩
    · rw [hb, hb', ha, ha']
    · rw [hb, hb', ha, ha']
      exact hrelation x x' y y' hx hy

theorem sameName_eq (b a : NodeId) : left.sameName b a = right.sameName b a := by
  apply h.holds_eq
  intro x x' y y' hx hy
  rw [hx.scope_eq, hx.name_eq, hy.scope_eq, hy.name_eq]

theorem sameKind_eq (b a : NodeId) : left.sameKind b a = right.sameKind b a := by
  apply h.holds_eq
  intro x x' y y' hx hy
  rw [hx.kind_eq, hy.kind_eq]

theorem sameLocalName_eq (b a : NodeId) : left.sameLocalName b a = right.sameLocalName b a := by
  apply h.holds_eq
  intro x x' y y' hx hy
  rw [hx.name_eq, hy.name_eq]

theorem sameSignature_eq (b a : NodeId) : left.sameSignature b a = right.sameSignature b a := by
  apply h.holds_eq
  intro x x' y y' hx hy
  rw [hx.name_eq, hx.params_eq, hy.name_eq, hy.params_eq]

theorem sameParent_eq (matching : Matching) (b a : NodeId) :
    left.sameParent matching b a = right.sameParent matching b a := by
  apply h.holds_eq
  intro x x' y y' hx hy
  rw [hx.parent_eq, hx.scope_eq, hy.parent_eq, hy.scope_eq]

theorem sameNamed_eq (befores afters : List NodeId) :
    left.sameNamed befores afters = right.sameNamed befores afters := by
  simp only [sameNamed, funext (h.sameName_eq _)]

theorem namedChildren_eq (b a : NodeId) : left.namedChildren b a = right.namedChildren b a := by
  rw [namedChildren, namedChildren, h.before.children_eq, h.after.children_eq, h.sameNamed_eq]

theorem cascade_eq (matching : Matching) (agenda : List (NodeId × NodeId)) :
    left.cascade matching agenda = right.cascade matching agenda := by
  fun_induction cascade left matching agenda with
  | case1 matching => rw [cascade]
  | case2 matching b a agenda hfree ih =>
      rw [ih, h.namedChildren_eq, cascade, if_pos hfree]
  | case3 matching b a agenda hfree ih => rw [ih, cascade, if_neg hfree]

theorem scan_eq {accept accept' : Matching → NodeId → NodeId → Bool}
    (haccept : ∀ matching b a, accept matching b a = accept' matching b a) (matching : Matching) :
    left.scan accept matching = right.scan accept' matching := by
  have hequal : accept = accept' := by
    funext current b a
    exact haccept current b a
  simp only [scan, hequal, h.cascade_eq]

theorem classify?_eq (evidence : Evidence) (matching : Matching) (b a : NodeId) :
    left.classify? evidence matching b a = right.classify? evidence matching b a := by
  simp only [classify?, h.sameKind_eq, h.sameSignature_eq, h.sameLocalName_eq, h.sameParent_eq]

theorem classify_eq (evidence : Evidence) (matching : Matching) (b a : NodeId) :
    left.classify evidence matching b a = right.classify evidence matching b a := by
  simp only [classify, h.classify?_eq, h.sameKind_eq, h.sameLocalName_eq, h.sameParent_eq]

theorem matchedChildren_eq (matching : Matching) (b a : NodeId) :
    left.matchedChildren matching b a = right.matchedChildren matching b a := by
  rw [matchedChildren, matchedChildren, h.before.children_eq, h.after.children_eq]

theorem matching_eq (evidence : Evidence) : left.matching evidence = right.matching evidence := by
  have hstart : Matching.start left.before left.after = .start right.before right.after := by
    rw [Matching.start, Matching.start, h.before.levelOrder_eq, h.after.levelOrder_eq]
  have hnamed : left.matchByName (.start left.before left.after) =
      right.matchByName (.start right.before right.after) := by
    rw [hstart, matchByName, matchByName, h.before.roots_eq, h.after.roots_eq, h.sameNamed_eq,
      h.cascade_eq]
  have hsimilar : ∀ matching, left.matchBySimilarity evidence matching =
      right.matchBySimilarity evidence matching := by
    apply h.scan_eq
    intro matching b a
    rw [h.classify?_eq]
  have hchildren : ∀ matching, left.matchByChildren evidence matching =
      right.matchByChildren evidence matching := by
    apply h.scan_eq
    intro matching b a
    rw [h.matchedChildren_eq]
  rw [matching, matching, hnamed, hsimilar, hchildren]

theorem changes_eq
    (hbefore : ∀ caller callee, calls left.before caller callee = calls right.before caller callee)
    (hafter : ∀ caller callee, calls left.after caller callee = calls right.after caller callee)
    (evidence : Evidence) : left.changes evidence = right.changes evidence := by
  have htyped : ∀ matching, left.typedPairs evidence matching =
      right.typedPairs evidence matching := by
    intro matching
    simp only [typedPairs, h.classify_eq]
  have hextracted : left.isExtracted evidence = right.isExtracted evidence := by
    funext matching moved pair new
    rw [isExtracted, isExtracted, hafter, h.sameParent_eq]
  have hinlined : left.inlinedInto? evidence = right.inlinedInto? evidence := by
    funext matching old
    simp only [inlinedInto?, hbefore]
  simp only [changes, h.matching_eq, htyped, hextracted, hinlined]

end Resembles

end TreePair

end Lineage
