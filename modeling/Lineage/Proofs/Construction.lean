import Mathlib.Data.List.Basic
import Mathlib.Data.List.Nodup
import Lineage.CodeTree

/-!
Code trees that come out of a builder. What an operation does is said once through `node?`; parents,
children and roots of every tree that a builder can reach agree with each other, and `levelOrder`
lists each node at most once. When every parent is in the tree before its children, it lists them
all.
-/

namespace Lineage.CodeTree

theorem node?_eq_none_of_size_le {tree : CodeTree} {id : NodeId} (h : tree.size ≤ id) :
    tree.node? id = none :=
  Array.getElem?_eq_none h

theorem lt_size_of_node? {tree : CodeTree} {id : NodeId} {node : Node}
    (h : tree.node? id = some node) : id < tree.size := by
  by_contra hle
  rw [node?_eq_none_of_size_le (Nat.le_of_not_lt hle)] at h
  simp at h

theorem exists_node?_of_lt_size {tree : CodeTree} {id : NodeId} (h : id < tree.size) :
    ∃ node, tree.node? id = some node :=
  ⟨tree.nodes[id], Array.getElem?_eq_getElem h⟩

theorem node?_addRoot (tree : CodeTree) (element : Element) (id : NodeId) :
    (tree.addRoot element).node? id =
      if id = tree.size then some { element with } else tree.node? id := by
  simp only [addRoot, node?, Array.getElem?_push]
  rfl

theorem addChild_eq_some_iff {tree tree' : CodeTree} {parent : NodeId} {element : Element} :
    tree.addChild parent element = some tree' ↔
      parent ≤ tree.size ∧ tree' =
        { tree with
          nodes := (tree.nodes.push { element with parent := some parent }).modify parent
            fun node => { node with children := node.children ++ [tree.size] } } := by
  have hsize : parent < (tree.nodes.push { element with parent := some parent }).size ↔
      parent ≤ tree.size := by
    rw [Array.size_push]
    exact Nat.lt_succ_iff
  simp only [addChild, hsize]
  split
  · next h => exact ⟨fun heq => ⟨h, (Option.some.inj heq).symm⟩, fun heq => by rw [heq.2]⟩
  · next h => exact ⟨fun heq => by simp at heq, fun heq => absurd heq.1 h⟩

theorem exists_addChild {tree : CodeTree} {parent : NodeId} (h : parent < tree.size)
    (element : Element) : ∃ tree', tree.addChild parent element = some tree' :=
  Option.isSome_iff_exists.mp ((tree.addChild_isSome_iff parent element).mpr (Nat.le_of_lt h))

theorem node?_addChild {tree tree' : CodeTree} {parent : NodeId} {element : Element}
    (h : tree.addChild parent element = some tree') (id : NodeId) :
    tree'.node? id =
      (if id = tree.size then some { element with parent := some parent } else tree.node? id).map
        fun node => if id = parent then
          { node with children := node.children ++ [tree.size] } else node := by
  obtain ⟨-, rfl⟩ := addChild_eq_some_iff.mp h
  simp only [node?, Array.getElem?_modify, Array.getElem?_push]
  by_cases hid : id = parent
  · subst hid
    simp only [if_true]
    rfl
  · have hid' : parent ≠ id := fun heq => hid heq.symm
    simp only [hid, hid', if_false, Option.map_id']
    rfl

theorem node?_addCall (tree : CodeTree) (caller callee id : NodeId) :
    (tree.addCall caller callee).node? id =
      (tree.node? id).map fun node =>
        if id = caller ∧ tree.isNewCall caller callee then
          { node with calls := node.calls ++ [callee] } else node := by
  unfold addCall
  split
  · next hnew =>
    by_cases hid : id = caller
    · simp [node?, Array.getElem?_modify, hid, hnew]
    · have hid' : caller ≠ id := fun heq => hid heq.symm
      simp [node?, Array.getElem?_modify, hid, hid']
  · next hold => simp [hold]

@[simp] theorem size_addChild {tree tree' : CodeTree} {parent : NodeId} {element : Element}
    (h : tree.addChild parent element = some tree') : tree'.size = tree.size + 1 := by
  obtain ⟨-, rfl⟩ := addChild_eq_some_iff.mp h
  simp [size]

@[simp] theorem roots_addChild {tree tree' : CodeTree} {parent : NodeId} {element : Element}
    (h : tree.addChild parent element = some tree') : tree'.roots = tree.roots := by
  obtain ⟨-, rfl⟩ := addChild_eq_some_iff.mp h
  rfl

@[simp] theorem roots_addCall (tree : CodeTree) (caller callee : NodeId) :
    (tree.addCall caller callee).roots = tree.roots := by
  unfold addCall
  split <;> rfl

theorem tokens_addChild {tree tree' : CodeTree} {parent : NodeId} {element : Element}
    (h : tree.addChild parent element = some tree') : tree'.tokens = tree.tokens := by
  obtain ⟨-, rfl⟩ := addChild_eq_some_iff.mp h
  rfl

theorem tokens_addCall (tree : CodeTree) (caller callee : NodeId) :
    (tree.addCall caller callee).tokens = tree.tokens := by
  unfold addCall
  split <;> rfl

theorem parent?_addRoot (tree : CodeTree) (element : Element) (id : NodeId) :
    (tree.addRoot element).parent? id = tree.parent? id := by
  rw [parent?, parent?, node?_addRoot]
  split
  · next hid => simp [node?_eq_none_of_size_le (Nat.le_of_eq hid.symm)]
  · rfl

theorem children_addRoot (tree : CodeTree) (element : Element) (id : NodeId) :
    (tree.addRoot element).children id = tree.children id := by
  rw [children, children, node?_addRoot]
  split
  · next hid => simp [node?_eq_none_of_size_le (Nat.le_of_eq hid.symm)]
  · rfl

theorem parent?_addChild {tree tree' : CodeTree} {parent : NodeId} {element : Element}
    (h : tree.addChild parent element = some tree') (id : NodeId) :
    tree'.parent? id = if id = tree.size then some parent else tree.parent? id := by
  rw [parent?, node?_addChild h, parent?]
  by_cases hsize : id = tree.size
  · simp only [if_pos hsize, Option.map_some, Option.bind_some]
    split <;> rfl
  · simp only [if_neg hsize]
    cases tree.node? id with
    | none => rfl
    | some node =>
        simp only [Option.map_some, Option.bind_some]
        split <;> rfl

theorem children_addChild {tree tree' : CodeTree} {parent : NodeId} {element : Element}
    (h : tree.addChild parent element = some tree') (id : NodeId) :
    tree'.children id =
      if id = parent then tree.children id ++ [tree.size] else tree.children id := by
  have hparent : parent ≤ tree.size := (addChild_eq_some_iff.mp h).1
  rw [children, node?_addChild h, children]
  by_cases hsize : id = tree.size
  · have hnone : tree.node? id = none := node?_eq_none_of_size_le (Nat.le_of_eq hsize.symm)
    rw [if_pos hsize, hnone]
    by_cases hid : id = parent <;> simp [hid]
  · rw [if_neg hsize]
    by_cases hid : id = parent
    · have hlt : id < tree.size := Nat.lt_of_le_of_ne (hid ▸ hparent) hsize
      obtain ⟨node, hnode⟩ := exists_node?_of_lt_size hlt
      subst hid
      simp [hnode]
    · simp [hid]

theorem parent?_addCall (tree : CodeTree) (caller callee id : NodeId) :
    (tree.addCall caller callee).parent? id = tree.parent? id := by
  rw [parent?, parent?, node?_addCall]
  cases tree.node? id with
  | none => rfl
  | some node =>
      simp only [Option.map_some, Option.bind_some]
      split <;> rfl

theorem children_addCall (tree : CodeTree) (caller callee id : NodeId) :
    (tree.addCall caller callee).children id = tree.children id := by
  rw [children, children, node?_addCall]
  cases tree.node? id with
  | none => rfl
  | some node =>
      simp only [Option.map_some, Option.getD_some]
      split <;> rfl

/-- The trees that a builder can reach by steps that give a result, whatever numbers it passes. -/
inductive Built : CodeTree → Prop
  | empty : Built {}
  | addRoot {tree : CodeTree} (element : Element) : Built tree → Built (tree.addRoot element)
  | addChild {tree tree' : CodeTree} {parent : NodeId} {element : Element} :
      Built tree → tree.addChild parent element = some tree' → Built tree'
  | addCall {tree : CodeTree} (caller callee : NodeId) :
      Built tree → Built (tree.addCall caller callee)
  | setTokens {tree : CodeTree} (file : Path) (index : TokenIndex) :
      Built tree → Built (tree.setTokens file index)

/-- The trees that a builder can reach when the parent of each new child is in the tree already. -/
inductive Grown : CodeTree → Prop
  | empty : Grown {}
  | addRoot {tree : CodeTree} (element : Element) : Grown tree → Grown (tree.addRoot element)
  | addChild {tree tree' : CodeTree} {parent : NodeId} {element : Element} :
      Grown tree → parent < tree.size → tree.addChild parent element = some tree' → Grown tree'
  | addCall {tree : CodeTree} (caller callee : NodeId) :
      Grown tree → Grown (tree.addCall caller callee)
  | setTokens {tree : CodeTree} (file : Path) (index : TokenIndex) :
      Grown tree → Grown (tree.setTokens file index)

theorem Grown.built {tree : CodeTree} (h : Grown tree) : Built tree := by
  induction h with
  | empty => exact .empty
  | addRoot element _ ih => exact ih.addRoot element
  | addChild _ _ hadd ih => exact ih.addChild hadd
  | addCall caller callee _ ih => exact ih.addCall caller callee
  | setTokens file index _ ih => exact ih.setTokens file index

theorem Grown.addChild_getD {tree : CodeTree} (h : Grown tree) {parent : NodeId}
    (hparent : parent < tree.size) (element : Element) :
    Grown ((tree.addChild parent element).getD tree) := by
  obtain ⟨tree', hadd⟩ := exists_addChild hparent element
  rw [hadd]
  exact h.addChild hparent hadd

theorem Built.addChild_getD {tree : CodeTree} (h : Built tree) (parent : NodeId)
    (element : Element) : Built ((tree.addChild parent element).getD tree) := by
  cases hadd : tree.addChild parent element with
  | none => exact h
  | some tree' => exact h.addChild hadd

/-- Parents, children and roots tell the same story, each list in the order of creation. -/
structure Coherent (tree : CodeTree) : Prop where
  mem_children_iff : ∀ parent child,
    child ∈ tree.children parent ↔ tree.parent? child = some parent
  children_sorted : ∀ parent, (tree.children parent).Pairwise (· < ·)
  mem_roots_iff : ∀ root, root ∈ tree.roots ↔ root < tree.size ∧ tree.parent? root = none
  roots_sorted : tree.roots.Pairwise (· < ·)

theorem lt_size_of_parent? {tree : CodeTree} {id parent : NodeId}
    (h : tree.parent? id = some parent) : id < tree.size := by
  obtain ⟨node, hnode, -⟩ := Option.bind_eq_some_iff.mp h
  exact lt_size_of_node? hnode

theorem exists_node?_of_mem_children {tree : CodeTree} {parent child : NodeId}
    (h : child ∈ tree.children parent) : ∃ node, tree.node? parent = some node := by
  cases hnode : tree.node? parent with
  | none => simp [children, hnode] at h
  | some node => exact ⟨node, rfl⟩

theorem pairwise_lt_append_singleton {ids : List NodeId} {last : NodeId}
    (hsorted : ids.Pairwise (· < ·)) (hlast : ∀ id ∈ ids, id < last) :
    (ids ++ [last]).Pairwise (· < ·) := by
  rw [List.pairwise_append]
  refine ⟨hsorted, List.pairwise_singleton _ _, ?_⟩
  intro id hid other hother
  rw [List.mem_singleton.mp hother]
  exact hlast id hid

theorem Coherent.empty : Coherent {} where
  mem_children_iff := by simp [children, parent?, node?]
  children_sorted := by simp [children, node?]
  mem_roots_iff := by simp [size]
  roots_sorted := List.Pairwise.nil

theorem Coherent.addRoot {tree : CodeTree} (h : Coherent tree) (element : Element) :
    Coherent (tree.addRoot element) where
  mem_children_iff parent child := by
    rw [children_addRoot, parent?_addRoot]
    exact h.mem_children_iff parent child
  children_sorted parent := by
    rw [children_addRoot]
    exact h.children_sorted parent
  mem_roots_iff root := by
    rw [parent?_addRoot, size_addRoot]
    change root ∈ tree.roots ++ [tree.size] ↔ _
    rw [List.mem_append, List.mem_singleton, h.mem_roots_iff]
    constructor
    · rintro (⟨hlt, hnone⟩ | rfl)
      · exact ⟨Nat.lt_succ_of_lt hlt, hnone⟩
      · exact ⟨Nat.lt_succ_self _, by simp [parent?, node?_eq_none_of_size_le (Nat.le_refl _)]⟩
    · rintro ⟨hlt, hnone⟩
      rcases Nat.lt_succ_iff_lt_or_eq.mp hlt with hlt | heq
      · exact Or.inl ⟨hlt, hnone⟩
      · exact Or.inr heq
  roots_sorted :=
    pairwise_lt_append_singleton h.roots_sorted fun root hroot =>
      ((h.mem_roots_iff root).mp hroot).1

theorem Coherent.addChild {tree tree' : CodeTree} {parent : NodeId} {element : Element}
    (h : Coherent tree) (hadd : tree.addChild parent element = some tree') : Coherent tree' where
  mem_children_iff other child := by
    rw [children_addChild hadd, parent?_addChild hadd]
    have hfresh : tree.parent? tree.size = none := by
      simp [parent?, node?_eq_none_of_size_le (Nat.le_refl _)]
    by_cases hchild : child = tree.size
    · have hnot : child ∉ tree.children other := by
        rw [h.mem_children_iff, hchild, hfresh]
        simp
      subst hchild
      by_cases hother : other = parent
      · simp [hother]
      · have hother' : parent ≠ other := fun heq => hother heq.symm
        simp [hother, hother', hnot]
    · rw [if_neg hchild, ← h.mem_children_iff]
      split <;> simp [hchild]
  children_sorted other := by
    rw [children_addChild hadd]
    split
    · refine pairwise_lt_append_singleton (h.children_sorted other) ?_
      intro child hchild
      exact lt_size_of_parent? ((h.mem_children_iff other child).mp hchild)
    · exact h.children_sorted other
  mem_roots_iff root := by
    rw [roots_addChild hadd, size_addChild hadd, parent?_addChild hadd, h.mem_roots_iff]
    by_cases hroot : root = tree.size
    · simp [hroot]
    · rw [if_neg hroot]
      have hlt : root < tree.size + 1 ↔ root < tree.size :=
        Nat.lt_succ_iff_lt_or_eq.trans (or_iff_left hroot)
      rw [hlt]
  roots_sorted := by
    rw [roots_addChild hadd]
    exact h.roots_sorted

theorem Coherent.addCall {tree : CodeTree} (h : Coherent tree) (caller callee : NodeId) :
    Coherent (tree.addCall caller callee) where
  mem_children_iff parent child := by
    rw [children_addCall, parent?_addCall]
    exact h.mem_children_iff parent child
  children_sorted parent := by
    rw [children_addCall]
    exact h.children_sorted parent
  mem_roots_iff root := by
    rw [roots_addCall, parent?_addCall, size_addCall]
    exact h.mem_roots_iff root
  roots_sorted := by
    rw [roots_addCall]
    exact h.roots_sorted

theorem Coherent.setTokens {tree : CodeTree} (h : Coherent tree) (file : Path)
    (index : TokenIndex) : Coherent (tree.setTokens file index) where
  mem_children_iff := h.mem_children_iff
  children_sorted := h.children_sorted
  mem_roots_iff := h.mem_roots_iff
  roots_sorted := h.roots_sorted

theorem Built.coherent {tree : CodeTree} (h : Built tree) : Coherent tree := by
  induction h with
  | empty => exact .empty
  | addRoot element _ ih => exact ih.addRoot element
  | addChild _ hadd ih => exact ih.addChild hadd
  | addCall caller callee _ ih => exact ih.addCall caller callee
  | setTokens file index _ ih => exact ih.setTokens file index

/-- Each node has a parent with a number that `order` allows. -/
def OrdersParents (order : NodeId → NodeId → Prop) (tree : CodeTree) : Prop :=
  ∀ parent child, tree.parent? child = some parent → order parent child

namespace OrdersParents

variable {order : NodeId → NodeId → Prop} {tree tree' : CodeTree}

theorem empty : OrdersParents order {} := by
  simp [OrdersParents, parent?, node?]

theorem addRoot (h : OrdersParents order tree) (element : Element) :
    OrdersParents order (tree.addRoot element) := by
  intro parent child hparent
  rw [parent?_addRoot] at hparent
  exact h parent child hparent

theorem addChild {around : NodeId} {element : Element} (h : OrdersParents order tree)
    (hnew : order around tree.size) (hadd : tree.addChild around element = some tree') :
    OrdersParents order tree' := by
  intro parent child hparent
  rw [parent?_addChild hadd] at hparent
  split at hparent
  · next hchild =>
    cases hparent
    exact hchild ▸ hnew
  · exact h parent child hparent

theorem addCall (h : OrdersParents order tree) (caller callee : NodeId) :
    OrdersParents order (tree.addCall caller callee) := by
  intro parent child hparent
  rw [parent?_addCall] at hparent
  exact h parent child hparent

theorem setTokens (h : OrdersParents order tree) (file : Path) (index : TokenIndex) :
    OrdersParents order (tree.setTokens file index) :=
  h

end OrdersParents

theorem Grown.ordersParents {tree : CodeTree} (h : Grown tree) : OrdersParents (· < ·) tree := by
  induction h with
  | empty => exact .empty
  | addRoot element _ ih => exact ih.addRoot element
  | addChild _ hlt hadd ih => exact ih.addChild hlt hadd
  | addCall caller callee _ ih => exact ih.addCall caller callee
  | setTokens file index _ ih => exact ih.setTokens file index

theorem Built.ordersParents {tree : CodeTree} (h : Built tree) : OrdersParents (· ≤ ·) tree := by
  induction h with
  | empty => exact .empty
  | addRoot element _ ih => exact ih.addRoot element
  | addChild _ hadd ih => exact ih.addChild (addChild_eq_some_iff.mp hadd).1 hadd
  | addCall caller callee _ ih => exact ih.addCall caller callee
  | setTokens file index _ ih => exact ih.setTokens file index

theorem Grown.parent_lt {tree : CodeTree} (h : Grown tree) {parent child : NodeId}
    (hparent : tree.parent? child = some parent) : parent < child :=
  h.ordersParents parent child hparent

theorem Built.parent_le {tree : CodeTree} (h : Built tree) {parent child : NodeId}
    (hparent : tree.parent? child = some parent) : parent ≤ child :=
  h.ordersParents parent child hparent

/-- The node `steps` levels above a node. -/
def above? (tree : CodeTree) : (steps : Nat) → NodeId → Option NodeId
  | 0, id => some id
  | steps + 1, id => (tree.parent? id).bind (tree.above? steps)

theorem above?_succ (tree : CodeTree) (steps : Nat) (id : NodeId) :
    tree.above? (steps + 1) id = (tree.above? steps id).bind tree.parent? := by
  induction steps generalizing id with
  | zero => cases h : tree.parent? id <;> simp [above?, h]
  | succ steps ih =>
      rw [above?, above?]
      cases tree.parent? id with
      | none => rfl
      | some parent => exact ih parent

theorem above?_eq_none_of_root {tree : CodeTree} {low high : Nat} {id root : NodeId}
    (hroot : tree.above? low id = some root) (hparent : tree.parent? root = none)
    (hlt : low < high) : tree.above? high id = none := by
  induction high with
  | zero => exact absurd hlt (Nat.not_lt_zero low)
  | succ high ih =>
      rw [above?_succ]
      rcases Nat.lt_succ_iff_lt_or_eq.mp hlt with hlt | rfl
      · rw [ih hlt, Option.bind_none]
      · rw [hroot, Option.bind_some, hparent]

/-- The numbers go down on the way up to a root: a node that is its own parent is below none. -/
theorem Built.steps_le {tree : CodeTree} (h : Built tree) {steps : Nat} {id root : NodeId}
    (habove : tree.above? steps id = some root) (hroot : tree.parent? root = none) :
    steps ≤ id := by
  induction steps generalizing id with
  | zero => exact Nat.zero_le id
  | succ steps ih =>
      obtain ⟨parent, hparent, hrest⟩ := Option.bind_eq_some_iff.mp habove
      have hne : parent ≠ id := by
        rintro rfl
        rw [above?_eq_none_of_root hrest hroot (Nat.lt_succ_self steps)] at habove
        cases habove
      exact Nat.lt_of_le_of_lt (ih hrest) (Nat.lt_of_le_of_ne (h.parent_le hparent) hne)

/-- The row `steps` levels below a row. -/
def rowBelow (tree : CodeTree) : (steps : Nat) → List NodeId → List NodeId
  | 0, row => row
  | steps + 1, row => tree.rowBelow steps (row.flatMap tree.children)

theorem rowBelow_nil (tree : CodeTree) (steps : Nat) : tree.rowBelow steps [] = [] := by
  induction steps with
  | zero => rfl
  | succ steps ih => exact ih

theorem flatten_rows (tree : CodeTree) (count : Nat) (row : List NodeId) :
    (tree.rows count row).flatten =
      (List.range count).flatMap fun steps => tree.rowBelow steps row := by
  induction count generalizing row with
  | zero => rfl
  | succ count ih =>
      rw [List.range_succ_eq_map, List.flatMap_cons, List.flatMap_map]
      cases row with
      | nil => simp [rows, rowBelow_nil]
      | cons id row =>
          rw [rows, List.flatten_cons, ih]
          · rfl
          · simp

namespace Coherent

variable {tree : CodeTree}

theorem mem_roots_iff_parent (h : Coherent tree) {id : NodeId} {node : Node}
    (hnode : tree.node? id = some node) : id ∈ tree.roots ↔ node.parent = none := by
  rw [h.mem_roots_iff, parent?, hnode]
  simp [lt_size_of_node? hnode]

theorem mem_rowBelow_iff (h : Coherent tree) {steps : Nat} {row : List NodeId} {id : NodeId} :
    id ∈ tree.rowBelow steps row ↔ ∃ top ∈ row, tree.above? steps id = some top := by
  induction steps generalizing row with
  | zero => simp [rowBelow, above?]
  | succ steps ih =>
      rw [rowBelow, ih]
      simp only [List.mem_flatMap, h.mem_children_iff, above?_succ, Option.bind_eq_some_iff]
      constructor
      · rintro ⟨child, ⟨top, htop, hparent⟩, habove⟩
        exact ⟨top, htop, child, habove, hparent⟩
      · rintro ⟨top, htop, child, habove, hparent⟩
        exact ⟨child, ⟨top, htop, hparent⟩, habove⟩

theorem nodup_flatMap_children (h : Coherent tree) {row : List NodeId} (hrow : row.Nodup) :
    (row.flatMap tree.children).Nodup := by
  rw [List.nodup_flatMap]
  refine ⟨fun parent _ => (h.children_sorted parent).imp Nat.ne_of_lt, ?_⟩
  refine hrow.imp ?_
  intro left right hne child hleft hright
  rw [h.mem_children_iff] at hleft hright
  exact hne (Option.some.inj (hleft.symm.trans hright))

theorem nodup_rowBelow (h : Coherent tree) {row : List NodeId} (hrow : row.Nodup) (steps : Nat) :
    (tree.rowBelow steps row).Nodup := by
  induction steps generalizing row with
  | zero => exact hrow
  | succ steps ih => exact ih (h.nodup_flatMap_children hrow)

theorem nodup_roots (h : Coherent tree) : tree.roots.Nodup :=
  h.roots_sorted.imp Nat.ne_of_lt

theorem mem_levelOrder_iff_above (h : Coherent tree) {id : NodeId} :
    id ∈ tree.levelOrder ↔
      ∃ steps < tree.size, ∃ root ∈ tree.roots, tree.above? steps id = some root := by
  rw [levelOrder, flatten_rows]
  simp only [List.mem_flatMap, List.mem_range, h.mem_rowBelow_iff]

theorem nodup_levelOrder (h : Coherent tree) : tree.levelOrder.Nodup := by
  rw [levelOrder, flatten_rows, List.nodup_flatMap]
  refine ⟨fun steps _ => h.nodup_rowBelow h.nodup_roots steps, ?_⟩
  refine List.pairwise_lt_range.imp ?_
  intro low high hlt id hlow hhigh
  obtain ⟨root, hroot, habove⟩ := h.mem_rowBelow_iff.mp hlow
  obtain ⟨top, -, habove'⟩ := h.mem_rowBelow_iff.mp hhigh
  rw [above?_eq_none_of_root habove ((h.mem_roots_iff root).mp hroot).2 hlt] at habove'
  simp at habove'

theorem lt_size_of_above (h : Coherent tree) {steps : Nat} {id root : NodeId}
    (hroot : root ∈ tree.roots) (habove : tree.above? steps id = some root) : id < tree.size := by
  cases steps with
  | zero =>
      cases habove
      exact ((h.mem_roots_iff id).mp hroot).1
  | succ steps =>
      obtain ⟨parent, hparent, -⟩ := Option.bind_eq_some_iff.mp habove
      exact lt_size_of_parent? hparent

theorem lt_size_of_mem_levelOrder (h : Coherent tree) {id : NodeId} (hid : id ∈ tree.levelOrder) :
    id < tree.size := by
  obtain ⟨steps, -, root, hroot, habove⟩ := h.mem_levelOrder_iff_above.mp hid
  exact h.lt_size_of_above hroot habove

end Coherent

theorem Built.mem_levelOrder_of_above {tree : CodeTree} (h : Built tree) {steps : Nat}
    {id root : NodeId} (hroot : root ∈ tree.roots) (habove : tree.above? steps id = some root) :
    id ∈ tree.levelOrder := by
  have hsteps := h.steps_le habove ((h.coherent.mem_roots_iff root).mp hroot).2
  have hid := h.coherent.lt_size_of_above hroot habove
  exact h.coherent.mem_levelOrder_iff_above.mpr
    ⟨steps, Nat.lt_of_le_of_lt hsteps hid, root, hroot, habove⟩

theorem Built.mem_levelOrder_of_root {tree : CodeTree} (h : Built tree) {root : NodeId}
    (hroot : root ∈ tree.roots) : root ∈ tree.levelOrder :=
  @Built.mem_levelOrder_of_above _ h 0 root root hroot rfl

theorem Built.mem_levelOrder_of_parent {tree : CodeTree} (h : Built tree) {parent child : NodeId}
    (hparent : tree.parent? child = some parent) (hmem : parent ∈ tree.levelOrder) :
    child ∈ tree.levelOrder := by
  obtain ⟨steps, -, root, hroot, habove⟩ := h.coherent.mem_levelOrder_iff_above.mp hmem
  refine @Built.mem_levelOrder_of_above _ h (steps + 1) child root hroot ?_
  rw [above?, hparent]
  exact habove

theorem Built.parent_lt_of_mem_levelOrder {tree : CodeTree} (h : Built tree)
    {parent child : NodeId} (hparent : tree.parent? child = some parent)
    (hmem : parent ∈ tree.levelOrder) : parent < child := by
  refine Nat.lt_of_le_of_ne (h.parent_le hparent) ?_
  rintro rfl
  obtain ⟨steps, -, root, hroot, habove⟩ := h.coherent.mem_levelOrder_iff_above.mp hmem
  have hnone := above?_eq_none_of_root habove ((h.coherent.mem_roots_iff root).mp hroot).2
    (Nat.lt_succ_self steps)
  rw [above?, hparent, Option.bind_some, habove] at hnone
  cases hnone

theorem Grown.exists_root_above {tree : CodeTree} (h : Grown tree) {id : NodeId}
    (hid : id < tree.size) :
    ∃ steps ≤ id, ∃ root ∈ tree.roots, tree.above? steps id = some root := by
  induction id using Nat.strongRecOn with
  | ind id ih =>
      cases hparent : tree.parent? id with
      | none =>
          exact ⟨0, Nat.zero_le _, id, (h.built.coherent.mem_roots_iff id).mpr ⟨hid, hparent⟩, rfl⟩
      | some parent =>
          have hlt : parent < id := h.parent_lt hparent
          obtain ⟨steps, hsteps, root, hroot, habove⟩ := ih parent hlt (Nat.lt_trans hlt hid)
          refine ⟨steps + 1, Nat.lt_of_le_of_lt hsteps hlt, root, hroot, ?_⟩
          rw [above?, hparent]
          exact habove

theorem Grown.mem_levelOrder_iff {tree : CodeTree} (h : Grown tree) {id : NodeId} :
    id ∈ tree.levelOrder ↔ id < tree.size := by
  constructor
  · exact h.built.coherent.lt_size_of_mem_levelOrder
  · intro hid
    obtain ⟨steps, hsteps, hroot⟩ := h.exists_root_above hid
    exact h.built.coherent.mem_levelOrder_iff_above.mpr
      ⟨steps, Nat.lt_of_le_of_lt hsteps hid, hroot⟩

end Lineage.CodeTree
