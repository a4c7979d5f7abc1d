import Mathlib.Data.List.Perm.Basic
import Lineage.Proofs.Construction

namespace Lineage.CodeTree

/-- The depth-first order of what hangs below a row of nodes, the row included. -/
inductive PreOrder (tree : CodeTree) : (row order : List NodeId) → Prop
  | nil : PreOrder tree [] []
  | cons {id : NodeId} {rest below after : List NodeId} :
      PreOrder tree (tree.children id) below → PreOrder tree rest after →
      PreOrder tree (id :: rest) (id :: (below ++ after))

theorem PreOrder.leaf {tree : CodeTree} {id : NodeId} {rest after : List NodeId}
    (hleaf : tree.children id = []) (hafter : tree.PreOrder rest after) :
    tree.PreOrder (id :: rest) (id :: after) := by
  have hbelow : tree.PreOrder (tree.children id) [] := by
    rw [hleaf]
    exact .nil
  exact .cons hbelow hafter

theorem PreOrder.unique {tree : CodeTree} {row order order' : List NodeId}
    (h : tree.PreOrder row order) (h' : tree.PreOrder row order') : order = order' := by
  induction h generalizing order' with
  | nil =>
      cases h'
      rfl
  | cons _ _ ihBelow ihAfter =>
      cases h' with
      | cons hbelow hafter => rw [ihBelow hbelow, ihAfter hafter]

theorem PreOrder.row_sublist {tree : CodeTree} {row order : List NodeId}
    (h : tree.PreOrder row order) : row.Sublist order := by
  induction h with
  | nil => exact .slnil
  | cons _ _ _ ih => exact (ih.trans (List.sublist_append_right _ _)).cons_cons _

theorem PreOrder.append {tree : CodeTree} {left right order order' : List NodeId}
    (hleft : tree.PreOrder left order) (hright : tree.PreOrder right order') :
    tree.PreOrder (left ++ right) (order ++ order') := by
  induction hleft with
  | nil => exact hright
  | cons hbelow _ _ ih =>
      rw [List.cons_append, List.cons_append, List.append_assoc]
      exact .cons hbelow ih

theorem PreOrder.exists_append {tree : CodeTree} {left right order : List NodeId}
    (h : tree.PreOrder (left ++ right) order) :
    ∃ first second, tree.PreOrder left first ∧ tree.PreOrder right second ∧
      order = first ++ second := by
  induction left generalizing order with
  | nil => exact ⟨[], order, .nil, h, rfl⟩
  | cons id rest ih =>
      rw [List.cons_append] at h
      cases h with
      | @cons _ _ below after hbelow hafter =>
          obtain ⟨first, second, hfirst, hsecond, rfl⟩ := ih hafter
          refine ⟨id :: (below ++ first), second, .cons hbelow hfirst, hsecond, ?_⟩
          rw [List.cons_append, List.append_assoc]

theorem exists_preOrder_of_children {tree : CodeTree} {row : List NodeId}
    (h : ∀ id ∈ row, ∃ below, tree.PreOrder (tree.children id) below) :
    ∃ order, tree.PreOrder row order := by
  induction row with
  | nil => exact ⟨[], .nil⟩
  | cons id rest ih =>
      obtain ⟨hid, hrest⟩ := List.forall_mem_cons.mp h
      obtain ⟨below, hbelow⟩ := hid
      obtain ⟨after, hafter⟩ := ih hrest
      exact ⟨_, .cons hbelow hafter⟩

/-- A row has a depth-first order when it and all below it are good, where the children of a good
node are younger than it. -/
theorem exists_preOrder_of_younger {tree : CodeTree} {good : NodeId → Prop}
    (hgood : ∀ id, good id → ∀ child ∈ tree.children id, id < child ∧ good child)
    {row : List NodeId} (hrow : ∀ id ∈ row, good id) : ∃ order, tree.PreOrder row order := by
  have hbelow : ∀ room id, good id → tree.size ≤ id + room →
      ∃ below, tree.PreOrder (tree.children id) below := by
    -- Children are younger than their parent, so there is less room above them.
    intro room
    induction room with
    | zero =>
        intro id _ hroom
        have hnone : tree.node? id = none := node?_eq_none_of_size_le hroom
        have hchildren : tree.children id = [] := by
          rw [children, hnone]
          rfl
        rw [hchildren]
        exact ⟨[], .nil⟩
    | succ room ih =>
        intro id hid hroom
        apply exists_preOrder_of_children
        intro child hchild
        obtain ⟨hlt, hgoodChild⟩ := hgood id hid child hchild
        apply ih child hgoodChild
        calc
          tree.size ≤ id + 1 + room := by rwa [Nat.add_right_comm]
          _ ≤ child + room := Nat.add_le_add_right hlt room
  apply exists_preOrder_of_children
  intro id hid
  exact hbelow tree.size id (hrow id hid) (Nat.le_add_left _ _)

theorem Grown.exists_preOrder {tree : CodeTree} (h : tree.Grown) (row : List NodeId) :
    ∃ order, tree.PreOrder row order := by
  refine @exists_preOrder_of_younger tree (fun _ => True) ?_ row fun _ _ => trivial
  intro id _ child hchild
  exact ⟨h.parent_lt ((h.built.coherent.mem_children_iff id child).mp hchild), trivial⟩

theorem Built.exists_preOrder {tree : CodeTree} (h : tree.Built) :
    ∃ order, tree.PreOrder tree.roots order := by
  refine @exists_preOrder_of_younger tree (· ∈ tree.levelOrder) ?_ tree.roots
    fun root hroot => h.mem_levelOrder_of_root hroot
  intro id hid child hchild
  have hparent := (h.coherent.mem_children_iff id child).mp hchild
  exact ⟨h.parent_lt_of_mem_levelOrder hparent hid, h.mem_levelOrder_of_parent hparent hid⟩

theorem rowBelow_append (tree : CodeTree) (steps : Nat) (left right : List NodeId) :
    tree.rowBelow steps (left ++ right) =
      tree.rowBelow steps left ++ tree.rowBelow steps right := by
  induction steps generalizing left right with
  | zero => rfl
  | succ steps ih => rw [rowBelow, List.flatMap_append, ih, rowBelow, rowBelow]

theorem PreOrder.rows_perm {tree : CodeTree} {row order : List NodeId}
    (h : tree.PreOrder row order) :
    ∃ depth, ∀ count, depth ≤ count →
      ((List.range count).flatMap fun steps => tree.rowBelow steps row).Perm order := by
  induction h with
  | nil =>
      refine ⟨0, ?_⟩
      intro count _
      simp [rowBelow_nil]
  | @cons id rest below after _ _ ihBelow ihAfter =>
      obtain ⟨depth, hbelow⟩ := ihBelow
      obtain ⟨depth', hafter⟩ := ihAfter
      refine ⟨max (depth + 1) depth', ?_⟩
      intro count hcount
      obtain ⟨count, rfl⟩ : ∃ lower, count = lower + 1 := ⟨count - 1, by omega⟩
      have hrows : ∀ steps, tree.rowBelow steps (id :: rest) =
          tree.rowBelow steps [id] ++ tree.rowBelow steps rest :=
        fun steps => rowBelow_append tree steps [id] rest
      have hfirst : ((List.range (count + 1)).flatMap fun steps => tree.rowBelow steps [id]) =
          id :: (List.range count).flatMap fun steps => tree.rowBelow steps (tree.children id) := by
        simp [List.range_succ_eq_map, List.flatMap_map, rowBelow]
      simp only [hrows]
      refine (List.flatMap_append_perm _ _ _).symm.trans ?_
      rw [hfirst, List.cons_append]
      apply List.Perm.cons
      exact (hbelow count (by omega)).append (hafter (count + 1) (by omega))

theorem Built.rowBelow_roots_eq_nil {tree : CodeTree} (h : tree.Built) {steps : Nat}
    (hsteps : tree.size ≤ steps) : tree.rowBelow steps tree.roots = [] := by
  apply List.eq_nil_iff_forall_not_mem.mpr
  intro id hid
  have hcoherent := h.coherent
  obtain ⟨root, hroot, habove⟩ := hcoherent.mem_rowBelow_iff.mp hid
  have hlow := h.steps_le habove ((hcoherent.mem_roots_iff root).mp hroot).2
  have hlt := hcoherent.lt_size_of_above hroot habove
  exact Nat.lt_irrefl steps (Nat.lt_of_le_of_lt hlow (Nat.lt_of_lt_of_le hlt hsteps))

theorem Built.preOrder_perm_levelOrder {tree : CodeTree} (h : tree.Built) {order : List NodeId}
    (horder : tree.PreOrder tree.roots order) : order.Perm tree.levelOrder := by
  obtain ⟨depth, hrows⟩ := horder.rows_perm
  have hlong := hrows (tree.size + depth) (Nat.le_add_left _ _)
  have hempty : ((List.range depth).map (tree.size + ·)).flatMap
      (fun steps => tree.rowBelow steps tree.roots) = [] := by
    apply List.flatMap_eq_nil_iff.mpr
    intro steps hsteps
    obtain ⟨further, -, rfl⟩ := List.mem_map.mp hsteps
    exact h.rowBelow_roots_eq_nil (Nat.le_add_right _ _)
  rw [List.range_add, List.flatMap_append, hempty, List.append_nil] at hlong
  rw [levelOrder, flatten_rows]
  exact hlong.symm

theorem Built.nodup_preOrder {tree : CodeTree} (h : tree.Built) {order : List NodeId}
    (horder : tree.PreOrder tree.roots order) : order.Nodup :=
  (h.preOrder_perm_levelOrder horder).nodup_iff.mpr h.coherent.nodup_levelOrder

theorem Grown.nodup_preOrder {tree : CodeTree} (h : tree.Grown) {order : List NodeId}
    (horder : tree.PreOrder tree.roots order) : order.Nodup :=
  h.built.nodup_preOrder horder

theorem Grown.mem_preOrder_iff {tree : CodeTree} (h : tree.Grown) {order : List NodeId}
    (horder : tree.PreOrder tree.roots order) {id : NodeId} : id ∈ order ↔ id < tree.size :=
  (h.built.preOrder_perm_levelOrder horder).mem_iff.trans h.mem_levelOrder_iff

end Lineage.CodeTree
