import Lineage.Proofs.Construction

/-!
Code trees side by side. The nodes of the second tree keep their order and refer to each other as
before, with all numbers shifted past those of the first. Building on the second tree and then
putting it beside the first is the same as building on the whole.
-/

namespace Lineage

/-- The node in a tree that stands `base` numbers further on. -/
def Node.shift (base : Nat) (node : Node) : Node :=
  { node with
    parent := node.parent.map (base + ·)
    children := node.children.map (base + ·)
    calls := node.calls.map (base + ·) }

namespace CodeTree

/-- Two trees as one; files of the second one replace the tokens of the first. -/
def beside (left right : CodeTree) : CodeTree where
  nodes := left.nodes ++ right.nodes.map (Node.shift left.size)
  roots := left.roots ++ right.roots.map (left.size + ·)
  tokens :=
    right.tokens.entries.foldl (fun tokens entry => tokens.insert entry.1 entry.2) left.tokens

theorem ext_node? {left right : CodeTree} (hnode : ∀ id, left.node? id = right.node? id)
    (hroots : left.roots = right.roots) (htokens : left.tokens = right.tokens) : left = right := by
  obtain ⟨nodes, roots, tokens⟩ := left
  have hnodes : nodes = right.nodes := Array.ext_getElem? hnode
  cases right
  cases hnodes
  cases hroots
  cases htokens
  rfl

@[simp] theorem size_beside (left right : CodeTree) :
    (left.beside right).size = left.size + right.size := by
  simp [beside, size]

theorem node?_beside_of_lt {left : CodeTree} (right : CodeTree) {id : NodeId}
    (h : id < left.size) : (left.beside right).node? id = left.node? id :=
  Array.getElem?_append_left h

theorem node?_beside_add (left right : CodeTree) (id : NodeId) :
    (left.beside right).node? (left.size + id) = (right.node? id).map (Node.shift left.size) := by
  simp [beside, node?, size, Array.getElem?_append_right (Nat.le_add_right _ _)]

theorem ext_beside {left right tree : CodeTree}
    (hleft : ∀ id < left.size, tree.node? id = left.node? id)
    (hright : ∀ id, tree.node? (left.size + id) = (right.node? id).map (Node.shift left.size))
    (hroots : tree.roots = left.roots ++ right.roots.map (left.size + ·))
    (htokens : tree.tokens = (left.beside right).tokens) : tree = left.beside right := by
  refine ext_node? ?_ hroots htokens
  intro id
  rcases Nat.lt_or_ge id left.size with hlt | hle
  · rw [hleft id hlt, node?_beside_of_lt right hlt]
  · obtain ⟨offset, rfl⟩ := Nat.exists_eq_add_of_le hle
    rw [hright, node?_beside_add]

theorem beside_empty (left : CodeTree) : left.beside {} = left := by
  simp [beside]

theorem addRoot_beside (left right : CodeTree) (element : Element) :
    (left.beside right).addRoot element = left.beside (right.addRoot element) := by
  refine ext_beside ?_ ?_ ?_ rfl
  · intro id hid
    rw [node?_addRoot, if_neg, node?_beside_of_lt right hid]
    rw [size_beside]
    exact Nat.ne_of_lt (Nat.lt_add_right _ hid)
  · intro id
    rw [node?_addRoot, node?_addRoot, size_beside, node?_beside_add]
    by_cases hid : id = right.size
    · simp [hid, Node.shift]
    · rw [if_neg hid, if_neg (fun heq => hid (Nat.add_left_cancel heq))]
  · simp [addRoot, beside, size]

theorem addChild_beside (left right : CodeTree) (parent : NodeId) (element : Element) :
    (left.beside right).addChild (left.size + parent) element =
      (right.addChild parent element).map left.beside := by
  have hbound : left.size + parent ≤ (left.beside right).size ↔ parent ≤ right.size := by
    rw [size_beside]
    exact Nat.add_le_add_iff_left
  cases hright : right.addChild parent element with
  | none =>
      rw [Option.map_none, ← Option.not_isSome_iff_eq_none, addChild_isSome_iff, hbound,
        ← right.addChild_isSome_iff parent element, hright]
      simp
  | some right' =>
      have hparent : parent ≤ right.size := (addChild_eq_some_iff.mp hright).1
      obtain ⟨tree, htree⟩ := Option.isSome_iff_exists.mp
        (((left.beside right).addChild_isSome_iff _ element).mpr (hbound.mpr hparent))
      rw [htree, Option.map_some]
      congr 1
      refine ext_beside ?_ ?_ ?_ ?_
      · intro id hid
        have hfresh : id ≠ (left.beside right).size := by
          rw [size_beside]
          exact Nat.ne_of_lt (Nat.lt_add_right _ hid)
        have hother : id ≠ left.size + parent := Nat.ne_of_lt (Nat.lt_add_right _ hid)
        rw [node?_addChild htree, if_neg hfresh, node?_beside_of_lt right hid]
        simp [hother]
      · intro id
        rw [node?_addChild htree, node?_addChild hright, size_beside, node?_beside_add]
        simp only [Nat.add_left_cancel_iff]
        -- The new node can be its own parent, so both tests are needed.
        by_cases hid : id = right.size
        · by_cases hself : id = parent
          · simp only [if_pos hid, if_pos hself, Option.map_some]
            simp [Node.shift]
          · simp only [if_pos hid, if_neg hself, Option.map_some]
            simp [Node.shift]
        · simp only [if_neg hid, Option.map_map]
          congr 1
          funext node
          by_cases hself : id = parent <;> simp [hself, Node.shift]
      · simp [roots_addChild htree, roots_addChild hright, beside]
      · simp only [tokens_addChild htree, tokens_addChild hright, beside]

theorem isNewCall_beside (left right : CodeTree) (caller callee : NodeId) :
    (left.beside right).isNewCall (left.size + caller) (left.size + callee) =
      right.isNewCall caller callee := by
  rw [isNewCall, isNewCall, size_beside, node?_beside_add]
  congr 1
  · simp
  · cases right.node? caller with
    | none => rfl
    | some node => simp [Node.shift]

theorem addCall_beside (left right : CodeTree) (caller callee : NodeId) :
    (left.beside right).addCall (left.size + caller) (left.size + callee) =
      left.beside (right.addCall caller callee) := by
  refine ext_beside ?_ ?_ ?_ ?_
  · intro id hid
    have hother : id ≠ left.size + caller := Nat.ne_of_lt (Nat.lt_add_right _ hid)
    rw [node?_addCall, node?_beside_of_lt right hid]
    simp [hother]
  · intro id
    rw [node?_addCall, node?_addCall, node?_beside_add, isNewCall_beside]
    simp only [Nat.add_left_cancel_iff, Option.map_map]
    congr 1
    funext node
    by_cases hnew : id = caller ∧ right.isNewCall caller callee = true
    · simp [hnew, Node.shift]
    · simp [hnew, Node.shift]
  · simp [beside]
  · simp only [tokens_addCall, beside]

theorem setTokens_beside (left : CodeTree) {right : CodeTree} (h : right.tokens = {}) (file : Path)
    (index : TokenIndex) :
    (left.beside right).setTokens file index = left.beside (right.setTokens file index) := by
  simp [setTokens, beside, size, h, PathMap.insert, PathMap.put]

section Blocks

variable {ε : Type} (part : ε → CodeTree)

/-- The trees of all entries beside `tree`, in order. -/
def besideAll (tree : CodeTree) (entries : List ε) : CodeTree :=
  entries.foldl (fun tree entry => tree.beside (part entry)) tree

/-- Each entry with the number of the first node of its tree, if the first of all is `start`. -/
def blocks : (start : Nat) → (entries : List ε) → List (Nat × ε)
  | _, [] => []
  | start, entry :: rest => (start, entry) :: blocks (start + (part entry).size) rest

theorem map_snd_blocks (start : Nat) (entries : List ε) :
    (blocks part start entries).map Prod.snd = entries := by
  induction entries generalizing start with
  | nil => rfl
  | cons entry rest ih => rw [blocks, List.map_cons, ih]

theorem node?_besideAll_of_lt {tree : CodeTree} (entries : List ε) {id : NodeId}
    (h : id < tree.size) : (tree.besideAll part entries).node? id = tree.node? id := by
  induction entries generalizing tree with
  | nil => rfl
  | cons entry rest ih =>
      have hid : id < (tree.beside (part entry)).size := by
        rw [size_beside]
        exact Nat.lt_add_right _ h
      exact (ih hid).trans (node?_beside_of_lt (part entry) h)

theorem node?_besideAll_of_mem_blocks {tree : CodeTree} {entries : List ε} {start : Nat} {entry : ε}
    (hblock : (start, entry) ∈ blocks part tree.size entries) {offset : Nat}
    (hoffset : offset < (part entry).size) :
    (tree.besideAll part entries).node? (start + offset) =
      ((part entry).node? offset).map (Node.shift start) := by
  induction entries generalizing tree with
  | nil => cases hblock
  | cons first rest ih =>
      rcases List.mem_cons.mp hblock with heq | hblock
      · cases heq
        have hid : tree.size + offset < (tree.beside (part entry)).size := by
          rw [size_beside]
          exact Nat.add_lt_add_left hoffset _
        exact (node?_besideAll_of_lt part rest hid).trans (node?_beside_add tree _ offset)
      · rw [← size_beside] at hblock
        exact ih hblock

theorem exists_mem_blocks {tree : CodeTree} {entries : List ε} {id : NodeId}
    (hle : tree.size ≤ id) (hlt : id < (tree.besideAll part entries).size) :
    ∃ start entry offset, (start, entry) ∈ blocks part tree.size entries ∧
      offset < (part entry).size ∧ id = start + offset := by
  induction entries generalizing tree with
  | nil => exact absurd hlt (Nat.not_lt_of_le hle)
  | cons first rest ih =>
      rcases Nat.lt_or_ge id (tree.size + (part first).size) with hfirst | hrest
      · obtain ⟨offset, rfl⟩ := Nat.exists_eq_add_of_le hle
        exact ⟨tree.size, first, offset, List.mem_cons_self, Nat.lt_of_add_lt_add_left hfirst, rfl⟩
      · rw [← size_beside] at hrest
        obtain ⟨start, entry, offset, hblock, hoffset, rfl⟩ := ih hrest hlt
        rw [size_beside] at hblock
        exact ⟨start, entry, offset, List.mem_cons_of_mem _ hblock, hoffset, rfl⟩

end Blocks

end CodeTree

end Lineage
