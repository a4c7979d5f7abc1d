import Lineage.Proofs.Juxtaposition

namespace Lineage

def Element.eraseParams (element : Element) : Element :=
  { element with params := element.params.map fun _ => [] }

def Node.eraseParams (node : Node) : Node :=
  { node with params := node.params.map fun _ => [] }

theorem Node.eq_of_eraseParams_eq {left right : Node}
    (h : left.eraseParams = right.eraseParams) (hparams : left.params = right.params) :
    left = right := by
  obtain ⟨⟨kind, name, scope, params, location⟩, parent, children, calls⟩ := left
  obtain ⟨⟨kind', name', scope', params', location'⟩, parent', children', calls'⟩ := right
  simp_all [eraseParams]

namespace CodeTree

/-- The declarations of a tree without the names of their parameters; that they have a list of them
remains. -/
def eraseParams (tree : CodeTree) : CodeTree where
  nodes := tree.nodes.map Node.eraseParams
  roots := tree.roots

theorem node?_eraseParams (tree : CodeTree) (id : NodeId) :
    tree.eraseParams.node? id = (tree.node? id).map Node.eraseParams := by
  simp [eraseParams, node?]

@[simp] theorem size_eraseParams (tree : CodeTree) : tree.eraseParams.size = tree.size := by
  simp [eraseParams, size]

theorem eraseParams_addRoot (tree : CodeTree) (element : Element) :
    (tree.addRoot element).eraseParams = tree.eraseParams.addRoot element.eraseParams := by
  refine ext_node? ?_ (by simp [eraseParams, addRoot, size]) rfl
  intro id
  rw [node?_eraseParams, node?_addRoot, node?_addRoot, node?_eraseParams, size_eraseParams]
  split <;> rfl

theorem eraseParams_addChild (tree : CodeTree) (parent : NodeId) (element : Element) :
    (tree.addChild parent element).map eraseParams =
      tree.eraseParams.addChild parent element.eraseParams := by
  cases hadd : tree.addChild parent element with
  | none =>
      rw [Option.map_none, eq_comm, ← Option.not_isSome_iff_eq_none, addChild_isSome_iff,
        size_eraseParams, ← tree.addChild_isSome_iff parent element, hadd]
      simp
  | some added =>
      have hparent : parent ≤ tree.eraseParams.size := by
        rw [size_eraseParams]
        exact (addChild_eq_some_iff.mp hadd).1
      obtain ⟨erased, herased⟩ := Option.isSome_iff_exists.mp
        ((tree.eraseParams.addChild_isSome_iff parent element.eraseParams).mpr hparent)
      rw [herased, Option.map_some]
      congr 1
      refine ext_node? ?_ ?_ ?_
      · intro id
        rw [node?_eraseParams, node?_addChild hadd, node?_addChild herased, node?_eraseParams,
          size_eraseParams]
        by_cases hid : id = tree.size
        · rw [if_pos hid, if_pos hid, Option.map_some, Option.map_some, Option.map_some]
          split <;> rfl
        · rw [if_neg hid, if_neg hid, Option.map_map, Option.map_map]
          congr 1
          funext node
          simp only [Function.comp_apply]
          split <;> rfl
      · rw [roots_addChild herased]
        change added.roots = tree.roots
        rw [roots_addChild hadd]
      · rw [tokens_addChild herased]
        rfl

theorem eraseParams_addCall (tree : CodeTree) (caller callee : NodeId) :
    (tree.addCall caller callee).eraseParams = tree.eraseParams.addCall caller callee := by
  have hnew : tree.eraseParams.isNewCall caller callee = tree.isNewCall caller callee := by
    rw [isNewCall, isNewCall, size_eraseParams, node?_eraseParams, Option.any_map]
    rfl
  refine ext_node? ?_ ?_ ?_
  · intro id
    rw [node?_eraseParams, node?_addCall, node?_addCall, node?_eraseParams, hnew, Option.map_map,
      Option.map_map]
    congr 1
    funext node
    simp only [Function.comp_apply]
    split <;> rfl
  · rw [roots_addCall]
    exact roots_addCall tree caller callee
  · rw [tokens_addCall]
    rfl

end CodeTree

end Lineage
