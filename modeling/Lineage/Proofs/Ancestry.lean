import Mathlib.Data.List.Induction
import Lineage.Proofs.BuilderRuns

/-!
The way up from a node. A new child is in the tree by the time its parent is looked up, so the
number it is about to get is taken for that of a parent, and nothing else outside the tree is. From
such a node there is no way up to a root, nor from anything below it; from all others there is.
-/

namespace Lineage.CodeTree

section Climbing

/-- Going up from a node, parent by parent, comes to an end after the listed nodes. -/
inductive Climbs (tree : CodeTree) : NodeId → List NodeId → Prop
  | root {id : NodeId} : tree.parent? id = none → Climbs tree id []
  | step {id parent : NodeId} {above : List NodeId} : tree.parent? id = some parent →
      Climbs tree parent above → Climbs tree id (parent :: above)

/-- The way up from a node leads to one that is its own parent. -/
def Stuck (tree : CodeTree) (id : NodeId) : Prop :=
  ∃ steps own, tree.above? steps id = some own ∧ tree.parent? own = some own

variable {tree : CodeTree} {id parent : NodeId} {ids : List NodeId}

theorem Stuck.of_parent (hparent : tree.parent? id = some parent) (h : tree.Stuck parent) :
    tree.Stuck id := by
  obtain ⟨steps, own, habove, hown⟩ := h
  refine ⟨steps + 1, own, ?_, hown⟩
  rw [above?, hparent]
  exact habove

theorem Stuck.above (hparent : tree.parent? id = some parent) (h : tree.Stuck id) :
    tree.Stuck parent := by
  obtain ⟨steps, own, habove, hown⟩ := h
  cases steps with
  | zero =>
      cases habove
      cases hparent.symm.trans hown
      exact ⟨0, id, rfl, hown⟩
  | succ steps =>
      rw [above?, hparent] at habove
      exact ⟨steps, own, habove, hown⟩

theorem Climbs.not_stuck (h : tree.Climbs id ids) : ¬tree.Stuck id := by
  induction h with
  | root hroot =>
      rintro ⟨steps, own, habove, hown⟩
      cases steps with
      | zero =>
          cases habove
          cases hroot.symm.trans hown
      | succ steps =>
          rw [above?, hroot] at habove
          cases habove
  | step hparent _ ih => exact fun hstuck => ih (hstuck.above hparent)

theorem Built.parent_lt_of_not_stuck (h : tree.Built) (hparent : tree.parent? id = some parent)
    (hid : ¬tree.Stuck id) : parent < id := by
  refine Nat.lt_of_le_of_ne (h.parent_le hparent) ?_
  rintro rfl
  exact hid ⟨0, parent, rfl, hparent⟩

theorem Built.exists_climbs (h : tree.Built) (hid : ¬tree.Stuck id) :
    ∃ ids, tree.Climbs id ids := by
  induction id using Nat.strongRecOn with
  | ind id ih =>
      cases hparent : tree.parent? id with
      | none => exact ⟨[], .root hparent⟩
      | some parent =>
          have hlt := h.parent_lt_of_not_stuck hparent hid
          obtain ⟨above, habove⟩ := ih parent hlt fun hstuck => hid (hstuck.of_parent hparent)
          exact ⟨parent :: above, .step hparent habove⟩

theorem Climbs.eq_ancestors (hbuilt : tree.Built) (h : tree.Climbs id ids) :
    ids = tree.ancestors id := by
  induction h with
  | root hroot => rw [ancestors, hroot]
  | @step id parent above hparent hclimbs ih =>
      have hlt := hbuilt.parent_lt_of_not_stuck hparent (Climbs.step hparent hclimbs).not_stuck
      rw [ancestors, hparent, ih]
      exact (if_pos hlt).symm

theorem Climbs.getLastD_mem_roots (hbuilt : tree.Built) (h : tree.Climbs id ids)
    (hid : id < tree.size) : ids.getLastD id ∈ tree.roots := by
  induction h with
  | root hroot => exact (hbuilt.coherent.mem_roots_iff _).mpr ⟨hid, hroot⟩
  | @step id parent above hparent _ ih =>
      rw [List.getLastD_cons]
      exact ih (Nat.lt_of_le_of_lt (hbuilt.parent_le hparent) hid)

theorem exists_climbs_of_above {steps : Nat} {root : NodeId}
    (habove : tree.above? steps id = some root) (hroot : tree.parent? root = none) :
    ∃ ids, tree.Climbs id ids := by
  induction steps generalizing id with
  | zero =>
      cases habove
      exact ⟨[], .root hroot⟩
  | succ steps ih =>
      obtain ⟨parent, hparent, hrest⟩ := Option.bind_eq_some_iff.mp habove
      obtain ⟨above, hclimbs⟩ := ih hrest
      exact ⟨parent :: above, .step hparent hclimbs⟩

theorem Climbs.mem_levelOrder (hbuilt : tree.Built) (h : tree.Climbs id ids)
    (hid : id < tree.size) : id ∈ tree.levelOrder := by
  induction h with
  | root hroot =>
      exact hbuilt.mem_levelOrder_of_root ((hbuilt.coherent.mem_roots_iff _).mpr ⟨hid, hroot⟩)
  | step hparent _ ih =>
      exact hbuilt.mem_levelOrder_of_parent hparent
        (ih (Nat.lt_of_le_of_lt (hbuilt.parent_le hparent) hid))

theorem Built.not_stuck_of_mem_levelOrder (h : tree.Built) (hid : id ∈ tree.levelOrder) :
    ¬tree.Stuck id := by
  obtain ⟨steps, -, root, hroot, habove⟩ := h.coherent.mem_levelOrder_iff_above.mp hid
  obtain ⟨ids, hclimbs⟩ :=
    exists_climbs_of_above habove ((h.coherent.mem_roots_iff root).mp hroot).2
  exact hclimbs.not_stuck

/-- The nodes that are reached from the roots are those from which there is a way up to one. -/
theorem Built.mem_levelOrder_iff_not_stuck (h : tree.Built) (hid : id < tree.size) :
    id ∈ tree.levelOrder ↔ ¬tree.Stuck id := by
  refine ⟨h.not_stuck_of_mem_levelOrder, ?_⟩
  intro hfree
  obtain ⟨ids, hclimbs⟩ := h.exists_climbs hfree
  exact hclimbs.mem_levelOrder h hid

end Climbing

section Runs

variable {tree tree' : CodeTree} {operation : Operation} {operations : List Operation}

theorem exists_run_of_append {front back : List Operation}
    (h : tree.run? (front ++ back) = some tree') :
    ∃ middle, tree.run? front = some middle ∧ middle.run? back = some tree' := by
  rw [run?, List.foldlM_append] at h
  exact Option.bind_eq_some_iff.mp h

theorem exists_perform_of_cons {rest : List Operation}
    (h : tree.run? (operation :: rest) = some tree') :
    ∃ next, operation.perform? tree = some next ∧ next.run? rest = some tree' := by
  rw [run?, List.foldlM_cons] at h
  exact Option.bind_eq_some_iff.mp h

theorem run_induction {motive : List Operation → CodeTree → Prop}
    (hrun : tree.run? operations = some tree') (hstart : motive [] tree)
    (hstep : ∀ done operation current next, motive done current →
      operation.perform? current = some next → motive (done ++ [operation]) next) :
    motive operations tree' := by
  induction operations using List.reverseRecOn generalizing tree' with
  | nil =>
      cases hrun
      exact hstart
  | append_singleton done operation ih =>
      obtain ⟨current, hdone, hlast⟩ := exists_run_of_append hrun
      obtain ⟨next, hnext, hnone⟩ := exists_perform_of_cons hlast
      cases hnone
      exact hstep done operation current _ (ih hdone) hnext

theorem Built.perform (h : tree.Built) (hperform : operation.perform? tree = some tree') :
    tree'.Built := by
  cases operation with
  | root element =>
      cases hperform
      exact h.addRoot element
  | child parent element => exact h.addChild hperform
  | call caller callee =>
      cases hperform
      exact h.addCall caller callee
  | tokens file index =>
      cases hperform
      exact h.setTokens file index

theorem built_run (h : run? {} operations = some tree) : tree.Built := by
  refine run_induction (motive := fun _ current => current.Built) h .empty ?_
  intro _ operation current next hcurrent hperform
  exact hcurrent.perform hperform

/-- A tree with `count` more nodes, in which the parents of the others are as they were. -/
structure Prolongs (tree tree' : CodeTree) (count : Nat) : Prop where
  size_eq : tree'.size = tree.size + count
  parent?_eq : ∀ id < tree.size, tree'.parent? id = tree.parent? id

theorem prolongs_perform (h : operation.perform? tree = some tree') :
    tree.Prolongs tree' operation.created.length := by
  cases operation with
  | root element =>
      cases h
      exact ⟨tree.size_addRoot element, fun id _ => tree.parent?_addRoot element id⟩
  | child parent element =>
      refine ⟨size_addChild h, ?_⟩
      intro id hid
      rw [parent?_addChild h, if_neg (Nat.ne_of_lt hid)]
  | call caller callee =>
      cases h
      exact ⟨tree.size_addCall caller callee, fun id _ => tree.parent?_addCall caller callee id⟩
  | tokens file index =>
      cases h
      exact ⟨rfl, fun _ _ => rfl⟩

theorem prolongs_run (h : tree.run? operations = some tree') :
    tree.Prolongs tree' (operations.flatMap Operation.created).length := by
  refine run_induction (motive := fun done current =>
    tree.Prolongs current (done.flatMap Operation.created).length) h ⟨rfl, fun _ _ => rfl⟩ ?_
  intro done operation current next hcurrent hperform
  have hnext := prolongs_perform hperform
  constructor
  · rw [hnext.size_eq, hcurrent.size_eq, List.flatMap_append, List.length_append, Nat.add_assoc,
      List.flatMap_singleton]
  · intro id hid
    rw [hnext.parent?_eq id (hcurrent.size_eq ▸ Nat.lt_add_right _ hid), hcurrent.parent?_eq id hid]

theorem stuck_of_perform (h : operation.perform? tree = some tree')
    (hparent : operation.hasParent tree.size = false) :
    tree.size < tree'.size ∧ tree'.parent? tree.size = some tree.size := by
  cases operation with
  | child parent element =>
      have hle : parent ≤ tree.size := (addChild_eq_some_iff.mp h).1
      have hge : tree.size ≤ parent := Nat.le_of_not_lt (of_decide_eq_false hparent)
      obtain rfl : parent = tree.size := Nat.le_antisymm hle hge
      rw [size_addChild h, parent?_addChild h, if_pos rfl]
      exact ⟨Nat.lt_succ_self _, rfl⟩
  | root | call | tokens => cases hparent

theorem parentsExist_of_not_stuck (h : run? {} operations = some tree)
    (hfree : ∀ id < tree.size, ¬tree.Stuck id) : ParentsExist operations := by
  rintro ⟨count, operation⟩ hentry
  obtain ⟨front, back, rfl, hcount⟩ := exists_eq_append_of_mem_timeline hentry
  obtain ⟨current, hfront, hrest⟩ := exists_run_of_append h
  obtain ⟨next, hperform, hback⟩ := exists_perform_of_cons hrest
  have hsize : current.size = count := (prolongs_run hfront).size_eq.trans hcount.symm
  have hlater := prolongs_run hback
  -- A missing parent can only be the new node itself, and no later operation moves it.
  by_contra hnot
  rw [Bool.not_eq_true, ← hsize] at hnot
  obtain ⟨hlt, hown⟩ := stuck_of_perform hperform hnot
  rw [← hlater.parent?_eq _ hlt] at hown
  refine hfree current.size ?_ ⟨0, current.size, rfl, hown⟩
  exact hlater.size_eq ▸ Nat.lt_add_right _ hlt

end Runs

theorem Grown.not_stuck {tree : CodeTree} (h : tree.Grown) (id : NodeId) : ¬tree.Stuck id := by
  rintro ⟨_, own, -, hown⟩
  exact Nat.lt_irrefl own (h.parent_lt hown)

/-- Whatever numbers a builder passes, only those above that of the new child are turned down as its
parent. The way up from a node ends at a root unless it comes to a node that is its own parent, and
there is none such exactly when each parent was there before its child. -/
theorem ways_up_end_unless_own_parent (operations : List Operation) (tree : CodeTree)
    (hrun : run? {} operations = some tree) :
    (∀ parent element, tree.addChild parent element = none ↔ tree.size < parent) ∧
      (∀ id < tree.size, (∃ ids, tree.Climbs id ids) ↔ ¬tree.Stuck id) ∧
      (∀ id < tree.size, ∀ ids, tree.Climbs id ids →
        ids = tree.ancestors id ∧ ids.getLastD id ∈ tree.roots) ∧
      ((∀ id < tree.size, ∃ ids, tree.Climbs id ids) ↔ ParentsExist operations) := by
  have hbuilt := built_run hrun
  refine ⟨?_, ?_, ?_, ?_⟩
  · intro parent element
    rw [← Option.not_isSome_iff_eq_none, addChild_isSome_iff, Nat.not_le]
  · intro id _
    exact ⟨fun ⟨_, hclimbs⟩ => hclimbs.not_stuck, fun hid => hbuilt.exists_climbs hid⟩
  · intro id hid ids hclimbs
    exact ⟨hclimbs.eq_ancestors hbuilt, hclimbs.getLastD_mem_roots hbuilt hid⟩
  · constructor
    · intro hall
      apply parentsExist_of_not_stuck hrun
      intro id hid
      obtain ⟨ids, hclimbs⟩ := hall id hid
      exact hclimbs.not_stuck
    · intro hparents id _
      obtain ⟨grown, hgrown, hrecords⟩ := Records.empty.run hparents
      cases hrun.symm.trans hgrown
      exact hbuilt.exists_climbs (hrecords.grown.not_stuck id)

def lone : Element where
  kind := .function
  name := "f"
  location := { file := ⟨"a.js"⟩, lineStart := 1, lineStop := 1, start := 0, stop := 0 }

/-- The second node is below itself, the third below the second and the last below the first. -/
def selfOwningOperations : List Operation :=
  [.root lone, .child 1 lone, .child 1 lone, .child 0 lone]

theorem self_owning_run_has_no_way_up :
    ∃ tree, run? {} selfOwningOperations = some tree ∧
      (∀ element, tree.addChild 5 element = none) ∧ tree.ancestors 3 = [0] ∧ 0 ∈ tree.roots ∧
      (¬∃ ids, tree.Climbs 2 ids) ∧ ¬ParentsExist selfOwningOperations := by
  obtain ⟨tree, hrun⟩ : ∃ tree, run? {} selfOwningOperations = some tree := ⟨_, rfl⟩
  have hview : (run? {} selfOwningOperations).map (fun tree =>
      (tree.size, (List.range 4).map tree.parent?)) =
        some (4, [none, some 1, some 1, some 0]) := by decide
  rw [hrun, Option.map_some, Option.some.injEq] at hview
  simp only [Prod.mk.injEq, List.range_succ, List.range_zero, List.nil_append, List.cons_append,
    List.map_cons, List.map_nil, List.cons.injEq, and_true] at hview
  obtain ⟨hsize, hzero, hone, htwo, hthree⟩ := hview
  obtain ⟨hrefused, hclimbs, hends, hparents⟩ :=
    ways_up_end_unless_own_parent selfOwningOperations tree hrun
  have hlast : 3 < tree.size := by omega
  obtain ⟨hancestors, hroot⟩ := hends 3 hlast [0] (.step hthree (.root hzero))
  have hstuck : tree.Stuck 2 := .of_parent htwo ⟨0, 1, rfl, hone⟩
  refine ⟨tree, hrun, ?_, hancestors.symm, hroot, ?_, ?_⟩
  · intro element
    rw [hrefused]
    omega
  · exact fun hup => (hclimbs 2 (by omega)).mp hup hstuck
  · decide

theorem own_number_is_taken_for_a_parent :
    (addRoot {} lone).size = 1 ∧ ∃ tree, (addRoot {} lone).addChild 1 lone = some tree ∧
      tree.parent? 1 = some 1 ∧ ¬∃ ids, tree.Climbs 1 ids := by
  refine ⟨rfl, _, rfl, rfl, ?_⟩
  rintro ⟨ids, hclimbs⟩
  exact hclimbs.not_stuck ⟨0, 1, rfl, rfl⟩

end Lineage.CodeTree
