import Mathlib.Data.List.Sort
import Lineage.Proofs.PreOrder

/-!
Runs of a builder from the empty tree. The nodes and the calls of the result are read off the
operations, and its other links off the nodes; `levelOrder` is what a cursor yields that goes through
the forest row by row until a row comes up empty.
-/

namespace Lineage.CodeTree

inductive Operation where
  | root (element : Element)
  | child (parent : NodeId) (element : Element)
  | call (caller callee : NodeId)
  | tokens (file : Path) (index : TokenIndex)

namespace Operation

/-- There is no result if the parent of a new child is not in the tree. -/
def perform? (tree : CodeTree) : Operation → Option CodeTree
  | root element => some (tree.addRoot element)
  | child parent element => tree.addChild parent element
  | call caller callee => some (tree.addCall caller callee)
  | tokens file index => some (tree.setTokens file index)

/-- The node that an operation creates, if it creates one, with its parent. -/
def created : Operation → List (Element × Option NodeId)
  | root element => [(element, none)]
  | child parent element => [(element, some parent)]
  | call _ _ | tokens _ _ => []

/-- Whether the parent of a new child is among the first `count` nodes. -/
def hasParent (count : Nat) : Operation → Bool
  | child parent _ => parent < count
  | root _ | call _ _ | tokens _ _ => true

/-- The call from `caller` that an operation asks for, if both ends are among the first `count`
nodes. -/
def callsOf (caller : NodeId) (count : Nat) : Operation → List NodeId
  | call source callee => if source = caller ∧ caller < count ∧ callee < count then [callee] else []
  | root _ | child _ _ | tokens _ _ => []

end Operation

/-- The outcome of operations one after the other. -/
def run? (tree : CodeTree) (operations : List Operation) : Option CodeTree :=
  operations.foldlM Operation.perform? tree

/-- Each operation with the number of nodes that there are before it, if it starts from `count`. -/
def timeline (count : Nat) : List Operation → List (Nat × Operation)
  | [] => []
  | operation :: rest => (count, operation) :: timeline (count + operation.created.length) rest

/-- The parent of each new child is in the tree already. -/
def ParentsExist (operations : List Operation) : Prop :=
  ∀ entry ∈ timeline 0 operations, entry.2.hasParent entry.1 = true

instance : DecidablePred ParentsExist := fun operations =>
  inferInstanceAs (Decidable (∀ entry ∈ timeline 0 operations, _))

/-- The calls from `caller` whose ends both exist when they are recorded. -/
def recordedCalls (operations : List Operation) (caller : NodeId) : List NodeId :=
  (timeline 0 operations).flatMap fun entry => entry.2.callsOf caller entry.1

theorem timeline_append (count : Nat) (front back : List Operation) :
    timeline count (front ++ back) =
      timeline count front ++ timeline (count + (front.flatMap Operation.created).length) back := by
  induction front generalizing count with
  | nil => rfl
  | cons operation rest ih =>
      rw [List.cons_append, timeline, ih, timeline, List.flatMap_cons, List.length_append,
        ← Nat.add_assoc, List.cons_append]

theorem exists_eq_append_of_mem_timeline {count number : Nat} {operation : Operation}
    {operations : List Operation} (h : (number, operation) ∈ timeline count operations) :
    ∃ front back, operations = front ++ operation :: back ∧
      number = count + (front.flatMap Operation.created).length := by
  induction operations generalizing count with
  | nil => cases h
  | cons first rest ih =>
      rcases List.mem_cons.mp h with heq | h
      · cases heq
        exact ⟨[], rest, rfl, rfl⟩
      · obtain ⟨front, back, rfl, rfl⟩ := ih h
        exact ⟨first :: front, back, rfl, by simp [Nat.add_assoc]⟩

theorem recordedCalls_append_singleton (done : List Operation) (operation : Operation)
    (caller : NodeId) :
    recordedCalls (done ++ [operation]) caller = recordedCalls done caller ++
      operation.callsOf caller (done.flatMap Operation.created).length := by
  simp [recordedCalls, timeline_append, timeline]

theorem mem_recordedCalls_iff {operations : List Operation} {caller callee : NodeId} :
    callee ∈ recordedCalls operations caller ↔
      ∃ count, (count, .call caller callee) ∈ timeline 0 operations ∧
        caller < count ∧ callee < count := by
  rw [recordedCalls, List.mem_flatMap]
  constructor
  · rintro ⟨⟨count, operation⟩, hentry, hcallee⟩
    cases operation with
    | call source target =>
        simp only [Operation.callsOf, List.mem_ite_nil_right, List.mem_singleton] at hcallee
        obtain ⟨⟨rfl, hcaller, hlt⟩, rfl⟩ := hcallee
        exact ⟨count, hentry, hcaller, hlt⟩
    | root | child | tokens => cases hcallee
  · rintro ⟨count, hentry, hcaller, hcallee⟩
    exact ⟨_, hentry, by simp [Operation.callsOf, hcaller, hcallee]⟩

section Links

/-- What a node was created with: its element and its parent. -/
def birth? (tree : CodeTree) (id : NodeId) : Option (Element × Option NodeId) :=
  (tree.node? id).map fun node => (node.toElement, node.parent)

def callees (tree : CodeTree) (id : NodeId) : List NodeId :=
  ((tree.node? id).map (·.calls)).getD []

theorem birth?_addRoot (tree : CodeTree) (element : Element) (id : NodeId) :
    (tree.addRoot element).birth? id =
      if id = tree.size then some (element, none) else tree.birth? id := by
  rw [birth?, node?_addRoot, birth?]
  split <;> rfl

theorem map_node?_addChild {β : Type} {view : Node → β}
    (hview : ∀ node children, view { node with children } = view node) {tree tree' : CodeTree}
    {parent : NodeId} {element : Element} (h : tree.addChild parent element = some tree')
    (id : NodeId) :
    (tree'.node? id).map view =
      if id = tree.size then some (view { element with parent := some parent })
      else (tree.node? id).map view := by
  have hchange : (view ∘ fun node => if id = parent then
      { node with children := node.children ++ [tree.size] } else node) = view := by
    funext node
    simp only [Function.comp_apply]
    split
    · exact hview node _
    · rfl
  rw [node?_addChild h, Option.map_map, hchange]
  by_cases hid : id = tree.size
  · rw [if_pos hid, if_pos hid, Option.map_some]
  · rw [if_neg hid, if_neg hid]

theorem birth?_addChild {tree tree' : CodeTree} {parent : NodeId} {element : Element}
    (h : tree.addChild parent element = some tree') (id : NodeId) :
    tree'.birth? id = if id = tree.size then some (element, some parent) else tree.birth? id :=
  map_node?_addChild (fun _ _ => rfl) h id

theorem birth?_addCall (tree : CodeTree) (caller callee id : NodeId) :
    (tree.addCall caller callee).birth? id = tree.birth? id := by
  rw [birth?, node?_addCall, Option.map_map, birth?]
  congr 1
  funext node
  simp only [Function.comp_apply]
  split <;> rfl

theorem callees_addRoot (tree : CodeTree) (element : Element) (id : NodeId) :
    (tree.addRoot element).callees id = tree.callees id := by
  rw [callees, node?_addRoot, callees]
  split
  · next hid => simp [node?_eq_none_of_size_le (Nat.le_of_eq hid.symm)]
  · rfl

theorem callees_addChild {tree tree' : CodeTree} {parent : NodeId} {element : Element}
    (h : tree.addChild parent element = some tree') (id : NodeId) :
    tree'.callees id = tree.callees id := by
  rw [callees, map_node?_addChild (fun _ _ => rfl) h, callees]
  split
  · next hid => simp [node?_eq_none_of_size_le (Nat.le_of_eq hid.symm)]
  · rfl

theorem isNewCall_iff {tree : CodeTree} {caller callee : NodeId} :
    tree.isNewCall caller callee = true ↔
      caller < tree.size ∧ callee < tree.size ∧ callee ∉ tree.callees caller := by
  rw [isNewCall, callees, Bool.and_eq_true, decide_eq_true_eq]
  constructor
  · rintro ⟨hcallee, hcaller⟩
    obtain ⟨node, hnode, hnew⟩ := (Option.any_eq_true _ _).mp hcaller
    refine ⟨lt_size_of_node? hnode, hcallee, ?_⟩
    simpa [hnode] using hnew
  · rintro ⟨hcaller, hcallee, hnew⟩
    obtain ⟨node, hnode⟩ := exists_node?_of_lt_size hcaller
    simpa [hnode, hcallee] using hnew

theorem callees_addCall (tree : CodeTree) (caller callee id : NodeId) :
    (tree.addCall caller callee).callees id =
      if id = caller ∧ tree.isNewCall caller callee then tree.callees id ++ [callee]
      else tree.callees id := by
  rw [callees, node?_addCall, Option.map_map, callees]
  split
  · next hnew =>
    have hlt : id < tree.size := hnew.1 ▸ (isNewCall_iff.mp hnew.2).1
    obtain ⟨node, hnode⟩ := exists_node?_of_lt_size hlt
    simp [hnode]
  · rfl

end Links

section Runs

/-- What a tree owes to the operations that made it. -/
structure Records (done : List Operation) (tree : CodeTree) : Prop where
  grown : tree.Grown
  size_eq : tree.size = (done.flatMap Operation.created).length
  birth?_eq : ∀ id, tree.birth? id = (done.flatMap Operation.created)[id]?
  callees_eq : ∀ caller, tree.callees caller = (recordedCalls done caller).eraseDups
  callees_nodup : ∀ caller, (tree.callees caller).Nodup

theorem eraseDups_append_singleton (ids : List NodeId) (id : NodeId) :
    (ids ++ [id]).eraseDups = if id ∈ ids then ids.eraseDups else ids.eraseDups ++ [id] := by
  rw [List.eraseDups_append]
  by_cases hmem : id ∈ ids
  · simp [List.removeAll, hmem]
  · simp only [List.removeAll, List.elem_eq_mem, List.filter_singleton, hmem, decide_false,
      Bool.not_false, if_false]
    rfl

theorem created_append_of_eq_nil (done : List Operation) {operation : Operation}
    (h : operation.created = []) :
    (done ++ [operation]).flatMap Operation.created = done.flatMap Operation.created := by
  rw [List.flatMap_append, List.flatMap_singleton, h, List.append_nil]

variable {done : List Operation} {tree tree' : CodeTree}

theorem Records.empty : Records [] {} where
  grown := .empty
  size_eq := rfl
  birth?_eq _ := rfl
  callees_eq _ := rfl
  callees_nodup _ := List.nodup_nil

theorem Records.create (h : Records done tree) {operation : Operation}
    {birth : Element × Option NodeId} (hcreated : operation.created = [birth])
    (hcalls : ∀ caller count, operation.callsOf caller count = []) (hgrown : tree'.Grown)
    (hsize : tree'.size = tree.size + 1)
    (hbirth : ∀ id, tree'.birth? id = if id = tree.size then some birth else tree.birth? id)
    (hcallees : ∀ id, tree'.callees id = tree.callees id) :
    Records (done ++ [operation]) tree' where
  grown := hgrown
  size_eq := by simp [hsize, hcreated, h.size_eq]
  birth?_eq id := by
    rw [hbirth, h.birth?_eq, h.size_eq, List.flatMap_append, List.flatMap_singleton, hcreated]
    grind
  callees_eq caller := by
    rw [hcallees, h.callees_eq, recordedCalls_append_singleton, hcalls, List.append_nil]
  callees_nodup caller := by
    rw [hcallees]
    exact h.callees_nodup caller

theorem Records.addCall (h : Records done tree) (caller callee : NodeId) :
    Records (done ++ [.call caller callee]) (tree.addCall caller callee) where
  grown := h.grown.addCall caller callee
  size_eq := by rw [size_addCall, created_append_of_eq_nil done rfl, h.size_eq]
  birth?_eq id := by rw [birth?_addCall, created_append_of_eq_nil done rfl, h.birth?_eq]
  callees_eq id := by
    rw [callees_addCall, recordedCalls_append_singleton, ← h.size_eq, Operation.callsOf]
    by_cases hends : caller = id ∧ id < tree.size ∧ callee < tree.size
    · rw [if_pos hends]
      obtain ⟨rfl, hcaller, hcallee⟩ := hends
      have hnew : tree.isNewCall caller callee = true ↔ callee ∉ recordedCalls done caller := by
        rw [isNewCall_iff, h.callees_eq, List.mem_eraseDups]
        simp [hcaller, hcallee]
      rw [eraseDups_append_singleton, h.callees_eq]
      by_cases hmem : callee ∈ recordedCalls done caller <;> simp [hnew, hmem]
    · rw [if_neg hends, List.append_nil, if_neg, h.callees_eq]
      rintro ⟨rfl, hnew⟩
      obtain ⟨hcaller, hcallee, -⟩ := isNewCall_iff.mp hnew
      exact hends ⟨rfl, hcaller, hcallee⟩
  callees_nodup id := by
    rw [callees_addCall]
    split
    · next hnew =>
      refine List.nodup_append.mpr ⟨h.callees_nodup id, List.nodup_singleton callee, ?_⟩
      rintro known hknown _ hcallee rfl
      rw [List.mem_singleton.mp hcallee, hnew.1] at hknown
      exact (isNewCall_iff.mp hnew.2).2.2 hknown
    · exact h.callees_nodup id

theorem Records.setTokens (h : Records done tree) (file : Path) (index : TokenIndex) :
    Records (done ++ [.tokens file index]) (tree.setTokens file index) where
  grown := h.grown.setTokens file index
  size_eq := by
    rw [created_append_of_eq_nil done rfl]
    exact h.size_eq
  birth?_eq id := by
    rw [created_append_of_eq_nil done rfl]
    exact h.birth?_eq id
  callees_eq caller := by
    rw [recordedCalls_append_singleton, Operation.callsOf, List.append_nil]
    exact h.callees_eq caller
  callees_nodup := h.callees_nodup

theorem Records.step (h : Records done tree) {operation : Operation}
    (hparent : operation.hasParent tree.size = true) :
    ∃ tree', operation.perform? tree = some tree' ∧ Records (done ++ [operation]) tree' := by
  cases operation with
  | root element =>
      refine ⟨_, rfl, h.create rfl (fun _ _ => rfl) (h.grown.addRoot element) ?_ ?_ ?_⟩
      · exact tree.size_addRoot element
      · exact tree.birth?_addRoot element
      · exact tree.callees_addRoot element
  | child parent element =>
      have hlt : parent < tree.size := of_decide_eq_true hparent
      obtain ⟨tree', hadd⟩ := exists_addChild hlt element
      refine ⟨tree', hadd, h.create rfl (fun _ _ => rfl) (h.grown.addChild hlt hadd) ?_ ?_ ?_⟩
      · exact size_addChild hadd
      · exact birth?_addChild hadd
      · exact callees_addChild hadd
  | call caller callee => exact ⟨_, rfl, h.addCall caller callee⟩
  | tokens file index => exact ⟨_, rfl, h.setTokens file index⟩

theorem Records.run (h : Records done tree) {operations : List Operation}
    (hparents : ∀ entry ∈ timeline tree.size operations, entry.2.hasParent entry.1 = true) :
    ∃ tree', tree.run? operations = some tree' ∧ Records (done ++ operations) tree' := by
  induction operations generalizing done tree with
  | nil => exact ⟨tree, rfl, by rwa [List.append_nil]⟩
  | cons operation rest ih =>
      obtain ⟨hfirst, hrest⟩ := List.forall_mem_cons.mp hparents
      obtain ⟨next, hnext, hrecords⟩ := h.step hfirst
      have hsize : next.size = tree.size + operation.created.length := by
        rw [hrecords.size_eq, h.size_eq]
        simp
      rw [← hsize] at hrest
      obtain ⟨last, hlast, hresult⟩ := ih hrecords hrest
      refine ⟨last, ?_, ?_⟩
      · rw [run?, List.foldlM_cons, hnext]
        exact hlast
      · rwa [List.append_assoc] at hresult

end Runs

section Rows

theorem rowBelow_succ (tree : CodeTree) (steps : Nat) (row : List NodeId) :
    tree.rowBelow (steps + 1) row = (tree.rowBelow steps row).flatMap tree.children := by
  induction steps generalizing row with
  | zero => rfl
  | succ steps ih => rw [rowBelow, ih, rowBelow]

theorem flatMap_rowBelow_succ (tree : CodeTree) (count : Nat) (row : List NodeId) :
    ((List.range (count + 1)).flatMap fun steps => tree.rowBelow steps row) =
      row ++ (List.range count).flatMap fun steps =>
        tree.rowBelow steps (row.flatMap tree.children) := by
  rw [List.range_succ_eq_map, List.flatMap_cons, List.flatMap_map]
  rfl

theorem Grown.depth_eq {tree : CodeTree} (h : tree.Grown) {steps : Nat} {id root : NodeId}
    (habove : tree.above? steps id = some root) (hroot : tree.parent? root = none) :
    tree.depth id = steps := by
  induction steps generalizing id with
  | zero =>
      cases habove
      rw [depth, ancestors, hroot]
      rfl
  | succ steps ih =>
      obtain ⟨parent, hparent, hrest⟩ := Option.bind_eq_some_iff.mp habove
      have hlt : parent < id := h.parent_lt hparent
      have hdepth : tree.depth parent = steps := ih hrest
      rw [depth] at hdepth
      rw [depth, ancestors, hparent]
      simp [hlt, hdepth]

/-- A place in the walk over a forest: the row at hand, and how much of it has been passed. -/
structure Cursor where
  row : List NodeId
  passed : Nat

/-- The next node and the cursor behind it. After a row come the children of its nodes; the walk ends
when there are none. -/
def Cursor.next? (tree : CodeTree) (cursor : Cursor) : Option (NodeId × Cursor) :=
  if cursor.passed = cursor.row.length then
    match cursor.row.flatMap tree.children with
    | [] => none
    | id :: rest => some (id, ⟨id :: rest, 1⟩)
  else (cursor.row[cursor.passed]?).map fun id => (id, ⟨cursor.row, cursor.passed + 1⟩)

/-- The walk from a cursor comes to an end after the listed nodes. -/
inductive Yields (tree : CodeTree) : Cursor → List NodeId → Prop
  | done {cursor : Cursor} : cursor.next? tree = none → Yields tree cursor []
  | next {cursor behind : Cursor} {id : NodeId} {ids : List NodeId} :
      cursor.next? tree = some (id, behind) → Yields tree behind ids →
      Yields tree cursor (id :: ids)

variable {tree : CodeTree}

theorem Yields.within_row {row later : List NodeId} (h : tree.Yields ⟨row, row.length⟩ later)
    {left passed : Nat} (hleft : left + passed = row.length) :
    tree.Yields ⟨row, passed⟩ (row.drop passed ++ later) := by
  induction left generalizing passed with
  | zero =>
      obtain rfl : passed = row.length := by omega
      rwa [List.drop_length]
  | succ left ih =>
      have hlt : passed < row.length := by omega
      rw [List.drop_eq_getElem_cons hlt, List.cons_append]
      refine .next ?_ (ih (by omega))
      simp [Cursor.next?, Nat.ne_of_lt hlt, List.getElem?_eq_getElem hlt]

theorem yields_rows {count : Nat} {row : List NodeId}
    (hend : tree.rowBelow count (row.flatMap tree.children) = []) :
    tree.Yields ⟨row, row.length⟩ ((List.range count).flatMap fun steps =>
      tree.rowBelow steps (row.flatMap tree.children)) := by
  induction count generalizing row with
  | zero =>
      refine .done ?_
      rw [rowBelow] at hend
      simp [Cursor.next?, hend]
  | succ count ih =>
      rw [flatMap_rowBelow_succ]
      cases hrow : row.flatMap tree.children with
      | nil =>
          have hlater : ((List.range count).flatMap fun steps =>
              tree.rowBelow steps (List.flatMap tree.children [])) = [] := by
            simp [rowBelow_nil]
          rw [hlater]
          refine .done ?_
          simp [Cursor.next?, hrow]
      | cons id rest =>
          rw [hrow] at hend
          have hrest : tree.Yields ⟨id :: rest, 1⟩ (rest ++ (List.range count).flatMap fun steps =>
              tree.rowBelow steps ((id :: rest).flatMap tree.children)) :=
            (ih hend).within_row rfl
          refine .next ?_ hrest
          simp [Cursor.next?, hrow]

theorem Grown.yields_levelOrder (h : tree.Grown) :
    tree.Yields ⟨tree.roots, 0⟩ tree.levelOrder := by
  have hend : tree.rowBelow tree.size tree.roots = [] :=
    h.built.rowBelow_roots_eq_nil (Nat.le_refl _)
  rw [levelOrder, flatten_rows]
  cases hsize : tree.size with
  | zero =>
      rw [hsize] at hend
      have hroots : tree.roots = [] := hend
      rw [hroots]
      exact .done rfl
  | succ count =>
      rw [hsize] at hend
      rw [flatMap_rowBelow_succ]
      exact (yields_rows hend).within_row (Nat.add_zero _)

end Rows

/-- The nodes, the links between them and the calls are those that the operations asked for. -/
structure Represents (operations : List Operation) (tree : CodeTree) : Prop where
  birth?_eq : ∀ id, tree.birth? id = (operations.flatMap Operation.created)[id]?
  /-- An operation gives its node the number of nodes that there are before it. -/
  numbered : ∀ id operation birth, (id, operation) ∈ timeline 0 operations →
    operation.created = [birth] → tree.birth? id = some birth
  parent_lt : ∀ child parent, tree.parent? child = some parent → parent < child
  children_eq : ∀ parent, tree.children parent =
    (List.range tree.size).filter fun child => tree.parent? child = some parent
  roots_eq : tree.roots = (List.range tree.size).filter fun root => tree.parent? root = none
  callees_nodup : ∀ caller, (tree.callees caller).Nodup
  callees_eq : ∀ caller, tree.callees caller = (recordedCalls operations caller).eraseDups
  mem_callees_iff : ∀ caller callee, callee ∈ tree.callees caller ↔
    ∃ count, (count, .call caller callee) ∈ timeline 0 operations ∧ caller < count ∧ callee < count

/-- The level order is what the walk from the roots yields: each node once, by rows that hold the
children of the row before, so that no node comes after a deeper one. -/
structure LevelOrdered (tree : CodeTree) : Prop where
  yielded : tree.Yields ⟨tree.roots, 0⟩ tree.levelOrder
  perm_range : tree.levelOrder.Perm (List.range tree.size)
  depth_le : tree.levelOrder.Pairwise fun id later => tree.depth id ≤ tree.depth later
  by_rows : ∃ row : Nat → List NodeId, row 0 = tree.roots ∧
    (∀ k, row (k + 1) = (row k).flatMap tree.children) ∧
    (∀ k, ∀ id ∈ row k, tree.depth id = k) ∧ (∀ k, tree.size ≤ k → row k = []) ∧
    tree.levelOrder = (List.range tree.size).flatMap row

section Results

variable {operations : List Operation} {tree : CodeTree}

theorem Coherent.children_eq (h : tree.Coherent) (parent : NodeId) :
    tree.children parent =
      (List.range tree.size).filter fun child => tree.parent? child = some parent := by
  refine (h.children_sorted parent).eq_of_mem_iff (List.pairwise_lt_range.filter _) ?_
  intro child
  rw [h.mem_children_iff, List.mem_filter, List.mem_range, decide_eq_true_eq]
  exact ⟨fun hparent => ⟨lt_size_of_parent? hparent, hparent⟩, fun hboth => hboth.2⟩

theorem Coherent.roots_eq (h : tree.Coherent) :
    tree.roots = (List.range tree.size).filter fun root => tree.parent? root = none := by
  refine h.roots_sorted.eq_of_mem_iff (List.pairwise_lt_range.filter _) ?_
  intro root
  rw [h.mem_roots_iff, List.mem_filter, List.mem_range, decide_eq_true_eq]

theorem Grown.depth_eq_of_mem_row (h : tree.Grown) {steps : Nat} {id : NodeId}
    (hid : id ∈ tree.rowBelow steps tree.roots) : tree.depth id = steps := by
  have hcoherent := h.built.coherent
  obtain ⟨root, hroot, habove⟩ := hcoherent.mem_rowBelow_iff.mp hid
  exact h.depth_eq habove ((hcoherent.mem_roots_iff root).mp hroot).2

theorem Grown.levelOrdered (h : tree.Grown) : tree.LevelOrdered where
  yielded := h.yields_levelOrder
  perm_range := by
    rw [List.perm_ext_iff_of_nodup h.built.coherent.nodup_levelOrder List.nodup_range]
    intro id
    rw [h.mem_levelOrder_iff, List.mem_range]
  depth_le := by
    rw [levelOrder, flatten_rows, List.pairwise_flatMap]
    constructor
    · intro steps _
      refine List.pairwise_of_forall_mem_list ?_
      intro id hid later hlater
      exact Nat.le_of_eq ((h.depth_eq_of_mem_row hid).trans (h.depth_eq_of_mem_row hlater).symm)
    · refine List.pairwise_lt_range.imp ?_
      intro steps below hlt id hid later hlater
      rw [h.depth_eq_of_mem_row hid, h.depth_eq_of_mem_row hlater]
      exact Nat.le_of_lt hlt
  by_rows := by
    refine ⟨fun k => tree.rowBelow k tree.roots, rfl, ?_, ?_, ?_, ?_⟩
    · intro k
      exact tree.rowBelow_succ k tree.roots
    · intro k id hid
      exact h.depth_eq_of_mem_row hid
    · intro k hk
      exact h.built.rowBelow_roots_eq_nil hk
    · rw [levelOrder, flatten_rows]

theorem Records.represents (h : Records operations tree) : Represents operations tree where
  birth?_eq := h.birth?_eq
  numbered id operation birth hentry hcreated := by
    obtain ⟨front, back, rfl, rfl⟩ := exists_eq_append_of_mem_timeline hentry
    rw [h.birth?_eq, List.flatMap_append, List.flatMap_cons, hcreated, Nat.zero_add]
    simp
  parent_lt _ _ := h.grown.parent_lt
  children_eq := h.grown.built.coherent.children_eq
  roots_eq := h.grown.built.coherent.roots_eq
  callees_nodup := h.callees_nodup
  callees_eq := h.callees_eq
  mem_callees_iff caller callee := by
    rw [h.callees_eq, List.mem_eraseDups, mem_recordedCalls_iff]

end Results

/-- Operations whose parents exist make a forest that represents them, and its level order is the
walk over its rows. -/
theorem run_represents_operations (operations : List Operation)
    (hparents : ParentsExist operations) :
    ∃ tree, run? {} operations = some tree ∧ Represents operations tree ∧ LevelOrdered tree := by
  obtain ⟨tree, hrun, hrecords⟩ := Records.empty.run hparents
  exact ⟨tree, hrun, hrecords.represents, hrecords.grown.levelOrdered⟩

/-- Two files that grow in turns. One call is recorded twice, and two of them come too early. -/
def interleavedOperations : List Operation :=
  let location : Location :=
    { file := ⟨"a.js"⟩, lineStart := 1, lineStop := 1, start := 0, stop := 0 }
  let element (kind : NodeKind) (name : String) : Element := { kind, name, location }
  [.root (element .file "a.js"), .child 0 (element .classDecl "A1"), .call 1 3,
    .root (element .file "b.js"), .child 1 (element .function "deep"), .call 3 1, .call 4 3,
    .child 2 (element .function "b1"), .call 3 4, .call 3 1, .tokens ⟨"b.js"⟩ {},
    .child 0 (element .function "a2")]

theorem interleaved_run_represents_operations :
    ParentsExist interleavedOperations ∧
      ∃ tree, run? {} interleavedOperations = some tree ∧
        Represents interleavedOperations tree ∧ LevelOrdered tree ∧
        tree.levelOrder = [0, 2, 1, 5, 4, 3] ∧ tree.callees 3 = [1, 4] ∧ tree.callees 4 = [] := by
  have hparents : ParentsExist interleavedOperations := by decide
  obtain ⟨tree, hrun, hrepresents, hordered⟩ :=
    run_represents_operations interleavedOperations hparents
  have horder : (run? {} interleavedOperations).map levelOrder = some [0, 2, 1, 5, 4, 3] := by
    decide
  rw [hrun] at horder
  refine ⟨hparents, tree, hrun, hrepresents, hordered, Option.some.inj horder, ?_, ?_⟩
  · rw [hrepresents.callees_eq]
    decide
  · rw [hrepresents.callees_eq]
    decide

end Lineage.CodeTree
