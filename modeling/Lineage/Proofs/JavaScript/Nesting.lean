import Lineage.Proofs.BuilderRuns
import Lineage.Proofs.JavaScript.Listing
import Lineage.Proofs.JavaScript.Walk

namespace Lineage.JavaScript

section Files

variable {source : Source}

theorem birth?_addFound_of_lt {tree : CodeTree} {found : List Found}
    (h : Placed source tree.size found) {id : NodeId} (hid : id < tree.size) :
    (addFound tree found).birth? id = tree.birth? id := by
  refine (addFound_induction (motive := fun current =>
    tree.size ≤ current.size ∧ current.birth? id = tree.birth? id) ?_ ⟨Nat.le_refl _, rfl⟩ h).2
  rintro current next parent element ⟨hle, hcurrent⟩ _ _ _ hadd
  rw [CodeTree.size_addChild hadd, CodeTree.birth?_addChild hadd, if_neg]
  · exact ⟨Nat.le_succ_of_le hle, hcurrent⟩
  · exact Nat.ne_of_lt (Nat.lt_of_lt_of_le hid hle)

theorem birth?_addFound_add {tree : CodeTree} {found : List Found}
    (h : Placed source tree.size found) (offset : Nat) :
    (addFound tree found).birth? (tree.size + offset) =
      (found[offset]?).map fun f => (f.element, some f.parent) := by
  revert offset
  refine placed_induction (motive := fun tree found => ∀ offset,
    (addFound tree found).birth? (tree.size + offset) =
      (found[offset]?).map fun f => (f.element, some f.parent)) ?_ ?_ h
  · intro tree offset
    simp [addFound, CodeTree.birth?, CodeTree.node?_eq_none_of_size_le]
  · intro tree next f rest _ _ _ hadd hrest ih offset
    have hsize := CodeTree.size_addChild hadd
    rw [addFound_cons rest hadd]
    cases offset with
    | zero =>
        have hlt : tree.size < next.size := hsize ▸ Nat.lt_succ_self tree.size
        rw [Nat.add_zero, birth?_addFound_of_lt hrest hlt, CodeTree.birth?_addChild hadd]
        simp
    | succ offset =>
        have hnext : tree.size + (offset + 1) = next.size + offset := by
          rw [hsize]
          omega
        rw [hnext, ih, List.getElem?_cons_succ]

theorem birth?_addCalls (first : NodeId) (found : List Found) (tree : CodeTree)
    (calls : List (NodeId × String)) (id : NodeId) :
    (addCalls first found tree calls).birth? id = tree.birth? id := by
  refine addCalls_induction (motive := fun current => current.birth? id = tree.birth? id)
    ?_ rfl found calls
  intro current caller callee hcurrent _
  rw [CodeTree.birth?_addCall, hcurrent]

theorem size_addCalls (first : NodeId) (found : List Found) (tree : CodeTree)
    (calls : List (NodeId × String)) : (addCalls first found tree calls).size = tree.size := by
  refine addCalls_induction (motive := fun current => current.size = tree.size) ?_ rfl found calls
  intro current caller callee hcurrent _
  rw [CodeTree.size_addCall, hcurrent]

/-- The tree with the root of a file and its tokens. -/
def rooted (tree : CodeTree) (source : Source) (program : SyntaxTree) : CodeTree :=
  (tree.addRoot (fileElement source)).setTokens source.file { tokens := program.tokens.toArray }

theorem size_rooted (tree : CodeTree) (source : Source) (program : SyntaxTree) :
    (rooted tree source program).size = tree.size + 1 :=
  tree.size_addRoot _

theorem birth?_rooted (tree : CodeTree) (source : Source) (program : SyntaxTree) (id : NodeId) :
    (rooted tree source program).birth? id =
      if id = tree.size then some (fileElement source, none) else tree.birth? id :=
  tree.birth?_addRoot _ id

end Files

/-- The declarations of a file are listed in pre-order and numbered after the file: one for each
position that declares something, below the innermost declaration around it or else the file. -/
structure Nests (source : Source) (program : SyntaxTree) (file : NodeId) (order : List Position)
    (found : List Found) : Prop where
  pre_order : order.Pairwise Precedes
  mem_iff : ∀ position, position ∈ order ↔
    (declaredAt? source.bytes program position).isSome = true
  length_eq : found.length = order.length
  declared : ∀ (index : Nat) (position : Position), order[index]? = some position →
    ∃ part declaration, program.at? position = some part ∧
      declaration? source.bytes (classAround? source.bytes program position) part =
        some declaration ∧
      found[index]? = some (Found.mk (source.element part declaration) declaration.callKey
        (parentOf source program file (file + 1 + order.idxOf ·) position))

/-- The nodes of a tree, then a file, then its declarations. -/
structure Appends (tree whole : CodeTree) (file : Element) (found : List Found) : Prop where
  size_eq : whole.size = tree.size + 1 + found.length
  older : ∀ id < tree.size, whole.birth? id = tree.birth? id
  file : whole.birth? tree.size = some (file, none)
  declared : ∀ (index : Nat) (f : Found), found[index]? = some f →
    whole.birth? (tree.size + 1 + index) = some (f.element, some f.parent)

theorem map_add_idxOf {order : List Position} (h : order.Nodup) (first : NodeId) :
    order.map (first + order.idxOf ·) = List.range' first order.length := by
  refine List.ext_getElem (by simp) ?_
  intro index hleft hright
  simp [h.idxOf_getElem]

theorem nests_outlineTree (source : Source) (program : SyntaxTree) (file : NodeId) :
    Nests source program file (declaredAmong source.bytes program (program.positions []))
      (outlineTree source { container := file } (file + 1) program).found := by
  have hsorted : (declaredAmong source.bytes program (program.positions [])).Pairwise Precedes :=
    (program.pairwise_positions []).filter _
  have hnumber : NumberedFrom source program
      (file + 1 + (declaredAmong source.bytes program (program.positions [])).idxOf ·) (file + 1)
      (program.positions []) := map_add_idxOf (nodup_of_precedes hsorted) (file + 1)
  have hplace : Suits source program file
      (file + 1 + (declaredAmong source.bytes program (program.positions [])).idxOf ·)
      { container := file } [] := ⟨rfl, rfl⟩
  have hfound := (outlined program _ (file + 1) [] rfl hplace hnumber).found_eq
  refine ⟨hsorted, ?_, ?_, ?_⟩
  · intro position
    rw [declaredAmong, List.mem_filter, SyntaxTree.mem_positions_iff, and_iff_right_iff_imp]
    intro hdeclared
    exact ⟨position, Option.isSome_of_isSome_bind hdeclared, (List.append_nil _).symm⟩
  · simpa using congrArg List.length hfound
  · intro index position hposition
    have hat := congrArg (·[index]?) hfound
    simp only [List.getElem?_map, hposition, Option.map_some] at hat
    obtain ⟨f, hf, heq⟩ := Option.map_eq_some_iff.mp hat
    obtain ⟨part, hpart, hdeclared⟩ := Option.bind_eq_some_iff.mp heq.symm
    obtain ⟨declaration, hdeclaration, rfl⟩ := Option.map_eq_some_iff.mp hdeclared
    exact ⟨part, declaration, hpart, hdeclaration, hf⟩

theorem appends_addFile (tree : CodeTree) (source : Source) (program : SyntaxTree) :
    Appends tree (addFile tree source program) (fileElement source)
      (outlineTree source { container := tree.size } (tree.size + 1) program).found := by
  have hsize := size_rooted tree source program
  have hplaced : Placed source (rooted tree source program).size
      (outlineTree source { container := tree.size } (tree.size + 1) program).found := by
    rw [hsize]
    exact placed_outlineTree source program _ _ (Nat.lt_succ_self tree.size)
  have hbirth (id : NodeId) (hid : id < tree.size + 1) :
      (addFile tree source program).birth? id = (rooted tree source program).birth? id := by
    rw [← hsize] at hid
    exact (birth?_addCalls _ _ _ _ id).trans (birth?_addFound_of_lt hplaced hid)
  refine ⟨?_, ?_, ?_, ?_⟩
  · exact (size_addCalls _ _ _ _).trans ((size_addFound hplaced).trans (by rw [hsize]))
  · intro id hid
    rw [hbirth id (Nat.lt_succ_of_lt hid), birth?_rooted, if_neg (Nat.ne_of_lt hid)]
  · rw [hbirth tree.size (Nat.lt_succ_self _), birth?_rooted, if_pos rfl]
  · intro index f hf
    rw [← hsize]
    refine (birth?_addCalls _ _ _ _ _).trans ((birth?_addFound_add hplaced index).trans ?_)
    rw [hf]
    rfl

section Nodes

/-- The positions of the declarations in a file. -/
def declaredOrder (source : Source) (program : SyntaxTree) : List Position :=
  declaredAmong source.bytes program (program.positions [])

/-- The number of the declaration at a position, if the file has the number `file`. -/
def numberAt (source : Source) (program : SyntaxTree) (file : NodeId) (position : Position) :
    NodeId :=
  file + 1 + (declaredOrder source program).idxOf position

/-- The number of the innermost declaration around a position, or else that of the file. -/
def parentAt (source : Source) (program : SyntaxTree) (file : NodeId) (position : Position) :
    NodeId :=
  parentOf source program file (numberAt source program file) position

/-- A node holds the declaration at a position. -/
structure HoldsAt (source : Source) (program : SyntaxTree) (file : NodeId) (position : Position)
    (part : SyntaxTree) (node : Node) : Prop where
  at?_eq : program.at? position = some part
  declared : ∃ declaration,
    declaration? source.bytes (classAround? source.bytes program position) part =
      some declaration ∧ node.toElement = source.element part declaration
  parent_eq : node.parent = some (parentAt source program file position)

variable {tree : CodeTree} {source : Source} {program : SyntaxTree} {position : Position}
  {id : NodeId}

variable (source program) in
theorem nests_declaredOrder (file : NodeId) :
    Nests source program file (declaredOrder source program)
      (outlineTree source { container := file } (file + 1) program).found :=
  nests_outlineTree source program file

variable (source program) in
theorem numberedFrom_program (file : NodeId) :
    NumberedFrom source program (numberAt source program file) (file + 1)
      (program.positions []) :=
  map_add_idxOf (nodup_of_precedes (nests_declaredOrder source program file).pre_order) (file + 1)

theorem mem_declaredOrder_iff : position ∈ declaredOrder source program ↔
    (declaredAt? source.bytes program position).isSome = true :=
  (nests_declaredOrder source program 0).mem_iff position

theorem numberAt_lt_iff {earlier later : Position} (file : NodeId)
    (hearlier : earlier ∈ declaredOrder source program)
    (hlater : later ∈ declaredOrder source program) :
    numberAt source program file earlier < numberAt source program file later ↔
      Precedes earlier later := by
  have hsorted := (nests_declaredOrder source program file).pre_order
  have horder {first second : Position} (hfirst : first ∈ declaredOrder source program)
      (hsecond : second ∈ declaredOrder source program)
      (hlt : numberAt source program file first < numberAt source program file second) :
      Precedes first second := by
    have hi := List.idxOf_lt_length_iff.mpr hfirst
    have hj := List.idxOf_lt_length_iff.mpr hsecond
    have hpair := List.pairwise_iff_getElem.mp hsorted _ _ hi hj (Nat.lt_of_add_lt_add_left hlt)
    rwa [List.getElem_idxOf, List.getElem_idxOf] at hpair
  constructor
  · exact horder hearlier hlater
  · intro hprecedes
    by_contra hnot
    rcases Nat.lt_or_eq_of_le (Nat.le_of_not_lt hnot) with hlt | heq
    · exact List.lt_asymm hprecedes (horder hlater hearlier hlt)
    · have hsame := (List.idxOf_inj hlater).mp (Nat.add_left_cancel heq)
      exact List.lt_irrefl _ (hsame ▸ hprecedes)

theorem exists_node?_of_birth? {whole : CodeTree} {element : Element} {parent : Option NodeId}
    (h : whole.birth? id = some (element, parent)) :
    ∃ node, whole.node? id = some node ∧ node.toElement = element ∧ node.parent = parent := by
  obtain ⟨node, hnode, heq⟩ := Option.map_eq_some_iff.mp h
  cases heq
  exact ⟨node, hnode, rfl, rfl⟩

variable (tree) in
theorem exists_holdsAt (hposition : position ∈ declaredOrder source program) :
    ∃ part node, (addFile tree source program).node? (numberAt source program tree.size position) =
      some node ∧ HoldsAt source program tree.size position part node := by
  have hindex : (declaredOrder source program)[(declaredOrder source program).idxOf position]? =
      some position := List.getElem?_idxOf hposition
  obtain ⟨part, declaration, hpart, hdeclaration, hfound⟩ :=
    (nests_declaredOrder source program tree.size).declared _ position hindex
  obtain ⟨node, hnode, helement, hparent⟩ :=
    exists_node?_of_birth? ((appends_addFile tree source program).declared _ _ hfound)
  exact ⟨part, node, hnode, hpart, ⟨declaration, hdeclaration, helement⟩, hparent⟩

theorem exists_numberAt_eq (hid : tree.size < id) (hlt : id < (addFile tree source program).size) :
    ∃ position ∈ declaredOrder source program, numberAt source program tree.size position = id := by
  have hnests := nests_declaredOrder source program tree.size
  rw [(appends_addFile tree source program).size_eq, hnests.length_eq] at hlt
  refine ⟨_, List.getElem_mem (Nat.sub_lt_left_of_lt_add hid hlt), ?_⟩
  rw [numberAt, (nodup_of_precedes hnests.pre_order).idxOf_getElem]
  exact Nat.add_sub_of_le hid

theorem exists_fileNode (tree : CodeTree) (source : Source) (program : SyntaxTree) :
    ∃ node, (addFile tree source program).node? tree.size = some node ∧
      node.toElement = fileElement source ∧ node.parent = none :=
  exists_node?_of_birth? (appends_addFile tree source program).file

theorem file_or_holdsAt {node : Node} (hid : tree.size ≤ id)
    (hnode : (addFile tree source program).node? id = some node) :
    id = tree.size ∧ node.toElement = fileElement source ∨
      ∃ position ∈ declaredOrder source program, ∃ part,
        numberAt source program tree.size position = id ∧
        HoldsAt source program tree.size position part node := by
  rcases Nat.lt_or_eq_of_le hid with hlt | rfl
  · obtain ⟨position, hposition, rfl⟩ := exists_numberAt_eq hlt (CodeTree.lt_size_of_node? hnode)
    obtain ⟨part, held, hheld, hholds⟩ := exists_holdsAt tree hposition
    cases hnode.symm.trans hheld
    exact Or.inr ⟨position, hposition, part, rfl, hholds⟩
  · obtain ⟨held, hheld, helement, -⟩ := exists_fileNode tree source program
    cases hnode.symm.trans hheld
    exact Or.inl ⟨rfl, helement⟩

end Nodes

/-- Declarations become nodes in pre-order, nested as in the syntax tree, and the walk with a stack
finds the same ones in the same order. -/
theorem declarations_nest_in_pre_order (tree : CodeTree) (source : Source)
    (program : SyntaxTree) :
    ∃ (order : List Position) (outline : Outline),
      Nests source program tree.size order outline.found ∧
      Appends tree (addFile tree source program) (fileElement source) outline.found ∧
      ∃ declared,
        (∀ last, Walk.Ends source
            ⟨[⟨program, { container := tree.size }⟩], rooted tree source program, {}⟩ last ↔
          last = ⟨[], declared, outline⟩) ∧
        addFile tree source program =
          addCalls (tree.size + 1) outline.found declared outline.calls := by
  refine ⟨_, _, nests_outlineTree source program tree.size, appends_addFile tree source program,
    _, ?_, rfl⟩
  intro last
  have hsize := size_rooted tree source program
  have hplace : tree.size < (rooted tree source program).size := by
    rw [hsize]
    exact Nat.lt_succ_self tree.size
  rw [Walk.ends_iff hplace, hsize]
  rfl

end Lineage.JavaScript
