import Lineage.JavaScript.Outline
import Lineage.Proofs.JavaScript.Recognition
import Lineage.Proofs.Juxtaposition
import Lineage.Proofs.Paths

namespace Lineage.JavaScript

section Shift

/-- The declaration in a tree that stands `base` numbers further on. -/
def Found.shift (base : Nat) (found : Found) : Found :=
  { found with parent := base + found.parent }

def Outline.shift (base : Nat) (outline : Outline) : Outline where
  found := outline.found.map (Found.shift base)
  calls := outline.calls.map fun call => (base + call.1, call.2)

def Place.shift (base : Nat) (place : Place) : Place :=
  { place with container := base + place.container }

theorem Outline.shift_append (base : Nat) (left right : Outline) :
    (left.append right).shift base = (left.shift base).append (right.shift base) := by
  simp [shift, append]

mutual

theorem outlineTree_shift (base : Nat) (source : Source) : (tree : SyntaxTree) → (place : Place) →
    (next : NodeId) → outlineTree source (place.shift base) (base + next) tree =
      (outlineTree source place next tree).shift base
  | .node kind field named start stop children, place, next => by
    have hclass : (place.shift base).className = place.className := rfl
    rw [outlineTree, outlineTree, hclass]
    split
    · next declaration _ =>
      have henter : (place.shift base).enter (base + next) declaration =
          (place.enter next declaration).shift base := rfl
      rw [henter, Nat.add_assoc, outlineForest_shift base source children]
      rfl
    · rw [outlineForest_shift base source children]
      split <;> rfl

theorem outlineForest_shift (base : Nat) (source : Source) : (trees : List SyntaxTree) →
    (place : Place) → (next : NodeId) →
      outlineForest source (place.shift base) (base + next) trees =
        (outlineForest source place next trees).shift base
  | [], place, next => by
    rw [outlineForest, outlineForest]
    rfl
  | tree :: trees, place, next => by
    rw [outlineForest, outlineForest]
    split
    · rw [Outline.shift_append, ← outlineForest_shift base source trees,
        outlineTree_shift base source tree]
      simp only [Outline.shift, List.length_map, Nat.add_assoc]
    · exact outlineForest_shift base source trees place next

end

theorem resolve?_shift (base first : Nat) (found : List Found) (name : String) :
    resolve? (base + first) (found.map (Found.shift base)) name =
      (resolve? first found name).map (base + ·) := by
  have hzip : (found.map (Found.shift base)).zipIdx (base + first) =
      (found.zipIdx first).map fun numbered => (numbered.1.shift base, base + numbered.2) := by
    induction found generalizing first with
    | nil => rfl
    | cons f rest ih => simpa [Nat.add_assoc] using ih (first + 1)
  rw [resolve?, resolve?, hzip, ← List.map_reverse, List.find?_map, Option.map_map, Option.map_map]
  rfl

theorem addFound_beside (left right : CodeTree) (found : List Found) :
    addFound (left.beside right) (found.map (Found.shift left.size)) =
      left.beside (addFound right found) := by
  induction found generalizing right with
  | nil => rfl
  | cons f rest ih =>
      simp only [addFound, List.map_cons, List.foldl_cons] at ih ⊢
      rw [← ih]
      congr 1
      rw [Found.shift, CodeTree.addChild_beside]
      cases right.addChild f.parent f.element <;> rfl

theorem addCalls_beside (left right : CodeTree) (first : NodeId) (found : List Found)
    (calls : List (NodeId × String)) :
    addCalls (left.size + first) (found.map (Found.shift left.size)) (left.beside right)
      (calls.map fun call => (left.size + call.1, call.2)) =
      left.beside (addCalls first found right calls) := by
  induction calls generalizing right with
  | nil => rfl
  | cons call rest ih =>
      simp only [addCalls, List.map_cons, List.foldl_cons] at ih ⊢
      rw [← ih]
      congr 1
      rw [resolve?_shift]
      cases resolve? first found call.2 with
      | none => rfl
      | some callee => exact CodeTree.addCall_beside left right call.1 callee

theorem addFile_eq_beside (tree : CodeTree) (source : Source) (program : SyntaxTree) :
    addFile tree source program = tree.beside (addFile {} source program) := by
  have houtline : outlineTree source { container := tree.size } (tree.size + 1) program =
      (outlineTree source { container := 0 } 1 program).shift tree.size :=
    outlineTree_shift tree.size source program { container := 0 } 1
  have hroot : (tree.addRoot (fileElement source)).setTokens source.file
        { tokens := program.tokens.toArray } =
      tree.beside ((CodeTree.addRoot {} (fileElement source)).setTokens source.file
        { tokens := program.tokens.toArray }) := by
    rw [← CodeTree.setTokens_beside tree rfl, ← CodeTree.addRoot_beside, CodeTree.beside_empty]
  simp only [addFile, houtline, hroot]
  exact (congrArg (addCalls _ _ · _) (addFound_beside tree _ _)).trans
    (addCalls_beside tree _ 1 _ _)

end Shift

/-- Declarations that can be numbered from `next` on: each one stands below an older node, and none
of them is a file or stands in another one. -/
def Placed (source : Source) : (next : NodeId) → List Found → Prop
  | _, [] => True
  | next, f :: rest =>
    (f.parent < next ∧ f.element.kind ≠ .file ∧ f.element.location.file = source.file) ∧
      Placed source (next + 1) rest

theorem Placed.append {source : Source} {next : NodeId} {left right : List Found}
    (hleft : Placed source next left) (hright : Placed source (next + left.length) right) :
    Placed source next (left ++ right) := by
  induction left generalizing next with
  | nil => exact hright
  | cons f rest ih =>
      refine ⟨hleft.1, ih hleft.2 ?_⟩
      rwa [List.length_cons, Nat.add_comm rest.length, ← Nat.add_assoc] at hright

mutual

theorem placed_outlineTree (source : Source) : (tree : SyntaxTree) → (place : Place) →
    (next : NodeId) → place.container < next →
      Placed source next (outlineTree source place next tree).found
  | .node kind field named start stop children, place, next, hplace => by
    rw [outlineTree]
    split
    · next declaration hdeclaration =>
      refine ⟨⟨hplace, kind_ne_file hdeclaration, rfl⟩, ?_⟩
      exact placed_outlineForest source children _ (next + 1) (Nat.lt_succ_self next)
    · have hinner := placed_outlineForest source children place next hplace
      split <;> exact hinner

theorem placed_outlineForest (source : Source) : (trees : List SyntaxTree) → (place : Place) →
    (next : NodeId) → place.container < next →
      Placed source next (outlineForest source place next trees).found
  | [], place, next, hplace => by
    rw [outlineForest]
    trivial
  | tree :: trees, place, next, hplace => by
    rw [outlineForest]
    split
    · refine (placed_outlineTree source tree place next hplace).append ?_
      exact placed_outlineForest source trees place _ (Nat.lt_add_right _ hplace)
    · exact placed_outlineForest source trees place next hplace

end

section Files

theorem le_resolve? {first callee : NodeId} {found : List Found} {name : String}
    (h : resolve? first found name = some callee) : first ≤ callee := by
  obtain ⟨⟨f, id⟩, hfind, rfl⟩ := Option.map_eq_some_iff.mp h
  have hmem := List.mem_reverse.mp (List.mem_of_find?_eq_some hfind)
  exact List.le_snd_of_mem_zipIdx hmem

theorem addFound_cons {tree tree' : CodeTree} {found : Found} (rest : List Found)
    (h : tree.addChild found.parent found.element = some tree') :
    addFound tree (found :: rest) = addFound tree' rest := by
  simp [addFound, h]

theorem placed_induction {source : Source} {motive : CodeTree → List Found → Prop}
    (hnil : ∀ tree, motive tree [])
    (hcons : ∀ tree next f rest, f.parent < tree.size → f.element.kind ≠ .file →
      f.element.location.file = source.file → tree.addChild f.parent f.element = some next →
      Placed source next.size rest → motive next rest → motive tree (f :: rest))
    {tree : CodeTree} {found : List Found} (h : Placed source tree.size found) :
    motive tree found := by
  induction found generalizing tree with
  | nil => exact hnil tree
  | cons f rest ih =>
      obtain ⟨⟨hparent, hkind, hfile⟩, hrest⟩ := h
      obtain ⟨next, hadd⟩ := CodeTree.exists_addChild hparent f.element
      rw [← CodeTree.size_addChild hadd] at hrest
      exact hcons tree next f rest hparent hkind hfile hadd hrest (ih hrest)

theorem addFound_induction {source : Source} {motive : CodeTree → Prop}
    (hstep : ∀ tree tree' parent element, motive tree → parent < tree.size →
      element.kind ≠ .file → element.location.file = source.file →
      tree.addChild parent element = some tree' → motive tree')
    {tree : CodeTree} {found : List Found} (htree : motive tree)
    (hfound : Placed source tree.size found) : motive (addFound tree found) := by
  revert htree
  refine placed_induction (motive := fun tree found => motive tree → motive (addFound tree found))
    ?_ ?_ hfound
  · intro tree htree
    exact htree
  · intro tree next f rest hparent hkind hfile hadd _ ih htree
    rw [addFound_cons rest hadd]
    exact ih (hstep tree next _ _ htree hparent hkind hfile hadd)

theorem addCalls_induction {first : NodeId} {motive : CodeTree → Prop}
    (hstep : ∀ tree caller callee, motive tree → first ≤ callee →
      motive (tree.addCall caller callee))
    {tree : CodeTree} (htree : motive tree) (found : List Found) (calls : List (NodeId × String)) :
    motive (addCalls first found tree calls) := by
  refine List.foldlRecOn _ _ htree ?_
  rintro current hcurrent ⟨caller, name⟩ -
  cases hcallee : resolve? first found name with
  | none => simpa [hcallee] using hcurrent
  | some callee =>
      simpa [hcallee] using hstep current caller callee hcurrent (le_resolve? hcallee)

/-- What holds of the root of a file alone and is kept by its declarations and calls holds of the
whole file. -/
theorem addFile_induction {tree : CodeTree} {source : Source} {motive : CodeTree → Prop}
    (program : SyntaxTree)
    (hroot : motive ((tree.addRoot (fileElement source)).setTokens source.file
      { tokens := program.tokens.toArray }))
    (hchild : ∀ current next parent element, motive current → parent < current.size →
      element.kind ≠ .file → element.location.file = source.file →
      current.addChild parent element = some next → motive next)
    (hcall : ∀ current caller callee, motive current → tree.size < callee →
      motive (current.addCall caller callee)) :
    motive (addFile tree source program) := by
  refine addCalls_induction hcall (addFound_induction hchild hroot ?_) _ _
  have hsize : ((tree.addRoot (fileElement source)).setTokens source.file
      { tokens := program.tokens.toArray }).size = tree.size + 1 := tree.size_addRoot _
  rw [hsize]
  exact placed_outlineTree source program _ _ (Nat.lt_succ_self tree.size)

theorem grown_addFile {tree : CodeTree} (h : tree.Grown) (source : Source) (program : SyntaxTree) :
    (addFile tree source program).Grown := by
  refine addFile_induction program ((h.addRoot _).setTokens _ _) ?_ ?_
  · intro current next parent element hcurrent hparent _ _ hadd
    exact hcurrent.addChild hparent hadd
  · intro current caller callee hcurrent _
    exact hcurrent.addCall caller callee

/-- A node of the tree that a file has on its own. -/
structure IsPart (source : Source) (size : Nat) (id : NodeId) (node : Node) : Prop where
  location_eq : node.location.file = source.file
  root : id = 0 → node.toElement = fileElement source ∧ node.parent = none
  inner : id ≠ 0 → node.kind ≠ .file ∧ node.parent ≠ none
  calls : ∀ callee ∈ node.calls, callee ≠ 0 ∧ callee < size

/-- The tree that a file has on its own. -/
structure IsWhole (source : Source) (tree : CodeTree) : Prop where
  size_pos : 0 < tree.size
  part : ∀ id node, tree.node? id = some node → IsPart source tree.size id node

theorem IsWhole.addChild {source : Source} {tree tree' : CodeTree} (h : IsWhole source tree)
    {parent : NodeId} {element : Element} (hkind : element.kind ≠ .file)
    (hfile : element.location.file = source.file)
    (hadd : tree.addChild parent element = some tree') : IsWhole source tree' := by
  refine ⟨by rw [CodeTree.size_addChild hadd]; exact Nat.succ_pos _, ?_⟩
  intro id node hnode
  rw [CodeTree.node?_addChild hadd] at hnode
  obtain ⟨old, hold, rfl⟩ := Option.map_eq_some_iff.mp hnode
  have hpart : IsPart source tree'.size id old := by
    rw [CodeTree.size_addChild hadd]
    split at hold
    · next hid =>
      cases hold
      refine ⟨hfile, ?_, fun _ => ⟨hkind, Option.some_ne_none _⟩, by simp⟩
      exact fun hzero => absurd (hid.symm.trans hzero) (Nat.ne_of_gt h.size_pos)
    · obtain ⟨hlocation, hroot, hinner, hcalls⟩ := h.part id old hold
      refine ⟨hlocation, hroot, hinner, ?_⟩
      intro callee hcallee
      obtain ⟨hne, hlt⟩ := hcalls callee hcallee
      exact ⟨hne, Nat.lt_succ_of_lt hlt⟩
  split
  · exact ⟨hpart.location_eq, hpart.root, hpart.inner, hpart.calls⟩
  · exact hpart

theorem IsWhole.addCall {source : Source} {tree : CodeTree} (h : IsWhole source tree)
    (caller : NodeId) {callee : NodeId} (hcallee : 0 < callee) :
    IsWhole source (tree.addCall caller callee) := by
  refine ⟨by rw [CodeTree.size_addCall]; exact h.size_pos, ?_⟩
  intro id node hnode
  rw [CodeTree.node?_addCall] at hnode
  obtain ⟨old, hold, rfl⟩ := Option.map_eq_some_iff.mp hnode
  rw [CodeTree.size_addCall]
  have hpart := h.part id old hold
  split
  · next hnew =>
    refine ⟨hpart.location_eq, hpart.root, hpart.inner, ?_⟩
    intro other hother
    rcases List.mem_append.mp hother with hother | hother
    · exact hpart.calls other hother
    · rw [List.mem_singleton.mp hother]
      have hbound := hnew.2
      simp only [CodeTree.isNewCall, Bool.and_eq_true, decide_eq_true_eq] at hbound
      exact ⟨Nat.ne_of_gt hcallee, hbound.1⟩
  · exact hpart

theorem isWhole_addFile (source : Source) (program : SyntaxTree) :
    IsWhole source (addFile {} source program) := by
  refine addFile_induction program ⟨Nat.succ_pos _, ?_⟩ ?_ ?_
  · intro id node hnode
    change (CodeTree.addRoot {} (fileElement source)).node? id = some node at hnode
    rw [CodeTree.node?_addRoot] at hnode
    split at hnode
    · next hid =>
      cases hnode
      exact ⟨rfl, fun _ => ⟨rfl, rfl⟩, fun hne => absurd hid hne, by simp⟩
    · simp [CodeTree.node?] at hnode
  · intro current next parent element hcurrent _ hkind hfile hadd
    exact hcurrent.addChild hkind hfile hadd
  · intro current caller callee hcurrent hcallee
    exact hcurrent.addCall caller hcallee

end Files

section Blocks

variable (grammar : Grammar)

/-- The tree that a file has on its own. -/
def fileTree (entry : Path × ByteArray) : CodeTree :=
  addFile {} ⟨entry.1, entry.2⟩ (grammar entry.2)

theorem isWhole_fileTree (entry : Path × ByteArray) :
    IsWhole ⟨entry.1, entry.2⟩ (fileTree grammar entry) :=
  isWhole_addFile _ _

theorem grown_fileTree (entry : Path × ByteArray) : (fileTree grammar entry).Grown :=
  grown_addFile .empty _ _

theorem grown_outline (files : PathMap ByteArray) : (outline grammar files).Grown := by
  refine List.foldlRecOn _ _ CodeTree.Grown.empty ?_
  intro tree htree entry _
  exact grown_addFile htree _ _

theorem outline_eq_besideAll (files : PathMap ByteArray) :
    outline grammar files = CodeTree.besideAll (fileTree grammar) {} files.entries := by
  unfold outline CodeTree.besideAll fileTree
  congr 1
  funext tree entry
  exact addFile_eq_beside tree _ _

/-- The number of the first node of each file. -/
def blocks (files : PathMap ByteArray) : List (Nat × Path × ByteArray) :=
  CodeTree.blocks (fileTree grammar) 0 files.entries

/-- The node `id` is the one that has the number `offset` in the own tree of a file. -/
def Stands (files : PathMap ByteArray) (entry : Path × ByteArray) (offset id : NodeId) : Prop :=
  offset < (fileTree grammar entry).size ∧
    ∃ start, (start, entry) ∈ blocks grammar files ∧ id = start + offset

variable {grammar} {files : PathMap ByteArray} {entry : Path × ByteArray} {offset id : NodeId}

theorem exists_stands (h : id < (outline grammar files).size) :
    ∃ entry offset, Stands grammar files entry offset id := by
  rw [outline_eq_besideAll] at h
  obtain ⟨start, entry, offset, hblock, hoffset, rfl⟩ :=
    CodeTree.exists_mem_blocks (fileTree grammar) (Nat.zero_le id) h
  exact ⟨entry, offset, hoffset, start, hblock, rfl⟩

theorem exists_stands_of_mem (hentry : entry ∈ files.entries)
    (hoffset : offset < (fileTree grammar entry).size) :
    ∃ id, Stands grammar files entry offset id := by
  rw [← CodeTree.map_snd_blocks (fileTree grammar) 0 files.entries] at hentry
  obtain ⟨⟨start, _⟩, hblock, rfl⟩ := List.mem_map.mp hentry
  exact ⟨start + offset, hoffset, start, hblock, rfl⟩

namespace Stands

theorem mem (h : Stands grammar files entry offset id) : entry ∈ files.entries := by
  obtain ⟨-, start, hblock, -⟩ := h
  rw [← CodeTree.map_snd_blocks (fileTree grammar) 0 files.entries]
  exact List.mem_map_of_mem hblock

theorem exists_node? (h : Stands grammar files entry offset id) :
    ∃ start node, (start, entry) ∈ blocks grammar files ∧
      (fileTree grammar entry).node? offset = some node ∧
      (outline grammar files).node? id = some (node.shift start) := by
  obtain ⟨hoffset, start, hblock, rfl⟩ := h
  obtain ⟨node, hnode⟩ := CodeTree.exists_node?_of_lt_size hoffset
  refine ⟨start, node, hblock, hnode, ?_⟩
  rw [outline_eq_besideAll, CodeTree.node?_besideAll_of_mem_blocks _ hblock hoffset, hnode]
  rfl

theorem isPart (h : Stands grammar files entry offset id) {node : Node}
    (hnode : (outline grammar files).node? id = some node) :
    node.location.file = entry.1 ∧
      (offset = 0 → node.toElement = fileElement ⟨entry.1, entry.2⟩ ∧ node.parent = none) ∧
      (offset ≠ 0 → node.kind ≠ .file ∧ node.parent ≠ none) := by
  obtain ⟨start, own, -, hown, hshift⟩ := h.exists_node?
  cases hnode.symm.trans hshift
  obtain ⟨hlocation, hroot, hinner, -⟩ := (isWhole_fileTree grammar entry).part offset own hown
  refine ⟨hlocation, ?_, ?_⟩
  · intro hzero
    obtain ⟨helement, hparent⟩ := hroot hzero
    exact ⟨helement, by simp [Node.shift, hparent]⟩
  · intro hne
    obtain ⟨hkind, hparent⟩ := hinner hne
    exact ⟨hkind, by simpa [Node.shift] using hparent⟩

theorem eq_zero_iff_kind (h : Stands grammar files entry offset id) {node : Node}
    (hnode : (outline grammar files).node? id = some node) : node.kind = .file ↔ offset = 0 := by
  obtain ⟨-, hroot, hinner⟩ := h.isPart hnode
  constructor
  · intro hkind
    by_contra hne
    exact (hinner hne).1 hkind
  · intro hzero
    exact congrArg Element.kind (hroot hzero).1

theorem exists_of_mem_calls (h : Stands grammar files entry offset id) {node : Node}
    (hnode : (outline grammar files).node? id = some node) {callee : NodeId}
    (hcallee : callee ∈ node.calls) :
    ∃ target, target ≠ 0 ∧ Stands grammar files entry target callee := by
  obtain ⟨start, own, hblock, hown, hshift⟩ := h.exists_node?
  cases hnode.symm.trans hshift
  obtain ⟨target, htarget, rfl⟩ := List.mem_map.mp hcallee
  obtain ⟨hne, hlt⟩ := ((isWhole_fileTree grammar entry).part offset own hown).calls target htarget
  exact ⟨target, hne, hlt, start, hblock, rfl⟩

end Stands

theorem start_unique (hfiles : files.Distinct) {start start' : Nat}
    (h : (start, entry) ∈ blocks grammar files) (h' : (start', entry) ∈ blocks grammar files) :
    start = start' := by
  have hnodup : ((blocks grammar files).map Prod.snd).Nodup := by
    rw [blocks, CodeTree.map_snd_blocks]
    exact hfiles.nodup_entries
  exact congrArg Prod.fst (List.inj_on_of_nodup_map hnodup h h' rfl)

namespace Stands

theorem id_unique (hfiles : files.Distinct) {id' : NodeId}
    (h : Stands grammar files entry offset id) (h' : Stands grammar files entry offset id') :
    id = id' := by
  obtain ⟨-, start, hblock, rfl⟩ := h
  obtain ⟨-, start', hblock', rfl⟩ := h'
  rw [start_unique hfiles hblock hblock']

theorem place_unique (hfiles : files.Distinct) {entry' : Path × ByteArray} {offset' : NodeId}
    (h : Stands grammar files entry offset id) (h' : Stands grammar files entry' offset' id) :
    entry = entry' ∧ offset = offset' := by
  obtain ⟨_, _, -, -, hnode⟩ := h.exists_node?
  have hpath : entry.1 = entry'.1 := (h.isPart hnode).1.symm.trans (h'.isPart hnode).1
  have hentry : entry = entry' := hfiles.eq_of_fst_eq h.mem h'.mem hpath
  subst hentry
  obtain ⟨-, start, hblock, rfl⟩ := h
  obtain ⟨-, start', hblock', heq⟩ := h'
  rw [start_unique hfiles hblock' hblock] at heq
  exact ⟨rfl, Nat.add_left_cancel heq⟩

end Stands

end Blocks

end Lineage.JavaScript
