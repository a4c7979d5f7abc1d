import Lineage.Proofs.JavaScript.Acceptance

namespace Lineage

/-- The numbers of the nodes that a node refers to. -/
def Node.links (node : Node) : List NodeId :=
  node.parent.toList ++ node.children ++ node.calls

theorem Node.links_shift (start : Nat) (node : Node) :
    (node.shift start).links = node.links.map (start + ·) := by
  cases node with
  | mk element parent children calls => cases parent <;> simp [links, shift]

namespace CodeTree

/-- All nodes, roots and token indexes of a tree are in another one. -/
structure Keeps (tree whole : CodeTree) : Prop where
  nodes : ∀ id < tree.size, whole.node? id = tree.node? id
  roots : tree.roots <+: whole.roots
  tokens : ∀ file index, tree.tokensOf? file = some index → whole.tokensOf? file = some index

section Blocks

variable {ε : Type} (part : ε → CodeTree)

theorem blocks_append (tree : CodeTree) (front back : List ε) :
    blocks part tree.size (front ++ back) =
      blocks part tree.size front ++ blocks part (tree.besideAll part front).size back := by
  induction front generalizing tree with
  | nil => rfl
  | cons entry rest ih =>
      have hrest := ih (tree.beside (part entry))
      rw [size_beside] at hrest
      rw [List.cons_append, blocks, hrest, blocks, List.cons_append]
      rfl

end Blocks

end CodeTree

namespace JavaScript

variable {grammar : Grammar} {files : PathMap ByteArray}

theorem roots_addFile (tree : CodeTree) (source : Source) (program : SyntaxTree) :
    (addFile tree source program).roots = tree.roots ++ [tree.size] := by
  refine addFile_induction (motive := fun current => current.roots = tree.roots ++ [tree.size])
    program rfl ?_ ?_
  · intro current next parent element hcurrent _ _ _ hadd
    rw [CodeTree.roots_addChild hadd, hcurrent]
  · intro current caller callee hcurrent _
    rw [CodeTree.roots_addCall, hcurrent]

theorem roots_outline (grammar : Grammar) (files : PathMap ByteArray) :
    (outline grammar files).roots = (blocks grammar files).map Prod.fst := by
  have hfold (tree : CodeTree) (entries : List (Path × ByteArray)) :
      (CodeTree.besideAll (fileTree grammar) tree entries).roots =
        tree.roots ++ (CodeTree.blocks (fileTree grammar) tree.size entries).map Prod.fst := by
    induction entries generalizing tree with
    | nil => exact (List.append_nil _).symm
    | cons entry rest ih =>
        have hroots : (tree.beside (fileTree grammar entry)).roots = tree.roots ++ [tree.size] := by
          rw [fileTree, ← addFile_eq_beside, roots_addFile]
        rw [CodeTree.besideAll, List.foldl_cons]
        refine (ih _).trans ?_
        rw [hroots, CodeTree.size_beside, CodeTree.blocks, List.map_cons, List.append_assoc]
        rfl
  rw [outline_eq_besideAll, hfold]
  rfl

theorem length_blocks (grammar : Grammar) (files : PathMap ByteArray) :
    (blocks grammar files).length = files.size := by
  have hfiles := CodeTree.map_snd_blocks (fileTree grammar) 0 files.entries
  exact (List.length_map _).symm.trans (congrArg List.length hfiles)

theorem outline_singleton (grammar : Grammar) (entry : Path × ByteArray) :
    outline grammar ⟨[entry]⟩ = fileTree grammar entry :=
  rfl

theorem blocks_eq (grammar : Grammar) {front back : List (Path × ByteArray)}
    {entry : Path × ByteArray} (h : files.entries = front ++ entry :: back) :
    ∃ later, blocks grammar files =
      blocks grammar ⟨front⟩ ++ ((outline grammar ⟨front⟩).size, entry) :: later := by
  have hblocks := CodeTree.blocks_append (fileTree grammar) {} front (entry :: back)
  rw [← h, CodeTree.blocks] at hblocks
  rw [outline_eq_besideAll]
  exact ⟨_, hblocks⟩

theorem links_fileTree {entry : Path × ByteArray} {offset : NodeId} {node : Node}
    (hnode : (fileTree grammar entry).node? offset = some node) {other : NodeId}
    (hother : other ∈ node.links) : other < (fileTree grammar entry).size := by
  have hgrown := grown_fileTree grammar entry
  simp only [Node.links, List.mem_append, Option.mem_toList] at hother
  rcases hother with (hparent | hchild) | hcall
  · have hlt : other < offset := by
      apply hgrown.parent_lt
      rw [CodeTree.parent?, hnode]
      exact hparent
    exact Nat.lt_trans hlt (CodeTree.lt_size_of_node? hnode)
  · have hmem : other ∈ (fileTree grammar entry).children offset := by
      rw [CodeTree.children, hnode]
      exact hchild
    exact CodeTree.lt_size_of_parent?
      ((hgrown.built.coherent.mem_children_iff offset other).mp hmem)
  · exact (((isWhole_fileTree grammar entry).part offset node hnode).calls other hcall).2

/-- In `whole`, the tree of many files, the nodes of one file from the number `start` on are those
of `own`, the tree of that file alone. -/
structure IsBlock (source : Source) (whole own : CodeTree) (start : NodeId) : Prop where
  file : ∃ node, whole.node? start = some node ∧ node.toElement = fileElement source ∧
    node.parent = none
  nodes : ∀ offset < own.size,
    whole.node? (start + offset) = (own.node? offset).map (Node.shift start)
  closed : ∀ id node, start ≤ id → id < start + own.size → whole.node? id = some node →
    ∀ other ∈ node.links, start ≤ other ∧ other < start + own.size
  tokens : whole.tokensOf? source.file = own.tokensOf? source.file

theorem isBlock_of_mem (hfiles : files.Distinct) {start : NodeId} {entry : Path × ByteArray}
    (hblock : (start, entry) ∈ blocks grammar files) :
    IsBlock ⟨entry.1, entry.2⟩ (outline grammar files) (fileTree grammar entry) start := by
  have hstands (offset : NodeId) (hoffset : offset < (fileTree grammar entry).size) :
      Stands grammar files entry offset (start + offset) := ⟨hoffset, start, hblock, rfl⟩
  have hnodes (offset : NodeId) (hoffset : offset < (fileTree grammar entry).size) :
      (outline grammar files).node? (start + offset) =
        ((fileTree grammar entry).node? offset).map (Node.shift start) := by
    rw [outline_eq_besideAll]
    exact CodeTree.node?_besideAll_of_mem_blocks _ hblock hoffset
  have hfirst := hstands 0 (isWhole_fileTree grammar entry).size_pos
  refine ⟨hfirst.exists_file, hnodes, ?_, ?_⟩
  · intro id node hlow hhigh hnode other hother
    obtain ⟨offset, rfl⟩ := Nat.exists_eq_add_of_le hlow
    rw [hnodes offset (Nat.lt_of_add_lt_add_left hhigh)] at hnode
    obtain ⟨own, hown, rfl⟩ := Option.map_eq_some_iff.mp hnode
    rw [Node.links_shift] at hother
    obtain ⟨link, hlink, rfl⟩ := List.mem_map.mp hother
    exact ⟨Nat.le_add_right _ _, Nat.add_lt_add_left (links_fileTree hown hlink) start⟩
  · have hsingle : (PathMap.mk [entry]).Distinct := List.pairwise_singleton _ _
    rw [tokensOf?_outline hfiles hfirst.mem, ← outline_singleton,
      tokensOf?_outline hsingle List.mem_cons_self]

theorem keeps_addFile (grammar : Grammar) (files : PathMap ByteArray) {source : Source}
    (hnew : files.find? source.file = none) (program : SyntaxTree) :
    (outline grammar files).Keeps (addFile (outline grammar files) source program) where
  nodes id hid := by
    rw [addFile_eq_beside]
    exact CodeTree.node?_beside_of_lt _ hid
  roots := by
    rw [roots_addFile]
    exact List.prefix_append _ _
  tokens file index hindex := by
    have hother : source.file.same file = false := by
      rw [Bool.eq_false_iff]
      intro hsame
      have hnone : (outline grammar files).tokensOf? file = none := by
        rw [CodeTree.tokensOf?, ← PathMap.find?_congr _ hsame, tokens_outline]
        refine (PathMap.find?_foldl_insert_of_not_same
          (fun bytes => TokenIndex.mk (grammar bytes).tokens.toArray) {} ?_).trans rfl
        intro entry hentry
        have hfind := List.find?_eq_none.mp (Option.map_eq_none_iff.mp hnew) entry hentry
        simpa using hfind
      rw [hnone] at hindex
      cases hindex
    rw [CodeTree.tokensOf?, tokens_addFile, PathMap.find?_insert_of_not_same _ _ hother]
    exact hindex

/-- Files are outlined one after the other and apart from each other: each has one root and a block
of numbers from there on that repeats its own tree, and a further file leaves the rest as it is. -/
theorem files_are_outlined_apart (grammar : Grammar) (files : PathMap ByteArray)
    (hfiles : files.Distinct) :
    outline? grammar files = some (outline grammar files) ∧
      (outline grammar files).roots.length = files.size ∧
      (∀ front file bytes back, files.entries = front ++ (file, bytes) :: back →
        ∃ start, start = (outline grammar ⟨front⟩).size ∧
          (outline grammar files).roots[front.length]? = some start ∧
          (outline grammar ⟨front ++ [(file, bytes)]⟩).size =
            start + (outline grammar ⟨[(file, bytes)]⟩).size ∧
          IsBlock ⟨file, bytes⟩ (outline grammar files) (outline grammar ⟨[(file, bytes)]⟩) start) ∧
      ∀ source program, files.find? source.file = none →
        (outline grammar files).Keeps (addFile (outline grammar files) source program) := by
  refine ⟨outline?_eq_some grammar files, ?_, ?_, ?_⟩
  · rw [roots_outline, List.length_map, length_blocks]
  · intro front file bytes back hentries
    obtain ⟨later, hblocks⟩ := blocks_eq grammar hentries
    have hlength : (blocks grammar ⟨front⟩).length = front.length :=
      length_blocks grammar ⟨front⟩
    have hblock : ((outline grammar ⟨front⟩).size, (file, bytes)) ∈ blocks grammar files := by
      rw [hblocks]
      simp
    refine ⟨_, rfl, ?_, ?_, isBlock_of_mem hfiles hblock⟩
    · rw [roots_outline, hblocks, List.map_append, List.getElem?_append_right (by simp [hlength])]
      simp [hlength]
    · rw [outline_eq_besideAll, outline_eq_besideAll, CodeTree.besideAll, List.foldl_append]
      exact CodeTree.size_beside _ _
  · intro source program hnew
    exact keeps_addFile grammar files hnew program

/-- The text of an arrow function after an empty file. -/
def lateArrow : PathMap ByteArray :=
  ⟨[(⟨"b.js"⟩, .empty), (⟨"lib/a.js"⟩, arrowSource)]⟩

theorem late_arrow_is_outlined_apart :
    lateArrow.Distinct ∧ (outline arrowGrammar lateArrow).roots[1]? = some 1 ∧
      (outline arrowGrammar lateArrow).size = 3 ∧
      IsBlock ⟨⟨"lib/a.js"⟩, arrowSource⟩ (outline arrowGrammar lateArrow)
        (outline arrowGrammar ⟨[(⟨"lib/a.js"⟩, arrowSource)]⟩) 1 ∧
      (outline arrowGrammar lateArrow).Keeps
        (addFile (outline arrowGrammar lateArrow) ⟨⟨"c.js"⟩, arrowSource⟩ arrowProgram) := by
  have hdistinct : lateArrow.Distinct := by decide
  obtain ⟨-, -, hblocks, hkeeps⟩ := files_are_outlined_apart arrowGrammar lateArrow hdistinct
  obtain ⟨start, hstart, hroot, hsize, hblock⟩ :=
    hblocks [(⟨"b.js"⟩, .empty)] ⟨"lib/a.js"⟩ arrowSource [] rfl
  have hfirst : (outline arrowGrammar ⟨[(⟨"b.js"⟩, .empty)]⟩).size = 1 := by decide
  have hown : (outline arrowGrammar ⟨[(⟨"lib/a.js"⟩, arrowSource)]⟩).size = 2 := by decide
  rw [hfirst] at hstart
  subst hstart
  rw [hown] at hsize
  exact ⟨hdistinct, hroot, hsize, hblock, hkeeps _ _ (by decide)⟩

end JavaScript

end Lineage
