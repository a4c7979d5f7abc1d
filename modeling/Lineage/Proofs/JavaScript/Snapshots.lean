import Lineage.Proofs.Copies
import Lineage.Proofs.JavaScript.Extent
import Lineage.Proofs.JavaScript.Outlines
import Lineage.Proofs.Reporting
import Lineage.Proofs.Scoring

namespace Lineage.JavaScript

/-- Files as they are read from a directory, with a grammar that gives each of them a well-formed
syntax tree. -/
structure Readable (grammar : Grammar) (files : PathMap ByteArray) : Prop where
  distinct : files.Distinct
  normal : ∀ entry ∈ files.entries, entry.1.Normal
  fits : ∀ entry ∈ files.entries, (grammar entry.2).Fits entry.2.size

/-- Files at distinct paths, wherever they come from, with a grammar that gives each of them a
well-formed syntax tree. -/
structure Parsed (grammar : Grammar) (files : PathMap ByteArray) : Prop where
  distinct : files.Distinct
  fits : ∀ entry ∈ files.entries, (grammar entry.2).Fits entry.2.size

variable {grammar : Grammar} {files : PathMap ByteArray}

theorem Readable.parsed (h : Readable grammar files) : Parsed grammar files :=
  ⟨h.distinct, h.fits⟩

theorem fits_ofList {known : List (ByteArray × SyntaxTree)}
    (hknown : ∀ entry ∈ known, entry.2.Fits entry.1.size) (bytes : ByteArray) :
    (Grammar.ofList known bytes).Fits bytes.size := by
  unfold Grammar.ofList
  split
  · next text tree hfind =>
    have heq : text = bytes := by simpa using List.find?_some hfind
    subst heq
    exact hknown _ (List.mem_of_find?_eq_some hfind)
  · simp [SyntaxTree.Fits, SyntaxTree.WellFormed, SyntaxTree.Between, SyntaxTree.stop]

theorem tokens_addFile (tree : CodeTree) (source : Source) (program : SyntaxTree) :
    (addFile tree source program).tokens =
      tree.tokens.insert source.file { tokens := program.tokens.toArray } := by
  refine addFile_induction (motive := fun current => current.tokens = tree.tokens.insert source.file
    { tokens := program.tokens.toArray }) program rfl ?_ ?_
  · intro current next parent element hcurrent _ _ _ hadd
    rw [CodeTree.tokens_addChild hadd, hcurrent]
  · intro current caller callee hcurrent _
    rw [CodeTree.tokens_addCall, hcurrent]

theorem tokens_outline (grammar : Grammar) (files : PathMap ByteArray) :
    (outline grammar files).tokens = files.entries.foldl (fun map entry =>
      map.insert entry.1 { tokens := (grammar entry.2).tokens.toArray }) {} := by
  have htokens (tree : CodeTree) (entries : List (Path × ByteArray)) :
      (entries.foldl (fun tree entry => addFile tree ⟨entry.1, entry.2⟩ (grammar entry.2))
        tree).tokens = entries.foldl (fun map entry =>
          map.insert entry.1 { tokens := (grammar entry.2).tokens.toArray }) tree.tokens := by
    induction entries generalizing tree with
    | nil => rfl
    | cons entry rest ih => rw [List.foldl_cons, ih, tokens_addFile, List.foldl_cons]
  exact htokens {} files.entries

theorem tokensOf?_outline (h : files.Distinct) {entry : Path × ByteArray}
    (hentry : entry ∈ files.entries) :
    (outline grammar files).tokensOf? entry.1 =
      some { tokens := (grammar entry.2).tokens.toArray } :=
  (congrArg (PathMap.find? · entry.1) (tokens_outline grammar files)).trans
    (h.find?_foldl_insert (fun bytes => TokenIndex.mk (grammar bytes).tokens.toArray) _ hentry)

theorem Parsed.scorable (h : Parsed grammar files) : Scorable (snapshot grammar files) := by
  intro id node hnode
  obtain ⟨entry, offset, hstands⟩ := exists_stands (CodeTree.lt_size_of_node? hnode)
  rw [(hstands.isPart hnode).1]
  refine ⟨_, Profile.source_eq_ok (tokensOf?_outline h.distinct hstands.mem)
    (PathMap.find?_eq_some_of_mem h.distinct hstands.mem) ?_⟩
  intro token htoken
  exact (h.fits entry hstands.mem).isInside_tokens (by simpa using htoken)

theorem Readable.scorable (h : Readable grammar files) : Scorable (snapshot grammar files) :=
  h.parsed.scorable

theorem Parsed.hasContents (h : Parsed grammar files) :
    Report.HasContents (snapshot grammar files) := by
  intro id node hnode
  obtain ⟨entry, offset, hstands⟩ := exists_stands (CodeTree.lt_size_of_node? hnode)
  rw [(hstands.isPart hnode).1]
  exact ⟨entry.2, PathMap.find?_eq_some_of_mem h.distinct hstands.mem⟩

theorem Readable.hasContents (h : Readable grammar files) :
    Report.HasContents (snapshot grammar files) :=
  h.parsed.hasContents

theorem path_eq_of_fileElement {left right : Source} (hleft : left.file.Normal)
    (hright : right.file.Normal) (hname : (fileElement left).name = (fileElement right).name)
    (hscope : (fileElement left).scope = (fileElement right).scope) : left.file = right.file := by
  obtain ⟨front, last, hsegments⟩ := Path.Normal.exists_segments_eq left.file
  obtain ⟨front', last', hsegments'⟩ := Path.Normal.exists_segments_eq right.file
  have hlast := hleft.fileName?_eq hsegments
  have hlast' := hright.fileName?_eq hsegments'
  have hfront := hleft.parent?_eq hsegments
  have hfront' := hright.parent?_eq hsegments'
  simp only [fileElement, hlast, hlast', hfront, hfront', Option.getD_some, Option.map_some,
    Option.some.injEq] at hname hscope
  refine Path.eq_of_text_eq ?_
  rw [hleft.text_eq hlast hfront, hright.text_eq hlast' hfront', hname, hscope]

theorem Stands.exists_file {entry : Path × ByteArray} {id : NodeId}
    (h : Stands grammar files entry 0 id) :
    ∃ node, (outline grammar files).node? id = some node ∧
      node.toElement = fileElement ⟨entry.1, entry.2⟩ ∧ node.parent = none := by
  obtain ⟨_, _, -, -, hnode⟩ := h.exists_node?
  exact ⟨_, hnode, (h.isPart hnode).2.1 rfl⟩

theorem exists_stands_of_mem_roots {id : NodeId} (h : id ∈ (outline grammar files).roots) :
    ∃ entry, Stands grammar files entry 0 id := by
  obtain ⟨hlt, hparent⟩ := ((grown_outline grammar files).built.coherent.mem_roots_iff id).mp h
  obtain ⟨entry, offset, hstands⟩ := exists_stands hlt
  obtain ⟨_, _, -, -, hnode⟩ := hstands.exists_node?
  have hzero : offset = 0 := by
    by_contra hne
    refine ((hstands.isPart hnode).2.2 hne).2 ?_
    simpa [CodeTree.parent?, hnode] using hparent
  exact ⟨entry, hzero ▸ hstands⟩

section Twins

variable {files' : PathMap ByteArray}

/-- The two nodes have the same number in the own tree of a file of both sets. -/
def Twins (grammar : Grammar) (files files' : PathMap ByteArray) (before after : NodeId) : Prop :=
  ∃ entry offset, Stands grammar files entry offset before ∧
    Stands grammar files' entry offset after

theorem Twins.exists_alike {before after : NodeId} (h : Twins grammar files files' before after) :
    ∃ x y, (outline grammar files).node? before = some x ∧
      (outline grammar files').node? after = some y ∧
      TreePair.Alike (Twins grammar files files') x y := by
  obtain ⟨entry, offset, hbefore, hafter⟩ := h
  obtain ⟨start, own, hblock, hown, hx⟩ := hbefore.exists_node?
  obtain ⟨start', own', hblock', hown', hy⟩ := hafter.exists_node?
  cases hown.symm.trans hown'
  have hgrown := grown_fileTree grammar entry
  have htwins : ∀ id < (fileTree grammar entry).size,
      Twins grammar files files' (start + id) (start' + id) := fun id hid =>
    ⟨entry, id, ⟨hid, start, hblock, rfl⟩, ⟨hid, start', hblock', rfl⟩⟩
  refine ⟨_, _, hx, hy, rfl, ?_, ?_⟩
  · cases hparent : own.parent with
    | none => simp [Node.shift, hparent]
    | some p =>
        have hlt : p < offset := hgrown.parent_lt (by simp [CodeTree.parent?, hown, hparent])
        simpa [Node.shift, hparent] using
          htwins p (Nat.lt_trans hlt (CodeTree.lt_size_of_node? hown))
  · simp only [Node.shift, List.forall₂_map_left_iff, List.forall₂_map_right_iff,
      List.forall₂_same]
    intro child hchild
    have hmem : child ∈ (fileTree grammar entry).children offset := by
      simpa [CodeTree.children, hown] using hchild
    exact htwins child (CodeTree.lt_size_of_parent?
      ((hgrown.built.coherent.mem_children_iff offset child).mp hmem))

theorem copies_of_same_entries (h : Readable grammar files) (h' : Readable grammar files')
    (hsame : ∀ entry, entry ∈ files.entries ↔ entry ∈ files'.entries) :
    TreePair.Copies ⟨outline grammar files, outline grammar files'⟩
      (Twins grammar files files') where
  before_grown := grown_outline grammar files
  after_grown := grown_outline grammar files'
  exists_alike _ _ := Twins.exists_alike
  after_unique := by
    rintro b a a' ⟨entry, offset, hb, ha⟩ ⟨entry', offset', hb', ha'⟩
    obtain ⟨rfl, rfl⟩ := hb.place_unique h.distinct hb'
    exact ha.id_unique h'.distinct ha'
  before_unique := by
    rintro b b' a ⟨entry, offset, hb, ha⟩ ⟨entry', offset', hb', ha'⟩
    obtain ⟨rfl, rfl⟩ := ha.place_unique h'.distinct ha'
    exact hb.id_unique h.distinct hb'
  exists_after b hb := by
    obtain ⟨entry, offset, hstands⟩ := exists_stands hb
    obtain ⟨a, ha⟩ := exists_stands_of_mem ((hsame entry).mp hstands.mem) hstands.1
    exact ⟨a, entry, offset, hstands, ha⟩
  exists_before a ha := by
    obtain ⟨entry, offset, hstands⟩ := exists_stands ha
    obtain ⟨b, hb⟩ := exists_stands_of_mem ((hsame entry).mpr hstands.mem) hstands.1
    exact ⟨b, entry, offset, hb, hstands⟩
  roots b hb a ha hname := by
    obtain ⟨entry, hb⟩ := exists_stands_of_mem_roots hb
    obtain ⟨entry', ha⟩ := exists_stands_of_mem_roots ha
    obtain ⟨x, hx, hxe, -⟩ := hb.exists_file
    obtain ⟨y, hy, hye, -⟩ := ha.exists_file
    simp only [TreePair.sameName, TreePair.holds, hx, hy, Bool.and_eq_true, beq_iff_eq] at hname
    have hpath : entry.1 = entry'.1 := by
      rw [hxe, hye] at hname
      exact @path_eq_of_fileElement ⟨entry.1, entry.2⟩ ⟨entry'.1, entry'.2⟩
        (h.normal entry hb.mem) (h'.normal entry' ha.mem) hname.2 hname.1
    have hentry : entry = entry' :=
      h.distinct.eq_of_fst_eq hb.mem ((hsame entry').mpr ha.mem) hpath
    exact ⟨entry, 0, hb, hentry ▸ ha⟩

end Twins

end Lineage.JavaScript
