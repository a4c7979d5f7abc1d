import Lineage.Proofs.Justification
import Lineage.Proofs.NoChanges

namespace Lineage.TreePair

open Matching (Splits)

/-- Evidence in which no score speaks for any pair. -/
def silence : Evidence where
  similar _ _ := false
  nameSimilar _ _ := false
  extracted _ _ _ := false
  inlined _ _ _ := false

variable {trees : TreePair} {b a : NodeId}

theorem sameName_of_mem_matchByName (hbefore : trees.before.Built) (hafter : trees.after.Built)
    (hpair : (b, a) ∈ (trees.matchByName (.start trees.before trees.after)).pairs)
    (hroot : b ∈ trees.before.roots ∨ a ∈ trees.after.roots) :
    b ∈ trees.before.roots ∧ a ∈ trees.after.roots ∧ trees.sameName b a = true := by
  obtain ⟨before, after, hb, ha, hjustified⟩ :=
    allWarranted_matchByName hbefore.coherent hafter.coherent silence (b, a) hpair
  rw [hbefore.coherent.mem_roots_iff_parent hb, hafter.coherent.mem_roots_iff_parent ha] at hroot ⊢
  have hbelow : ¬ParentsMatched (fun p q =>
      (p, q) ∈ (trees.matchByName (.start trees.before trees.after)).pairs) before after := by
    rintro ⟨p, q, hp, hq, -⟩
    simp [hp, hq] at hroot
  cases hjustified with
  | named hscope hname hplace =>
      obtain ⟨hp, hq⟩ := hplace.resolve_right hbelow
      exact ⟨hp, hq, by simp [sameName, holds, hb, ha, hscope, hname]⟩
  | signed _ _ _ hparents => exact absurd hparents hbelow
  | similar _ hsimilar => cases hsimilar
  | inhabited _ hsimilar => cases hsimilar

theorem mem_matchByName_of_unique (hbefore : trees.before.Built) (hafter : trees.after.Built)
    (hb : b ∈ trees.before.roots) (ha : a ∈ trees.after.roots)
    (hname : trees.sameName b a = true)
    (honlyAfter : ∀ a' ∈ trees.after.roots, trees.sameName b a' = true → a' = a)
    (honlyBefore : ∀ b' ∈ trees.before.roots, trees.sameName b' a = true → b' = b) :
    (b, a) ∈ (trees.matchByName (.start trees.before trees.after)).pairs := by
  have hsplits := splits_matchByName hbefore.coherent hafter.coherent
  have hmem : (b, a) ∈ trees.sameNamed trees.before.roots trees.after.roots :=
    mem_sameNamed_iff.mpr ⟨hb, ha, hname⟩
  have htaken : (trees.matchByName (.start trees.before trees.after)).isFree b a = false :=
    not_isFree_cascade (Splits.start hbefore.coherent hafter.coherent) hmem
  rw [Bool.eq_false_iff, Ne, Matching.isFree_iff, hsplits.mem_freeBefore_iff,
    hsplits.mem_freeAfter_iff] at htaken
  by_cases hpaired : b ∈ (trees.matchByName (.start trees.before trees.after)).pairs.map Prod.fst
  · obtain ⟨⟨_, a'⟩, hpair, rfl⟩ := List.mem_map.mp hpaired
    obtain ⟨-, ha', hname'⟩ := sameName_of_mem_matchByName hbefore hafter hpair (Or.inl hb)
    rwa [← honlyAfter a' ha' hname']
  · have hpaired' :
        a ∈ (trees.matchByName (.start trees.before trees.after)).pairs.map Prod.snd := by
      by_contra hfree
      exact htaken ⟨⟨hbefore.mem_levelOrder_of_root hb, hpaired⟩,
        hafter.mem_levelOrder_of_root ha, hfree⟩
    obtain ⟨⟨b', _⟩, hpair, rfl⟩ := List.mem_map.mp hpaired'
    obtain ⟨hb', -, hname'⟩ := sameName_of_mem_matchByName hbefore hafter hpair (Or.inr ha)
    rwa [← honlyBefore b' hb' hname']

end Lineage.TreePair

namespace Lineage.JavaScript

/-- Files as they are read from a directory. -/
structure Listed (files : PathMap ByteArray) : Prop where
  distinct : files.Distinct
  normal : ∀ entry ∈ files.entries, entry.1.Normal

def IsFileOf (tree : CodeTree) (path : Path) (id : NodeId) : Prop :=
  ∃ node, tree.node? id = some node ∧ node.kind = .file ∧ node.location.file = path

/-- A result that pairs files by their paths: those at the same path are the same, and no others. -/
structure PairsByPath (grammar : Grammar) (before after : PathMap ByteArray)
    (found : List Relationship) : Prop where
  shared : ∀ path ∈ before.entries.map Prod.fst, path ∈ after.entries.map Prod.fst →
    ∃ b a, (∀ id, IsFileOf (outline grammar before) path id ↔ id = b) ∧
      (∀ id, IsFileOf (outline grammar after) path id ↔ id = a) ∧
      Relationship.pair b a .same ∈ found
  gone : ∀ path b, IsFileOf (outline grammar before) path b →
    path ∉ after.entries.map Prod.fst →
      ∀ relationship ∈ found, relationship.before = some b → relationship.kind ≠ .same
  new : ∀ path a, IsFileOf (outline grammar after) path a →
    path ∉ before.entries.map Prod.fst →
      ∀ relationship ∈ found, relationship.after = some a → relationship.kind ≠ .same

section Roots

variable {grammar : Grammar} {files : PathMap ByteArray} {entry : Path × ByteArray} {id : NodeId}

theorem Stands.mem_roots (h : Stands grammar files entry 0 id) :
    id ∈ (outline grammar files).roots := by
  obtain ⟨node, hnode, -, hparent⟩ := h.exists_file
  exact ((grown_outline grammar files).built.coherent.mem_roots_iff_parent hnode).mpr hparent

theorem exists_stands_of_kind {node : Node} (hnode : (outline grammar files).node? id = some node)
    (hkind : node.kind = .file) : ∃ entry, Stands grammar files entry 0 id := by
  obtain ⟨entry, offset, hstands⟩ := exists_stands (CodeTree.lt_size_of_node? hnode)
  have hzero := (hstands.eq_zero_iff_kind hnode).mp hkind
  exact ⟨entry, hzero ▸ hstands⟩

theorem Stands.isFileOf_iff (h : Stands grammar files entry 0 id) {path : Path} :
    IsFileOf (outline grammar files) path id ↔ path = entry.1 := by
  obtain ⟨node, hnode, helement, -⟩ := h.exists_file
  have hpath := (h.isPart hnode).1
  constructor
  · rintro ⟨other, hother, -, rfl⟩
    cases hother.symm.trans hnode
    exact hpath
  · rintro rfl
    exact ⟨node, hnode, congrArg Element.kind helement, hpath⟩

theorem exists_stands_of_isFileOf {path : Path} (h : IsFileOf (outline grammar files) path id) :
    ∃ bytes, Stands grammar files (path, bytes) 0 id := by
  have ⟨node, hnode, hkind, _⟩ := h
  obtain ⟨entry, hstands⟩ := exists_stands_of_kind hnode hkind
  rw [hstands.isFileOf_iff.mp h]
  exact ⟨entry.2, hstands⟩

theorem exists_isFileOf (hfiles : files.Distinct) (hentry : entry ∈ files.entries) :
    ∃ root, Stands grammar files entry 0 root ∧
      ∀ id, IsFileOf (outline grammar files) entry.1 id ↔ id = root := by
  obtain ⟨root, hroot⟩ := exists_stands_of_mem hentry (isWhole_fileTree grammar entry).size_pos
  refine ⟨root, hroot, ?_⟩
  intro id
  constructor
  · intro hid
    obtain ⟨bytes, hstands⟩ := exists_stands_of_isFileOf hid
    have heq : (entry.1, bytes) = entry := hfiles.eq_of_fst_eq hstands.mem hentry rfl
    exact (heq ▸ hstands).id_unique hfiles hroot
  · rintro rfl
    exact hroot.isFileOf_iff.mpr rfl

end Roots

section Pairs

variable {grammar : Grammar} {before after : PathMap ByteArray} {entry entry' : Path × ByteArray}
  {b a : NodeId}

theorem sameName_iff_path_eq (hbefore : Listed before) (hafter : Listed after)
    (hb : Stands grammar before entry 0 b) (ha : Stands grammar after entry' 0 a) :
    (treesOf grammar before after).sameName b a = true ↔ entry.1 = entry'.1 := by
  obtain ⟨x, hx, hxe, -⟩ := hb.exists_file
  obtain ⟨y, hy, hye, -⟩ := ha.exists_file
  rw [TreePair.sameName, TreePair.holds_of_node? hx hy, hxe, hye, Bool.and_eq_true, beq_iff_eq,
    beq_iff_eq]
  constructor
  · rintro ⟨hscope, hname⟩
    exact @path_eq_of_fileElement ⟨entry.1, entry.2⟩ ⟨entry'.1, entry'.2⟩
      (hbefore.normal entry hb.mem) (hafter.normal entry' ha.mem) hname hscope
  · intro hpath
    simp [fileElement, hpath]

theorem mem_pairs_of_path_eq (hbefore : Listed before) (hafter : Listed after)
    (hb : Stands grammar before entry 0 b) (ha : Stands grammar after entry' 0 a)
    (hpath : entry.1 = entry'.1) (evidence : Evidence) :
    (b, a) ∈ ((treesOf grammar before after).matching evidence).pairs := by
  apply ((treesOf grammar before after).grows_matchByName evidence).mem_pairs
  refine TreePair.mem_matchByName_of_unique (grown_outline grammar before).built
    (grown_outline grammar after).built hb.mem_roots ha.mem_roots
    ((sameName_iff_path_eq hbefore hafter hb ha).mpr hpath) ?_ ?_
  · intro a' ha' hname
    obtain ⟨other, hother⟩ := exists_stands_of_mem_roots ha'
    have hsame := (sameName_iff_path_eq hbefore hafter hb hother).mp hname
    have heq : other = entry' :=
      hafter.distinct.eq_of_fst_eq hother.mem ha.mem (hsame.symm.trans hpath)
    exact (heq ▸ hother).id_unique hafter.distinct ha
  · intro b' hb' hname
    obtain ⟨other, hother⟩ := exists_stands_of_mem_roots hb'
    have hsame := (sameName_iff_path_eq hbefore hafter hother ha).mp hname
    have heq : other = entry :=
      hbefore.distinct.eq_of_fst_eq hother.mem hb.mem (hsame.trans hpath.symm)
    exact (heq ▸ hother).id_unique hbefore.distinct hb

theorem same_mem_changes_of_path_eq (hbefore : Listed before) (hafter : Listed after)
    (hb : Stands grammar before entry 0 b) (ha : Stands grammar after entry' 0 a)
    (hpath : entry.1 = entry'.1) (evidence : Evidence) :
    Relationship.pair b a .same ∈ (treesOf grammar before after).changes evidence := by
  have h := splits_treesOf grammar before after evidence
  have hpair := mem_pairs_of_path_eq hbefore hafter hb ha hpath evidence
  obtain ⟨x, hx, hxe, hxp⟩ := hb.exists_file
  obtain ⟨y, hy, hye, hyp⟩ := ha.exists_file
  have htyped := @TreePair.wellTyped_classify (treesOf grammar before after) evidence h b a x y
    hx hy
  have hsame : (treesOf grammar before after).classify evidence
      ((treesOf grammar before after).matching evidence) b a = .same := by
    refine (htyped.same_iff (by rw [hxe, hye]; rfl)).mpr ⟨?_, by rw [hxe, hye]; rfl, ?_⟩
    · rw [hxe, hye]
      simp [fileElement, hpath]
    · exact Or.inl ⟨hxp, hyp, by rw [hxe, hye]; simp [fileElement, hpath]⟩
  rw [← hsame]
  exact (TreePair.mem_changes_iff h).mpr (.paired hpair)

theorem isFileOf_iff_of_same (hbefore : Listed before) (hafter : Listed after) {evidence : Evidence}
    {r : Relationship} (hr : r ∈ (treesOf grammar before after).changes evidence)
    (hkind : r.kind = .same) :
    ∃ b a, r.before = some b ∧ r.after = some a ∧ ∀ path,
      IsFileOf (outline grammar before) path b ↔ IsFileOf (outline grammar after) path a := by
  obtain ⟨b, a, x, y, rfl, hx, hy, hkinds, hname, hparent⟩ := TreePair.exists_of_same
    (grown_outline grammar before).built (grown_outline grammar after).built hr hkind
  refine ⟨b, a, rfl, rfl, ?_⟩
  intro path
  by_cases hfile : x.kind = .file
  · obtain ⟨entry, hb⟩ := exists_stands_of_kind hx hfile
    obtain ⟨entry', ha⟩ := exists_stands_of_kind hy (hkinds.symm.trans hfile)
    have hscope := hparent.scope_eq ((hb.isPart hx).2.1 rfl).2
    have hpath : entry.1 = entry'.1 := by
      refine (sameName_iff_path_eq hbefore hafter hb ha).mp ?_
      simp [TreePair.sameName, TreePair.holds_of_node? hx hy, hscope, hname]
    rw [hb.isFileOf_iff, ha.isFileOf_iff, hpath]
  · constructor
    · rintro ⟨node, hnode, hnodeKind, -⟩
      cases hnode.symm.trans hx
      exact absurd hnodeKind hfile
    · rintro ⟨node, hnode, hnodeKind, -⟩
      cases hnode.symm.trans hy
      exact absurd (hkinds.trans hnodeKind) hfile

theorem pairsByPath_changes (hbefore : Listed before) (hafter : Listed after)
    (evidence : Evidence) :
    PairsByPath grammar before after ((treesOf grammar before after).changes evidence) := by
  refine ⟨?_, ?_, ?_⟩
  · intro path hpath hpath'
    obtain ⟨entry, hentry, rfl⟩ := List.mem_map.mp hpath
    obtain ⟨entry', hentry', heq⟩ := List.mem_map.mp hpath'
    obtain ⟨b, hb, honly⟩ := @exists_isFileOf grammar before entry hbefore.distinct hentry
    obtain ⟨a, ha, honly'⟩ := @exists_isFileOf grammar after entry' hafter.distinct hentry'
    refine ⟨b, a, honly, heq ▸ honly', ?_⟩
    exact same_mem_changes_of_path_eq hbefore hafter hb ha heq.symm evidence
  · intro path b hfile habsent r hr hside hkind
    obtain ⟨b', a, hrb, -, hiff⟩ := isFileOf_iff_of_same hbefore hafter hr hkind
    cases hside.symm.trans hrb
    obtain ⟨bytes, ha⟩ := exists_stands_of_isFileOf ((hiff path).mp hfile)
    exact habsent (List.mem_map_of_mem ha.mem)
  · intro path a hfile habsent r hr hside hkind
    obtain ⟨b, a', -, hra, hiff⟩ := isFileOf_iff_of_same hbefore hafter hr hkind
    cases hside.symm.trans hra
    obtain ⟨bytes, hb⟩ := exists_stands_of_isFileOf ((hiff path).mpr hfile)
    exact habsent (List.mem_map_of_mem hb.mem)

end Pairs

/-- Files pair by path, whatever they contain and whatever the scores say; and the finder returns
such a result for every valid threshold once the syntax trees of all files are well formed. -/
theorem files_pair_by_path (grammar : Grammar) (before after : PathMap ByteArray)
    (hbefore : Listed before) (hafter : Listed after) :
    EveryFinding (snapshot grammar before) (snapshot grammar after)
        (fun _ found => PairsByPath grammar before after found) ∧
      (Parsed grammar before → Parsed grammar after →
        ∀ config : Config, config.isValid = true →
          ∃ found, findRelationships config (snapshot grammar before) (snapshot grammar after) =
            .ok found ∧ PairsByPath grammar before after found) := by
  have hevery : EveryFinding (snapshot grammar before) (snapshot grammar after)
      (fun _ found => PairsByPath grammar before after found) :=
    everyFinding_of_changes fun evidence => pairsByPath_changes hbefore hafter evidence
  refine ⟨hevery, ?_⟩
  intro hparsed hparsed' config hvalid
  obtain ⟨scorer, hscorer⟩ := Scorable.exists_scorer Float hparsed.scorable hparsed'.scorable
  exact hevery.2 config scorer hvalid hscorer

theorem arrow_files_pair_by_path :
    Listed (arrowFiles ["b.js"]) ∧ Listed (arrowFiles ["c.js"]) ∧
      ∃ found, findRelationships {} (snapshot arrowGrammar (arrowFiles ["b.js"]))
          (snapshot arrowGrammar (arrowFiles ["c.js"])) = .ok found ∧
        PairsByPath arrowGrammar (arrowFiles ["b.js"]) (arrowFiles ["c.js"]) found := by
  have hbefore : Readable arrowGrammar (arrowFiles ["b.js"]) :=
    readable_arrowFiles (by decide) (by decide)
  have hafter : Readable arrowGrammar (arrowFiles ["c.js"]) :=
    readable_arrowFiles (by decide) (by decide)
  have hlisted : Listed (arrowFiles ["b.js"]) := ⟨hbefore.distinct, hbefore.normal⟩
  have hlisted' : Listed (arrowFiles ["c.js"]) := ⟨hafter.distinct, hafter.normal⟩
  refine ⟨hlisted, hlisted', ?_⟩
  exact (files_pair_by_path arrowGrammar _ _ hlisted hlisted').2 hbefore.parsed hafter.parsed {}
    (by decide)

end Lineage.JavaScript
