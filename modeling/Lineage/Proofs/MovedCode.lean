import Lineage.Proofs.Explanations
import Lineage.Proofs.JavaScript.FilePairing
import Lineage.Proofs.ScoreLaws

namespace Lineage

open Relationship (Matched)

/-- A token tells of code that moved: it is in the `part` that moved, and there is more of it in
`more` than in `less`. Those of `stop` do not tell. -/
def CodeMoved (stop : List String) (part more less : Bag String) : Prop :=
  ∃ token ∉ stop, 0 < part.count token ∧ less.count token < more.count token

namespace Scorer

variable (scorer : Scorer ℝ) (before after : Snapshot) (found : List Relationship)

/-- The body of `e` has code that the body of `b` lost on the way to its counterpart. -/
def ExtractsCode (b e : NodeId) : Prop :=
  ∃ a x y z, (∀ other, Matched found b other ↔ other = a) ∧
    before.tree.node? b = some x ∧ after.tree.node? a = some y ∧ after.tree.node? e = some z ∧
    x.location.hasBody = true ∧ z.location.hasBody = true ∧
    CodeMoved ("return" :: x.params.getD [] ++ y.params.getD [])
      (scorer.profile .after e).bodyTokens (scorer.profile .before b).bodyTokens
      (scorer.profile .after a).bodyTokens

/-- The body of `i` has code that the body of `a` gained over its counterpart. -/
def InlinesCode (i a : NodeId) : Prop :=
  ∃ b x y, (∀ other, Matched found other a ↔ other = b) ∧
    before.tree.node? i = some x ∧ after.tree.node? a = some y ∧
    x.location.hasBody = true ∧ y.location.hasBody = true ∧
    CodeMoved [] (scorer.profile .before i).bodyTokens (scorer.profile .after a).bodyTokens
      (scorer.profile .before b).bodyTokens

/-- The extractions and inlinings of a result moved code. -/
structure MovesCode : Prop where
  extraction : ∀ r ∈ found, r.kind = .extract ∨ r.kind = .extractAndMove →
    ∃ b e, r.before = some b ∧ r.after = some e ∧ scorer.ExtractsCode before after found b e
  inlining : ∀ r ∈ found, r.kind = .inline →
    ∃ i a, r.before = some i ∧ r.after = some a ∧ scorer.InlinesCode before after found i a

/-- The scores of extracted and of inlined code are parts of a whole. -/
structure BoundsMoves : Prop where
  extraction : ∀ b a e value, (scorer.extraction (scorer.profile .before b)
    (scorer.profile .after a) (scorer.profile .after e)).value? = some value →
      0 ≤ value ∧ value ≤ 1
  inlining : ∀ b a i value, (scorer.inlining (scorer.profile .before b)
    (scorer.profile .after a) (scorer.profile .before i)).value? = some value →
      0 ≤ value ∧ value ≤ 1

end Scorer

theorem Ratio.IsQuotient.part_pos {ratio : Ratio ℝ} {part whole threshold : ℝ}
    (h : ratio.IsQuotient part whole) (hthreshold : 0 ≤ threshold)
    (hexceeds : ratio.exceeds threshold = true) : 0 < part := by
  obtain ⟨value, hvalue, hlt⟩ := exceeds_iff.mp hexceeds
  obtain ⟨-, rfl⟩ := value?_eq_some_iff.mp hvalue
  rw [h.part_eq, h.whole_eq] at hlt
  refine h.nonneg.lt_of_ne ?_
  rintro rfl
  rw [zero_div] at hlt
  exact hthreshold.not_gt hlt

theorem Weights.exists_count_pos {weights : Weights ℝ} {tokens : Finset String}
    {count : String → ℕ} (h : 0 < weights.weigh tokens count) :
    ∃ token ∈ tokens, 0 < count token := by
  obtain ⟨token, hmem, hterm⟩ := Finset.exists_ne_zero_of_sum_ne_zero h.ne'
  exact ⟨token, hmem, Nat.pos_of_ne_zero (Nat.cast_ne_zero.mp (right_ne_zero_of_mul hterm))⟩

theorem SnapshotProfile.hasBody_of_count_pos {snapshot : Snapshot} {profile : SnapshotProfile}
    (h : ofSnapshot snapshot = .ok profile) {id : NodeId} {token : String}
    (htoken : 0 < (profile.find id).bodyTokens.count token) :
    ∃ node, snapshot.tree.node? id = some node ∧ node.location.hasBody = true := by
  obtain ⟨-, node, hnode, hprofile⟩ := of_mem_profiles h (mem_profiles_of_count_pos .body htoken)
  refine ⟨node, hnode, ?_⟩
  obtain ⟨_, -, heq⟩ := map_eq_ok_iff.mp hprofile
  rw [← heq] at htoken
  by_contra hbody
  simp [Profile.bodyTokens, hbody] at htoken

namespace Scorer

variable {before after : Snapshot} {scorer : Scorer ℝ}
  (h : ofSnapshots before after = .ok scorer) {threshold : ℝ} (hthreshold : 0 ≤ threshold)

include h

theorem boundsMoves : scorer.BoundsMoves where
  extraction b a e _ hvalue := (extractionFormula h b a e).bounds hvalue
  inlining b a i _ hvalue := (inliningFormula h b a i).bounds hvalue

include hthreshold

theorem codeMoved_of_extracted {b a e : NodeId}
    (hextracted : (Evidence.ofScorer scorer threshold).extracted b a e = true) :
    CodeMoved (stopTokens (scorer.profile .before b) (scorer.profile .after a))
      (scorer.profile .after e).bodyTokens (scorer.profile .before b).bodyTokens
      (scorer.profile .after a).bodyTokens := by
  obtain ⟨token, hmem, hcount⟩ :=
    Weights.exists_count_pos ((extractionFormula h b a e).part_pos hthreshold hextracted)
  refine ⟨token, ?_, by omega, by omega⟩
  rw [mem_stopTokens_iff]
  exact (Finset.mem_filter.mp hmem).2

theorem codeMoved_of_inlined {b a i : NodeId}
    (hinlined : (Evidence.ofScorer scorer threshold).inlined b a i = true) :
    CodeMoved [] (scorer.profile .before i).bodyTokens (scorer.profile .after a).bodyTokens
      (scorer.profile .before b).bodyTokens := by
  obtain ⟨token, -, hcount⟩ :=
    Weights.exists_count_pos ((inliningFormula h b a i).part_pos hthreshold hinlined)
  exact ⟨token, List.not_mem_nil, by omega, by omega⟩

end Scorer

namespace TreePair

open Matching (Splits)

variable {trees : TreePair} {evidence : Evidence} {matching : Matching} {r : Relationship}

theorem extracted_of_origin? {moved : Bool} {new : NodeId} {pair : NodeId × NodeId}
    (h : trees.origin? evidence matching moved new = some pair) :
    evidence.extracted pair.1 pair.2 new = true :=
  (Bool.and_eq_true_iff.mp (@List.find?_some _ _ pair _ h)).2

theorem inlined_of_host? {old : NodeId} {pair : NodeId × NodeId}
    (h : trees.host? evidence matching old = some pair) :
    evidence.inlined pair.1 pair.2 old = true :=
  (Bool.and_eq_true_iff.mp (@List.find?_some _ _ pair _ h)).2

section Counterparts

variable (h : Splits trees.before.levelOrder trees.after.levelOrder (trees.matching evidence))
  {b a : NodeId} (hpair : (b, a) ∈ (trees.matching evidence).pairs)

include h hpair

theorem matched_before_iff (other : NodeId) :
    Matched (trees.changes evidence) b other ↔ other = a := by
  rw [matched_changes_iff h]
  constructor
  · intro hother
    exact congrArg Prod.snd (h.eq_of_fst_eq hother hpair rfl)
  · rintro rfl
    exact hpair

theorem matched_after_iff (other : NodeId) :
    Matched (trees.changes evidence) other a ↔ other = b := by
  rw [matched_changes_iff h]
  constructor
  · intro hother
    exact congrArg Prod.fst (h.eq_of_snd_eq hother hpair rfl)
  · rintro rfl
    exact hpair

end Counterparts

end TreePair

namespace Scorer

variable {before after : Snapshot} {scorer : Scorer ℝ}
  (h : ofSnapshots before after = .ok scorer) {threshold : ℝ} (hthreshold : 0 ≤ threshold)
  (hbefore : before.tree.Coherent) (hafter : after.tree.Coherent)

include h hthreshold hbefore hafter

theorem extractsCode_of_extracted {b a e : NodeId}
    (hpair : (b, a) ∈
      (TreePair.matching ⟨before.tree, after.tree⟩ (.ofScorer scorer threshold)).pairs)
    (hextracted : (Evidence.ofScorer scorer threshold).extracted b a e = true) :
    scorer.ExtractsCode before after
      (TreePair.changes ⟨before.tree, after.tree⟩ (.ofScorer scorer threshold)) b e := by
  obtain ⟨hbeforeProfile, hafterProfile, -⟩ := ofSnapshots_eq_ok_iff.mp h
  have hsplits := @TreePair.splits_matching ⟨before.tree, after.tree⟩ hbefore hafter
    (.ofScorer scorer threshold)
  obtain ⟨token, htoken, hpart, hless⟩ := codeMoved_of_extracted h hthreshold hextracted
  obtain ⟨x, hx, hxBody⟩ :=
    SnapshotProfile.hasBody_of_count_pos hbeforeProfile (Nat.zero_lt_of_lt hless)
  obtain ⟨z, hz, hzBody⟩ := SnapshotProfile.hasBody_of_count_pos hafterProfile hpart
  obtain ⟨y, hy⟩ := CodeTree.exists_node?_of_lt_size
    (hafter.lt_size_of_mem_levelOrder (hsplits.snd_mem hpair))
  refine ⟨a, x, y, z, TreePair.matched_before_iff hsplits hpair, hx, hy, hz, hxBody, hzBody, token,
    ?_, hpart, hless⟩
  rw [← SnapshotProfile.params_find hbeforeProfile (hsplits.fst_mem hpair) hx,
    ← SnapshotProfile.params_find hafterProfile (hsplits.snd_mem hpair) hy]
  exact htoken

theorem inlinesCode_of_inlined {b a i : NodeId}
    (hpair : (b, a) ∈
      (TreePair.matching ⟨before.tree, after.tree⟩ (.ofScorer scorer threshold)).pairs)
    (hinlined : (Evidence.ofScorer scorer threshold).inlined b a i = true) :
    scorer.InlinesCode before after
      (TreePair.changes ⟨before.tree, after.tree⟩ (.ofScorer scorer threshold)) i a := by
  obtain ⟨hbeforeProfile, hafterProfile, -⟩ := ofSnapshots_eq_ok_iff.mp h
  have hsplits := @TreePair.splits_matching ⟨before.tree, after.tree⟩ hbefore hafter
    (.ofScorer scorer threshold)
  obtain ⟨token, htoken, hpart, hless⟩ := codeMoved_of_inlined h hthreshold hinlined
  obtain ⟨x, hx, hxBody⟩ := SnapshotProfile.hasBody_of_count_pos hbeforeProfile hpart
  obtain ⟨y, hy, hyBody⟩ :=
    SnapshotProfile.hasBody_of_count_pos hafterProfile (Nat.zero_lt_of_lt hless)
  exact ⟨b, x, y, TreePair.matched_after_iff hsplits hpair, hx, hy, hxBody, hyBody, token, htoken,
    hpart, hless⟩

theorem movesCode_changes :
    scorer.MovesCode before after
      (TreePair.changes ⟨before.tree, after.tree⟩ (.ofScorer scorer threshold)) := by
  have hsplits := @TreePair.splits_matching ⟨before.tree, after.tree⟩ hbefore hafter
    (.ofScorer scorer threshold)
  constructor
  · intro r hr hkind
    obtain ⟨_, _, _, hpair, -, horigin, rfl⟩ :=
      ((TreePair.mem_changes_iff hsplits).mp hr).exists_origin hkind
    exact ⟨_, _, rfl, rfl, extractsCode_of_extracted h hthreshold hbefore hafter hpair
      (TreePair.extracted_of_origin? horigin)⟩
  · intro r hr hkind
    obtain ⟨_, _, hpair, -, hhost, rfl⟩ :=
      ((TreePair.mem_changes_iff hsplits).mp hr).exists_host hkind
    exact ⟨_, _, rfl, rfl, inlinesCode_of_inlined h hthreshold hbefore hafter hpair
      (TreePair.inlined_of_host? hhost)⟩

end Scorer

/-- The nodes of a relationship are no files. -/
def Report.Context.AvoidsFiles (context : Report.Context) (r : Relationship) : Prop :=
  (∀ node, context.beforeNode? r = some node → node.kind ≠ .file) ∧
    ∀ node, context.afterNode? r = some node → node.kind ≠ .file

namespace JavaScript

variable {grammar : Grammar}

theorem kind_ne_file_of_hasBody {files : PathMap ByteArray} {id : NodeId} {node : Node}
    (hnode : (outline grammar files).node? id = some node)
    (hbody : node.location.hasBody = true) : node.kind ≠ .file := by
  intro hkind
  obtain ⟨entry, hstands⟩ := exists_stands_of_kind hnode hkind
  obtain ⟨file, hfile, helement, -⟩ := hstands.exists_file
  cases hnode.symm.trans hfile
  rw [helement] at hbody
  simp [fileElement, Location.hasBody] at hbody

theorem avoidsFiles_of_hasBody {before after : PathMap ByteArray} {r : Relationship}
    {b a : NodeId} {x y : Node} (hb : r.before = some b) (ha : r.after = some a)
    (hx : (outline grammar before).node? b = some x) (hy : (outline grammar after).node? a = some y)
    (hxBody : x.location.hasBody = true) (hyBody : y.location.hasBody = true) :
    (contextOf grammar before after).AvoidsFiles r := by
  constructor
  · intro node hnode
    rw [Report.Context.beforeNode?, hb, Option.bind_some] at hnode
    cases hx.symm.trans hnode
    exact kind_ne_file_of_hasBody hx hxBody
  · intro node hnode
    rw [Report.Context.afterNode?, ha, Option.bind_some] at hnode
    cases hy.symm.trans hnode
    exact kind_ne_file_of_hasBody hy hyBody

theorem avoidsFiles_of_movesCode {before after : PathMap ByteArray} {scorer : Scorer ℝ}
    {found : List Relationship}
    (h : scorer.MovesCode (snapshot grammar before) (snapshot grammar after) found)
    {r : Relationship} (hr : r ∈ found)
    (hkind : (r.kind = .extract ∨ r.kind = .extractAndMove) ∨ r.kind = .inline) :
    (contextOf grammar before after).AvoidsFiles r := by
  rcases hkind with hkind | hkind
  · obtain ⟨b, e, hb, he, _, x, _, z, -, hx, -, hz, hxBody, hzBody, -⟩ := h.extraction r hr hkind
    exact avoidsFiles_of_hasBody hb he hx hz hxBody hzBody
  · obtain ⟨i, a, hi, ha, _, x, y, -, hx, hy, hxBody, hyBody, -⟩ := h.inlining r hr hkind
    exact avoidsFiles_of_hasBody hi ha hx hy hxBody hyBody

end JavaScript

/-- Whatever the threshold, an extraction or inlining needs code that moved from one body to
another, and no JavaScript file is part of one. -/
theorem extraction_and_inlining_move_code (threshold : ℝ) (hthreshold : 0 ≤ threshold) :
    (∀ (before after : Snapshot) (scorer : Scorer ℝ), before.tree.Built → after.tree.Built →
      Scorer.ofSnapshots before after = .ok scorer →
        scorer.BoundsMoves ∧ ∃ found, relationships threshold before after = .ok found ∧
          scorer.MovesCode before after found) ∧
    ∀ (grammar : JavaScript.Grammar) (before after : PathMap ByteArray) found,
      relationships threshold (JavaScript.snapshot grammar before)
        (JavaScript.snapshot grammar after) = .ok found →
      ∀ r ∈ found, (r.kind = .extract ∨ r.kind = .extractAndMove) ∨ r.kind = .inline →
        (JavaScript.contextOf grammar before after).AvoidsFiles r := by
  constructor
  · intro before after scorer hbefore hafter hscorer
    exact ⟨Scorer.boundsMoves hscorer, _, map_eq_ok_iff.mpr ⟨scorer, hscorer, rfl⟩,
      Scorer.movesCode_changes hscorer hthreshold hbefore.coherent hafter.coherent⟩
  · intro grammar before after found hfound r hr hkind
    obtain ⟨scorer, hscorer, rfl⟩ := map_eq_ok_iff.mp hfound
    have hmoves := Scorer.movesCode_changes hscorer hthreshold
      (JavaScript.grown_outline grammar before).built.coherent
      (JavaScript.grown_outline grammar after).built.coherent
    exact JavaScript.avoidsFiles_of_movesCode hmoves hr hkind

theorem Ratio.exceeds_of_le {ratio : Ratio ℝ} {threshold higher : ℝ} (hle : threshold ≤ higher)
    (hexceeds : ratio.exceeds higher = true) : ratio.exceeds threshold = true := by
  obtain ⟨value, hvalue, hlt⟩ := exceeds_iff.mp hexceeds
  exact exceeds_iff.mpr ⟨value, hvalue, hle.trans_lt hlt⟩

namespace JavaScript

theorem relationships_division {threshold : ℝ} (hle : threshold ≤ 1 / 2) :
    relationships threshold whole divided = .ok divisionFound := by
  have hdocuments : max whole.tree.size divided.tree.size = 4 := by decide +kernel
  rw [parsed_wholeFiles.scorable.relationships_eq_ok parsed_dividedFiles.scorable, hdocuments]
  refine congrArg Except.ok (changes_division ?_ ?_)
  · exact Ratio.exceeds_of_le hle (extracted_division 2 (by decide))
  · exact Ratio.exceeds_of_le hle (extracted_division 3 (by decide))

theorem division_moves_code :
    ∃ scorer : Scorer ℝ, Scorer.ofSnapshots whole divided = .ok scorer ∧
      relationships (0 : ℝ) whole divided = .ok divisionFound ∧
      scorer.BoundsMoves ∧ scorer.MovesCode whole divided divisionFound ∧
      ∀ r ∈ divisionFound, r.kind = .extract →
        (contextOf divisionGrammar wholeFiles dividedFiles).AvoidsFiles r := by
  have hfound : relationships (0 : ℝ) whole divided = .ok divisionFound :=
    relationships_division (by norm_num)
  obtain ⟨scorer, hscorer⟩ :=
    Scorable.exists_scorer ℝ parsed_wholeFiles.scorable parsed_dividedFiles.scorable
  obtain ⟨hsnapshots, hfiles⟩ := extraction_and_inlining_move_code 0 le_rfl
  obtain ⟨hbounds, found, hresult, hmoves⟩ := hsnapshots whole divided scorer
    (grown_outline _ _).built (grown_outline _ _).built hscorer
  cases hfound.symm.trans hresult
  exact ⟨scorer, hscorer, hfound, hbounds, hmoves, fun r hr hkind =>
    hfiles divisionGrammar wholeFiles dividedFiles divisionFound hfound r hr (.inl (.inl hkind))⟩

end JavaScript

end Lineage
