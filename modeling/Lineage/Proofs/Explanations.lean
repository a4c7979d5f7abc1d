import Lineage.Proofs.Entries
import Lineage.Proofs.LastItem

namespace Lineage

namespace Relationship

def ExtractedFrom (b : NodeId) (r : Relationship) : Prop :=
  (r.kind = .extract ∨ r.kind = .extractAndMove) ∧ r.before = some b

def InlinedInto (a : NodeId) (r : Relationship) : Prop :=
  r.kind = .inline ∧ r.after = some a

end Relationship

namespace Report

open Relationship (ExtractedFrom InlinedInto Matched)

/-- An extraction or inlining that finds room at an entry. -/
inductive Noted (context : Context) (found : List Relationship) (r : Relationship) : Prop
  | extraction {b : NodeId} {x : Node} :
      IsLast (ExtractedFrom b) found r → context.before.tree.node? b = some x →
      x.kind ≠ .file → Noted context found r
  | inlining {b a : NodeId} {x : Node} :
      IsLast (InlinedInto a) found r → Matched found b a →
      context.before.tree.node? b = some x → x.kind ≠ .file →
      (∀ other ∈ found, ¬ExtractedFrom b other) → Noted context found r

/-- An entry has the node that code was extracted from, or inlined into, on its side, and the other
one as the related node. -/
def Annotates (context : Context) (r : Relationship) (shown : Entry) : Prop :=
  ∃ x y, context.beforeNode? r = some x ∧ context.afterNode? r = some y ∧
    if r.kind = .inline then
      shown.after = some (.ofNode y) ∧ shown.related = some (.ofNode x)
    else shown.before = some (.ofNode x) ∧ shown.related = some (.ofNode y)

/-- The entries of a report note what finds room, and nothing else. -/
structure NotesLast (context : Context) (found : List Relationship) (report : Report) : Prop where
  complete : ∀ r, Noted context found r → ∃ placed ∈ report.entries, Annotates context r placed.2
  sound : ∀ placed ∈ report.entries, placed.2.related.isSome = true →
    ∃ r, Noted context found r ∧ Annotates context r placed.2

section Search

variable {context : Context} {found : List Relationship} {b a : NodeId} {x : Node}

theorem isExtraction_iff (hx : context.before.tree.node? b = some x) (hfile : x.kind ≠ .file)
    (r : Relationship) :
    (context.isInner r && (r.kind == .extract || r.kind == .extractAndMove)
      && r.before == some b) = true ↔ ExtractedFrom b r := by
  simp only [Bool.and_eq_true, Bool.or_eq_true, beq_iff_eq, ExtractedFrom]
  constructor
  · rintro ⟨⟨-, hkind⟩, hside⟩
    exact ⟨hkind, hside⟩
  · rintro ⟨hkind, hside⟩
    refine ⟨⟨?_, hkind⟩, hside⟩
    rw [Context.isInner_of_before hside hx, Node.isFile, beq_false_of_ne hfile]
    rfl

theorem extraction?_eq_some_iff (hx : context.before.tree.node? b = some x)
    (hfile : x.kind ≠ .file) {r : Relationship} :
    extraction? context found b = some r ↔ IsLast (ExtractedFrom b) found r :=
  find?_reverse_eq_some_iff fun r _ => isExtraction_iff hx hfile r

theorem extraction?_eq_none_iff (hx : context.before.tree.node? b = some x)
    (hfile : x.kind ≠ .file) :
    extraction? context found b = none ↔ ∀ r ∈ found, ¬ExtractedFrom b r := by
  simp only [extraction?, List.find?_eq_none, List.mem_reverse, isExtraction_iff hx hfile]

theorem inlining?_eq_some_iff
    (hinner : ∀ r ∈ found, r.kind = .inline → context.isInner r = true) {r : Relationship} :
    inlining? context found a = some r ↔ IsLast (InlinedInto a) found r := by
  refine find?_reverse_eq_some_iff ?_
  intro r hr
  simp only [Bool.and_eq_true, beq_iff_eq, InlinedInto]
  constructor
  · rintro ⟨⟨-, hkind⟩, hside⟩
    exact ⟨hkind, hside⟩
  · rintro ⟨hkind, hside⟩
    exact ⟨⟨hinner r hr hkind, hkind⟩, hside⟩

end Search

end Report

namespace JavaScript

open Relationship (ExtractedFrom InlinedInto Matched)
open Report (Annotates Noted NotesLast)

variable {grammar : Grammar} {before after : PathMap ByteArray} {evidence : Evidence}

/-- Nothing calls a file, so no file is ever inlined. -/
theorem isInner_of_inline (hbefore : before.Distinct) {r : Relationship}
    (hr : r ∈ (treesOf grammar before after).changes evidence) (hkind : r.kind = .inline) :
    (contextOf grammar before after).isInner r = true := by
  have h := splits_treesOf grammar before after evidence
  cases (TreePair.mem_changes_iff h).mp hr with
  | paired => exact absurd hkind (TreePair.classify_ne (by decide) _ _)
  | extracted | moved | removed | added => cases hkind
  | @inlined pair old _ hold hhost =>
      obtain ⟨z, hz⟩ := CodeTree.exists_node?_of_lt_size
        ((grown_outline grammar before).mem_levelOrder_iff.mp (List.mem_filter.mp hold).1)
      have hfile : z.kind ≠ .file := by
        intro hfile
        obtain ⟨entry, offset, hstands⟩ := exists_stands (CodeTree.lt_size_of_node? hz)
        have hzero := (hstands.eq_zero_iff_kind hz).mp hfile
        subst hzero
        have hhosts := @List.find?_some _ _ pair _ hhost
        rw [Bool.and_eq_true, not_calls_file hbefore hstands] at hhosts
        cases hhosts.1
      rw [Report.Context.isInner_of_before rfl hz, Node.isFile, beq_false_of_ne hfile]
      rfl

theorem exists_entry_of_pair {report : Report}
    (hreport : Report.build (snapshot grammar before) (snapshot grammar after)
      ((treesOf grammar before after).changes evidence) = .ok report) {b a : NodeId}
    (hpair : (b, a) ∈ ((treesOf grammar before after).matching evidence).pairs) {x : Node}
    (hx : (outline grammar before).node? b = some x) (hfile : x.kind ≠ .file) :
    ∃ placed ∈ report.entries, placed.2.before = ((outline grammar before).node? b).map .ofNode ∧
      placed.2.after = ((outline grammar after).node? a).map .ofNode ∧
      placed.2.related = (((Report.extraction? (contextOf grammar before after)
          ((treesOf grammar before after).changes evidence) b).or
        (Report.inlining? (contextOf grammar before after)
          ((treesOf grammar before after).changes evidence) a)).bind
            (Report.explainedNode? (contextOf grammar before after))).map .ofNode := by
  have h := splits_treesOf grammar before after evidence
  have hinner : (contextOf grammar before after).isInner (.pair b a
      ((treesOf grammar before after).classify evidence
        ((treesOf grammar before after).matching evidence) b a)) = true := by
    rw [Report.Context.isInner_of_before rfl hx, Node.isFile, beq_false_of_ne hfile]
    rfl
  have hmatching := @TreePair.isNonMatching_classify (treesOf grammar before after) evidence
    ((treesOf grammar before after).matching evidence) b a
  obtain ⟨placed, hplaced, file, hentry⟩ := Report.exists_entry hreport
    (Report.mem_inner_iff.mpr ⟨(TreePair.mem_changes_iff h).mpr (.paired hpair), hinner, hmatching⟩)
    (targets_ne_nil_of_node? hx rfl)
  obtain ⟨hshows, hrelated⟩ := Report.shows_of_entry hentry
  exact ⟨placed, hplaced, hshows.before, hshows.after, hrelated⟩

theorem exists_pair_of_mem_inner {r : Relationship}
    (hr : r ∈ Report.inner (contextOf grammar before after)
      ((treesOf grammar before after).changes evidence)) {b a : NodeId}
    (hb : r.before = some b) (ha : r.after = some a) :
    (b, a) ∈ ((treesOf grammar before after).matching evidence).pairs ∧
      ∃ x, (outline grammar before).node? b = some x ∧ x.kind ≠ .file := by
  have h := splits_treesOf grammar before after evidence
  obtain ⟨hr, hinner, hmatching⟩ := Report.mem_inner_iff.mp hr
  obtain ⟨b', a', hpair, rfl⟩ := ((TreePair.mem_changes_iff h).mp hr).of_isMatch
    ⟨by simp [hb], by simp [ha], hmatching⟩
  cases hb
  cases ha
  obtain ⟨x, hx, hfile⟩ := (Option.any_eq_true _ _).mp hinner
  exact ⟨hpair, x, hx, by simpa [Node.isFile] using hfile⟩

theorem exists_nodes_of_nonMatching {r : Relationship}
    (hr : r ∈ (treesOf grammar before after).changes evidence) (hkind : r.isNonMatching = true) :
    ∃ x y, (contextOf grammar before after).beforeNode? r = some x ∧
      (contextOf grammar before after).afterNode? r = some y := by
  have h := splits_treesOf grammar before after evidence
  have hbefore {b : NodeId} (hb : b ∈ (outline grammar before).levelOrder) :=
    CodeTree.exists_node?_of_lt_size ((grown_outline grammar before).mem_levelOrder_iff.mp hb)
  have hafter {a : NodeId} (ha : a ∈ (outline grammar after).levelOrder) :=
    CodeTree.exists_node?_of_lt_size ((grown_outline grammar after).mem_levelOrder_iff.mp ha)
  cases (TreePair.mem_changes_iff h).mp hr with
  | paired => cases (TreePair.isNonMatching_classify _ _).symm.trans hkind
  | removed | added => cases hkind
  | extracted hpair hnew | moved hpair hnew =>
      obtain ⟨x, hx⟩ := hbefore (h.fst_mem hpair)
      obtain ⟨y, hy⟩ := hafter (List.mem_filter.mp hnew).1
      exact ⟨x, y, hx, hy⟩
  | inlined hpair hold =>
      obtain ⟨x, hx⟩ := hbefore (List.mem_filter.mp hold).1
      obtain ⟨y, hy⟩ := hafter (h.snd_mem hpair)
      exact ⟨x, y, hx, hy⟩

section Notes

variable {r : Relationship} {shown : Entry} {b a : NodeId}

theorem annotates_of_extraction (hr : r ∈ (treesOf grammar before after).changes evidence)
    (hextracted : ExtractedFrom b r)
    (hbefore : shown.before = ((outline grammar before).node? b).map .ofNode)
    (hrelated : shown.related =
      (Report.explainedNode? (contextOf grammar before after) r).map .ofNode) :
    Annotates (contextOf grammar before after) r shown := by
  obtain ⟨hkind, hside⟩ := hextracted
  have hinline : r.kind ≠ .inline := by
    rcases hkind with hkind | hkind <;> simp [hkind]
  have hnonMatching : r.isNonMatching = true := by
    rcases hkind with hkind | hkind <;> simp [Relationship.isNonMatching, hkind,
      RelationKind.isNonMatching]
  obtain ⟨x, y, hx, hy⟩ := exists_nodes_of_nonMatching hr hnonMatching
  have hb : (outline grammar before).node? b = some x := by
    simpa [Report.Context.beforeNode?, hside, snapshot] using hx
  rw [hb] at hbefore
  rw [Report.explainedNode?, if_neg hinline, hy] at hrelated
  refine ⟨x, y, hx, hy, ?_⟩
  rw [if_neg hinline]
  exact ⟨hbefore, hrelated⟩

theorem annotates_of_inlining (hr : r ∈ (treesOf grammar before after).changes evidence)
    (hinlined : InlinedInto a r)
    (hafter : shown.after = ((outline grammar after).node? a).map .ofNode)
    (hrelated : shown.related =
      (Report.explainedNode? (contextOf grammar before after) r).map .ofNode) :
    Annotates (contextOf grammar before after) r shown := by
  obtain ⟨hkind, hside⟩ := hinlined
  obtain ⟨x, y, hx, hy⟩ := exists_nodes_of_nonMatching hr
    (by rw [Relationship.isNonMatching, hkind]; rfl)
  have ha : (outline grammar after).node? a = some y := by
    simpa [Report.Context.afterNode?, hside, snapshot] using hy
  rw [ha] at hafter
  rw [Report.explainedNode?, if_pos hkind, hx] at hrelated
  refine ⟨x, y, hx, hy, ?_⟩
  rw [if_pos hkind]
  exact ⟨hafter, hrelated⟩

variable {report : Report}

theorem exists_annotated_of_noted (hdistinct : before.Distinct)
    (hreport : Report.build (snapshot grammar before) (snapshot grammar after)
      ((treesOf grammar before after).changes evidence) = .ok report)
    (hnoted : Noted (contextOf grammar before after)
      ((treesOf grammar before after).changes evidence) r) :
    ∃ placed ∈ report.entries, Annotates (contextOf grammar before after) r placed.2 := by
  have h := splits_treesOf grammar before after evidence
  cases hnoted with
  | @extraction b x hlast hx hfile =>
      obtain ⟨_, ⟨b, a⟩, _, hpair, -, -, rfl⟩ :=
        ((TreePair.mem_changes_iff h).mp hlast.mem).exists_origin hlast.property.1
      cases hlast.property.2
      obtain ⟨placed, hplaced, hbefore, -, hrelated⟩ := exists_entry_of_pair hreport hpair hx hfile
      rw [(Report.extraction?_eq_some_iff hx hfile).mpr hlast] at hrelated
      exact ⟨placed, hplaced, annotates_of_extraction hlast.mem hlast.property hbefore hrelated⟩
  | @inlining b a x hlast hmatched hx hfile hnone =>
      have hpair := (TreePair.matched_changes_iff h).mp hmatched
      obtain ⟨placed, hplaced, -, hafter, hrelated⟩ := exists_entry_of_pair hreport hpair hx hfile
      rw [(Report.extraction?_eq_none_iff hx hfile).mpr hnone, Option.none_or,
        (Report.inlining?_eq_some_iff fun r hr => isInner_of_inline hdistinct hr).mpr hlast]
        at hrelated
      exact ⟨placed, hplaced, annotates_of_inlining hlast.mem hlast.property hafter hrelated⟩

theorem exists_noted_of_annotated (hdistinct : before.Distinct)
    (hreport : Report.build (snapshot grammar before) (snapshot grammar after)
      ((treesOf grammar before after).changes evidence) = .ok report)
    {placed : FileReport × Entry} (hplaced : placed ∈ report.entries)
    (hsome : placed.2.related.isSome = true) :
    ∃ r, Noted (contextOf grammar before after)
        ((treesOf grammar before after).changes evidence) r ∧
      Annotates (contextOf grammar before after) r placed.2 := by
  have h := splits_treesOf grammar before after evidence
  obtain ⟨own, hown, -, file, hentry⟩ := Report.exists_inner_of_mem_entries hreport hplaced
  obtain ⟨hshows, hrelated⟩ := Report.shows_of_entry hentry
  cases hexplanation : Report.explanation? (contextOf grammar before after)
      ((treesOf grammar before after).changes evidence) own with
  | none =>
      rw [hrelated, hexplanation] at hsome
      cases hsome
  | some r =>
      rw [hexplanation, Option.bind_some] at hrelated
      rw [Report.explanation?] at hexplanation
      split at hexplanation
      · next b a hb ha =>
        obtain ⟨hpair, x, hx, hfile⟩ := exists_pair_of_mem_inner hown hb ha
        have hbefore := hshows.before
        have hafter := hshows.after
        rw [Report.Context.beforeNode?, hb, Option.bind_some] at hbefore
        rw [Report.Context.afterNode?, ha, Option.bind_some] at hafter
        refine ⟨r, ?_⟩
        rcases Option.or_eq_some_iff.mp hexplanation with hextraction | ⟨hnone, hinlining⟩
        · have hlast := (Report.extraction?_eq_some_iff hx hfile).mp hextraction
          exact ⟨.extraction hlast hx hfile,
            annotates_of_extraction hlast.mem hlast.property hbefore hrelated⟩
        · have hlast := (Report.inlining?_eq_some_iff
            fun r hr => isInner_of_inline hdistinct hr).mp hinlining
          have hmatched := (TreePair.matched_changes_iff h).mpr hpair
          exact ⟨.inlining hlast hmatched hx hfile
            ((Report.extraction?_eq_none_iff hx hfile).mp hnone),
            annotates_of_inlining hlast.mem hlast.property hafter hrelated⟩
      · cases hexplanation

end Notes

/-- Each entry notes the last extraction from its declaration, or else the last inlining into it,
and nothing else is noted. -/
theorem last_extraction_or_inlining_is_noted (grammar : Grammar) (before after : PathMap ByteArray)
    (hbefore : Parsed grammar before) (hafter : Parsed grammar after) :
    EveryComparison (snapshot grammar before) (snapshot grammar after)
      (NotesLast (contextOf grammar before after)) := by
  refine everyComparison_of_changes hbefore hafter ?_
  intro evidence report hreport
  constructor
  · intro r hnoted
    exact exists_annotated_of_noted hbefore.distinct hreport hnoted
  · intro placed hplaced hrelated
    exact exists_noted_of_annotated hbefore.distinct hreport hplaced hrelated

def statementTree (start : Nat) : SyntaxTree :=
  .node "expression_statement" "" true start (start + 2)
    [.node "identifier" "" true start (start + 1) [],
      .node ";" "" false (start + 1) (start + 2) []]

def callTree (start stop : Nat) (arguments : List SyntaxTree) : SyntaxTree :=
  .node "call_expression" "" true start stop
    [.node "identifier" "function" true start (start + 1) [],
      .node "arguments" "arguments" true (start + 1) stop
        (.node "(" "" false (start + 1) (start + 2) [] :: arguments ++
          [.node ")" "" false (stop - 1) stop []])]

/-- The text `function f(){{x;}{y;}}`. -/
def wholeSource : ByteArray :=
  "function f()\x7b\x7bx;\x7d\x7by;\x7d\x7d".toUTF8

/-- The text `function f(){g(h())}function g(){x;}function h(){y;}`. -/
def dividedSource : ByteArray :=
  "function f()\x7bg(h())\x7dfunction g()\x7bx;\x7dfunction h()\x7by;\x7d".toUTF8

def wholeProgram : SyntaxTree :=
  .node "program" "" true 0 22
    [functionTree 0 22
      [blockTree "" 13 17 [statementTree 14], blockTree "" 17 21 [statementTree 18]]]

def dividedProgram : SyntaxTree :=
  .node "program" "" true 0 52
    [functionTree 0 20
      [.node "expression_statement" "" true 13 19 [callTree 13 19 [callTree 15 18 []]]],
      functionTree 20 36 [statementTree 33], functionTree 36 52 [statementTree 49]]

def divisionGrammar : Grammar :=
  .ofList [(wholeSource, wholeProgram), (dividedSource, dividedProgram)]

def wholeFiles : PathMap ByteArray :=
  ⟨[(⟨"a.js"⟩, wholeSource)]⟩

def dividedFiles : PathMap ByteArray :=
  ⟨[(⟨"a.js"⟩, dividedSource)]⟩

theorem fits_divisionGrammar (bytes : ByteArray) : (divisionGrammar bytes).Fits bytes.size := by
  refine fits_ofList (List.forall_mem_cons.mpr ⟨?_, List.forall_mem_singleton.mpr ?_⟩) bytes
  · change wholeProgram.Fits 22
    simp [SyntaxTree.Fits, SyntaxTree.WellFormed, SyntaxTree.Between, SyntaxTree.start,
      SyntaxTree.stop, wholeProgram, functionTree, blockTree, statementTree]
  · change dividedProgram.Fits 52
    simp [SyntaxTree.Fits, SyntaxTree.WellFormed, SyntaxTree.Between, SyntaxTree.start,
      SyntaxTree.stop, dividedProgram, functionTree, blockTree, statementTree, callTree]

theorem parsed_wholeFiles : Parsed divisionGrammar wholeFiles :=
  ⟨by decide, fun _ _ => fits_divisionGrammar _⟩

theorem parsed_dividedFiles : Parsed divisionGrammar dividedFiles :=
  ⟨by decide, fun _ _ => fits_divisionGrammar _⟩

abbrev whole : Snapshot :=
  snapshot divisionGrammar wholeFiles

abbrev divided : Snapshot :=
  snapshot divisionGrammar dividedFiles

theorem last_extracted_block_is_noted :
    Parsed divisionGrammar wholeFiles ∧ Parsed divisionGrammar dividedFiles ∧
      ∃ found report, findRelationships {} whole divided = .ok found ∧
        Report.build whole divided found = .ok report ∧ NotesLast ⟨whole, divided⟩ found report :=
  ⟨parsed_wholeFiles, parsed_dividedFiles,
    (last_extraction_or_inlining_is_noted divisionGrammar wholeFiles dividedFiles parsed_wholeFiles
      parsed_dividedFiles).1 {} (by decide)⟩

section Division

abbrev division : TreePair :=
  treesOf divisionGrammar wholeFiles dividedFiles

/-- What is found between the two: `f` stayed, and `g` and `h` were extracted from it. -/
abbrev divisionFound : List Relationship :=
  [.pair 0 0 .same, .pair 1 1 .same, .pair 1 2 .extract, .pair 1 3 .extract]

theorem matching_division (evidence : Evidence) :
    division.matching evidence = ⟨[(0, 0), (1, 1)], [], [2, 3]⟩ := by
  have hnames : Matching.start division.before division.after = ⟨[], [0, 1], [0, 1, 2, 3]⟩ ∧
      division.sameNamed division.before.roots division.after.roots = [(0, 0)] ∧
      division.namedChildren 0 0 = [(1, 1)] ∧ division.namedChildren 1 1 = [] := by
    decide +kernel
  have hnamed : division.matchByName (.start division.before division.after) =
      ⟨[(0, 0), (1, 1)], [], [2, 3]⟩ := by
    have hfree : Matching.isFree ⟨[], [0, 1], [0, 1, 2, 3]⟩ 0 0 = true := rfl
    rw [TreePair.matchByName, hnames.1, hnames.2.1, TreePair.cascade, if_pos hfree, hnames.2.2.1,
      List.append_nil, TreePair.cascade_eq_confirm rfl (by simp [hnames])]
    rfl
  rw [TreePair.matching, hnamed]
  rfl

theorem changes_division {evidence : Evidence} (hg : evidence.extracted 1 1 2 = true)
    (hh : evidence.extracted 1 1 3 = true) : division.changes evidence = divisionFound := by
  have htyped : division.typedPairs evidence ⟨[(0, 0), (1, 1)], [], [2, 3]⟩ =
      [.pair 0 0 .same, .pair 1 1 .same] := by
    simp only [TreePair.typedPairs, TreePair.classify_eq]
    decide +kernel
  have hcalls : ∀ new ∈ [2, 3], TreePair.calls division.after 0 new = false ∧
      TreePair.calls division.after 1 new = true ∧
      division.sameParent ⟨[(0, 0), (1, 1)], [], [2, 3]⟩ 1 new = true := by
    decide +kernel
  simp [TreePair.changes, matching_division, htyped, TreePair.distribute,
    TreePair.isExtracted, hcalls, hg, hh]

abbrev bodyKept (new : NodeId) : Bag String :=
  Scorer.bodyKept ((SnapshotProfile.of whole).find 1) ((SnapshotProfile.of divided).find 1)
    ((SnapshotProfile.of divided).find new)

abbrev bodyLost : Bag String :=
  Scorer.bodyLost ((SnapshotProfile.of whole).find 1) ((SnapshotProfile.of divided).find 1)

theorem extracted_division : ∀ new ∈ [2, 3],
    (Evidence.ofScorer (.ofProfiles 4 (.of whole) (.of divided)) (1 / 2 : ℝ)).extracted 1 1 new =
      true := by
  have hheld : ∀ new ∈ [2, 3],
      (∀ key ∈ (bodyKept new).keys, (bodyKept new).count key ≤ bodyLost.count key) ∧
      ∃ token ∈ (bodyKept new).keys, 0 < (bodyKept new).count token ∧
        0 < ((SnapshotProfile.of whole).tokenFrequency.union
          (SnapshotProfile.of divided).tokenFrequency).count token := by
    decide +kernel
  intro new hnew
  exact Evidence.extracted_of_held (by decide) (by norm_num) (hheld new hnew).1 (hheld new hnew).2

end Division

/-- Both `g` and `h` were extracted from `f`, but only the later one is noted. -/
theorem earlier_extraction_is_lost :
    Parsed divisionGrammar wholeFiles ∧ Parsed divisionGrammar dividedFiles ∧
      ∃ found report, relationships (1 / 2 : ℝ) whole divided = .ok found ∧
        Report.build whole divided found = .ok report ∧
        ∃ r ∈ found, r.kind = .extract ∧
          ∀ placed ∈ report.entries, ¬Annotates ⟨whole, divided⟩ r placed.2 := by
  refine ⟨parsed_wholeFiles, parsed_dividedFiles, ?_⟩
  have hfound : relationships (1 / 2 : ℝ) whole divided = .ok divisionFound := by
    have hdocuments : max whole.tree.size divided.tree.size = 4 := by decide +kernel
    rw [parsed_wholeFiles.scorable.relationships_eq_ok parsed_dividedFiles.scorable, hdocuments]
    exact congrArg Except.ok (changes_division (extracted_division 2 (by decide))
      (extracted_division 3 (by decide)))
  obtain ⟨report, hreport⟩ := Report.exists_build parsed_wholeFiles.hasContents
    parsed_dividedFiles.hasContents divisionFound
  refine ⟨_, report, hfound, hreport, .pair 1 2 .extract, by decide, rfl, ?_⟩
  obtain ⟨hnoted, hnew⟩ : (Report.build whole divided divisionFound).toOption.map
        (fun report => report.entries.map fun placed => placed.2.related.map (·.name)) =
      some [some "h"] ∧
    (Report.Context.afterNode? ⟨whole, divided⟩ (.pair 1 2 .extract)).map (·.name) = some "g" := by
    decide +kernel
  rw [hreport] at hnoted
  rintro placed hplaced ⟨x, y, -, hy, -, hrelated⟩
  have hh : placed.2.related.map (·.name) ∈ [some "h"] :=
    Option.some.inj hnoted ▸ List.mem_map_of_mem hplaced
  rw [hy] at hnew
  rw [hrelated] at hh
  have hg : y.name = "g" := Option.some.inj hnew
  simp [NodeSummary.ofNode, hg] at hh

end JavaScript

end Lineage
