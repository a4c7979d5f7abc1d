import Lineage.Proofs.ExactWeights
import Lineage.Proofs.Exhaustion
import Lineage.Proofs.NoChanges

namespace Lineage

/-- Whatever the threshold and the arithmetic of the scores, two snapshots have relationships and a
report of them, and the two have a property. -/
def EveryComparison (before after : Snapshot)
    (property : List Relationship → Report → Prop) : Prop :=
  (∀ config : Config, config.isValid = true → ∃ found report,
    findRelationships config before after = .ok found ∧
      Report.build before after found = .ok report ∧ property found report) ∧
    ∀ (α : Type) [Weighing α] (threshold : α), ∃ found report,
      relationships threshold before after = .ok found ∧
        Report.build before after found = .ok report ∧ property found report

namespace Report

/-- A node that is new, in a file that no report has on its later side. -/
def Stranded (context : Context) (found : List Relationship) (relationship : Relationship) : Prop :=
  context.beforeNode? relationship = none ∧ ∃ node, context.afterNode? relationship = some node ∧
    ∀ owner ∈ found, context.isFile owner = true →
      (context.afterNode? owner).any (·.location.file.same node.location.file) = false

/-- The root of a file after is the counterpart of a class or a function before. -/
def RootConverted (context : Context) (found : List Relationship) (file : Path) : Prop :=
  ∃ b a x y, Relationship.Matched found b a ∧ context.before.tree.node? b = some x ∧
    context.after.tree.node? a = some y ∧ x.kind ≠ .file ∧ y.kind = .file ∧ y.location.file = file

/-- Every relationship of classes and functions that is no extraction and no inlining has its entry,
except for what is new in a file whose root became the counterpart of a declaration. -/
structure Enters (context : Context) (found : List Relationship) (report : Report) : Prop where
  shows_iff : ∀ r ∈ found, context.isInner r = true → r.isNonMatching = false →
    ((∃ placed ∈ report.entries, Shows context r placed.2) ↔ ¬Stranded context found r)
  added_of_stranded : ∀ r ∈ found, context.isInner r = true → r.isNonMatching = false →
    Stranded context found r → ∃ new node, r = .added new ∧
      context.after.tree.node? new = some node ∧ RootConverted context found node.location.file

namespace Context

variable {context : Context} {relationship : Relationship} {b : NodeId} {x : Node}

theorem isFile_of_before (hside : relationship.before = some b)
    (hx : context.before.tree.node? b = some x) : context.isFile relationship = x.isFile := by
  simp [isFile, primary?, beforeNode?, hside, hx]

theorem isInner_of_before (hside : relationship.before = some b)
    (hx : context.before.tree.node? b = some x) : context.isInner relationship = !x.isFile := by
  simp [isInner, primary?, beforeNode?, hside, hx]

end Context

section Targets

variable {context : Context} {files : List Relationship} {relationship : Relationship}

theorem lastIdx?_isSome_iff {α : Type} {test : α → Bool} {xs : List α} :
    (lastIdx? test xs).isSome = true ↔ ∃ x ∈ xs, test x = true := by
  constructor
  · intro h
    rw [lastIdx?, Option.isSome_map, List.find?_isSome] at h
    obtain ⟨⟨x, i⟩, hmem, htest⟩ := h
    have hget := List.mem_zipIdx_iff_getElem?.mp (List.mem_reverse.mp hmem)
    exact ⟨x, List.mem_of_getElem? hget, htest⟩
  · rintro ⟨x, hx, htest⟩
    rw [Option.isSome_iff_exists]
    exact exists_lastIdx? hx htest

theorem targets_ne_nil_iff_of_new {node : Node} (hbefore : context.beforeNode? relationship = none)
    (hafter : context.afterNode? relationship = some node) :
    targets context files relationship ≠ [] ↔ ∃ owner ∈ files,
      (context.afterNode? owner).any (·.location.file.same node.location.file) = true := by
  rw [← lastIdx?_isSome_iff, ← target?]
  simp only [targets, hbefore, hafter, Option.bind_none, Option.bind_some, Option.toList_none,
    List.nil_append]
  cases target? context.afterNode? files node.location.file <;> simp

end Targets

section Build

variable {before after : Snapshot} {found : List Relationship} {report : Report}
  {relationship : Relationship}

theorem mem_inner_iff {context : Context} : relationship ∈ inner context found ↔
    relationship ∈ found ∧ context.isInner relationship = true ∧
      relationship.isNonMatching = false := by
  rw [inner, List.mem_filter, Bool.and_eq_true, Bool.not_eq_true']

theorem mem_entries_iff {placed : FileReport × Entry} :
    placed ∈ report.entries ↔ placed.1 ∈ report.files ∧ placed.2 ∈ placed.1.entries := by
  simp only [entries, List.mem_flatMap, List.mem_map]
  constructor
  · rintro ⟨file, hfile, shown, hshown, rfl⟩
    exact ⟨hfile, hshown⟩
  · rintro ⟨hfile, hshown⟩
    exact ⟨placed.1, hfile, placed.2, hshown, rfl⟩

theorem exists_entry (h : build before after found = .ok report)
    (hmem : relationship ∈ inner ⟨before, after⟩ found)
    (htargets : targets ⟨before, after⟩ (found.filter (Context.isFile ⟨before, after⟩))
      relationship ≠ []) :
    ∃ placed ∈ report.entries, ∃ file, entry ⟨before, after⟩ file relationship
      (explanation? ⟨before, after⟩ found relationship) = .ok placed.2 := by
  obtain ⟨reports, hreports, placed, hplaced, hfiles⟩ := build_eq_ok_iff.mp h
  have hlength : reports.length = (found.filter (Context.isFile ⟨before, after⟩)).length :=
    (mapM_eq_ok_iff.mp hreports).length_eq.symm
  obtain ⟨own, hown, hentries⟩ := exists_result_of_mem hplaced hmem
  obtain ⟨i, hi⟩ := List.exists_mem_of_ne_nil _ htargets
  have hlt : i < reports.length := hlength ▸ lt_length_of_mem_targets hi
  have hinput : (i, reports[i]) ∈ (targets ⟨before, after⟩
      (found.filter (Context.isFile ⟨before, after⟩)) relationship).filterMap
        fun i => reports[i]?.map (i, ·) :=
    List.mem_filterMap.mpr ⟨i, hi, by simp [hlt]⟩
  obtain ⟨result, hresult, hentry⟩ := exists_result_of_mem hentries hinput
  obtain ⟨shown, hshown, rfl⟩ := map_eq_ok_iff.mp hentry
  have hplace : (reports[i], i) ∈ reports.zipIdx :=
    List.mem_zipIdx_iff_getElem?.mpr (List.getElem?_eq_getElem hlt)
  refine ⟨(_, shown), mem_entries_iff.mpr ⟨hfiles ▸ List.mem_map_of_mem hplace, ?_⟩, _, hshown⟩
  refine List.mem_filterMap.mpr ⟨(i, shown), ?_, if_pos rfl⟩
  exact List.mem_flatten.mpr ⟨own, hown, hresult⟩

theorem exists_inner_of_mem_entries (h : build before after found = .ok report)
    {placed : FileReport × Entry} (hmem : placed ∈ report.entries) :
    ∃ relationship ∈ inner ⟨before, after⟩ found,
      targets ⟨before, after⟩ (found.filter (Context.isFile ⟨before, after⟩)) relationship ≠ [] ∧
        ∃ file, entry ⟨before, after⟩ file relationship
          (explanation? ⟨before, after⟩ found relationship) = .ok placed.2 := by
  obtain ⟨reports, -, results, hresults, hfiles⟩ := build_eq_ok_iff.mp h
  obtain ⟨hfile, hentry⟩ := mem_entries_iff.mp hmem
  rw [hfiles] at hfile
  obtain ⟨⟨own, i⟩, -, heq⟩ := List.mem_map.mp hfile
  rw [← heq] at hentry
  obtain ⟨⟨j, shown⟩, hshown, hsame⟩ := List.mem_filterMap.mp hentry
  obtain ⟨-, hsame⟩ := Option.ite_none_right_eq_some.mp hsame
  cases hsame
  obtain ⟨result, hresult, hshown⟩ := List.mem_flatten.mp hshown
  obtain ⟨relationship, hrelationship, hplaced⟩ := exists_input_of_mem hresults hresult
  obtain ⟨⟨k, file⟩, hinput, hown⟩ := exists_input_of_mem hplaced hshown
  obtain ⟨_, hown, heq⟩ := map_eq_ok_iff.mp hown
  cases heq
  obtain ⟨target, htarget, -⟩ := List.mem_filterMap.mp hinput
  exact ⟨relationship, hrelationship, List.ne_nil_of_mem htarget, file, hown⟩

theorem not_shows_of_stranded (h : build before after found = .ok report)
    (hstranded : Stranded ⟨before, after⟩ found relationship)
    {placed : FileReport × Entry} (hmem : placed ∈ report.entries) :
    ¬Shows ⟨before, after⟩ relationship placed.2 := by
  intro hshows
  obtain ⟨hbefore, node, hnode, howners⟩ := hstranded
  obtain ⟨other, -, htargets, file, hentry⟩ := exists_inner_of_mem_entries h hmem
  obtain ⟨⟨-, hotherBefore, hotherAfter⟩, -⟩ := shows_of_entry hentry
  rw [hshows.before, hbefore, Option.map_none, eq_comm, Option.map_eq_none_iff] at hotherBefore
  rw [hshows.after, hnode, Option.map_some, eq_comm, Option.map_eq_some_iff] at hotherAfter
  obtain ⟨otherNode, hotherNode, hsummary⟩ := hotherAfter
  have hfile : otherNode.location.file = node.location.file :=
    Path.eq_of_text_eq (congrArg NodeSummary.file hsummary)
  obtain ⟨owner, howner, hsame⟩ := (targets_ne_nil_iff_of_new hotherBefore hotherNode).mp htargets
  obtain ⟨howner, hisFile⟩ := List.mem_filter.mp howner
  rw [hfile, howners owner howner hisFile] at hsame
  cases hsame

end Build

end Report

namespace JavaScript

open Report (Shows Stranded RootConverted Enters)

variable {grammar : Grammar} {before after : PathMap ByteArray} {evidence : Evidence}

theorem everyComparison_of_changes (hbefore : Parsed grammar before)
    (hafter : Parsed grammar after) {property : List Relationship → Report → Prop}
    (h : ∀ evidence report, Report.build (snapshot grammar before) (snapshot grammar after)
      ((treesOf grammar before after).changes evidence) = .ok report →
        property ((treesOf grammar before after).changes evidence) report) :
    EveryComparison (snapshot grammar before) (snapshot grammar after) property := by
  have hbuild (evidence : Evidence) : ∃ report,
      Report.build (snapshot grammar before) (snapshot grammar after)
        ((treesOf grammar before after).changes evidence) = .ok report :=
    Report.exists_build hbefore.hasContents hafter.hasContents _
  constructor
  · intro config hvalid
    obtain ⟨scorer, hscorer⟩ := Scorable.exists_scorer Float hbefore.scorable hafter.scorable
    obtain ⟨report, hreport⟩ := hbuild (.ofScorer scorer config.threshold)
    exact ⟨_, report, findRelationships_eq_ok hvalid hscorer, hreport, h _ report hreport⟩
  · intro α _ threshold
    obtain ⟨scorer, hscorer⟩ := Scorable.exists_scorer α hbefore.scorable hafter.scorable
    obtain ⟨report, hreport⟩ := hbuild (.ofScorer scorer threshold)
    exact ⟨_, report, map_eq_ok_iff.mpr ⟨scorer, hscorer, rfl⟩, hreport, h _ report hreport⟩

theorem targets_ne_nil_of_not_stranded {r : Relationship}
    (hinner : (contextOf grammar before after).isInner r = true)
    (h : ¬Stranded (contextOf grammar before after)
      ((treesOf grammar before after).changes evidence) r) :
    Report.targets (contextOf grammar before after)
      (((treesOf grammar before after).changes evidence).filter
        (contextOf grammar before after).isFile) r ≠ [] := by
  obtain ⟨node, hprimary, -⟩ := (Option.any_eq_true _ _).mp hinner
  rw [Report.Context.primary?] at hprimary
  split at hprimary
  · next b hside =>
    rw [Report.Context.beforeNode?, hside] at hprimary
    exact targets_ne_nil_of_node? hprimary hside
  · next hside =>
    have hbefore : (contextOf grammar before after).beforeNode? r = none := by
      rw [Report.Context.beforeNode?, hside, Option.bind_none]
    rw [Report.targets_ne_nil_iff_of_new hbefore hprimary]
    by_contra hnone
    refine h ⟨hbefore, node, hprimary, ?_⟩
    intro owner howner hisFile
    rw [Bool.eq_false_iff]
    intro hsame
    exact hnone ⟨owner, List.mem_filter.mpr ⟨howner, hisFile⟩, hsame⟩

theorem isFile_or_rootConverted (hafter : after.Distinct) {entry : Path × ByteArray} {a : NodeId}
    (ha : Stands grammar after entry 0 a) {r : Relationship}
    (hr : r ∈ (treesOf grammar before after).changes evidence) (hside : r.after = some a)
    (hinline : r.kind ≠ .inline) :
    (contextOf grammar before after).isFile r = true ∨
      RootConverted (contextOf grammar before after)
        ((treesOf grammar before after).changes evidence) entry.1 := by
  have h := splits_treesOf grammar before after evidence
  obtain ⟨y, hy, hye, -⟩ := ha.exists_file
  have hkind : y.kind = .file := congrArg Element.kind hye
  cases (TreePair.mem_changes_iff h).mp hr with
  | @paired b _ hpair =>
      cases hside
      obtain ⟨x, hx⟩ := CodeTree.exists_node?_of_lt_size
        ((grown_outline grammar before).mem_levelOrder_iff.mp (h.fst_mem hpair))
      by_cases hfile : x.kind = .file
      · left
        rw [Report.Context.isFile_of_before rfl hx, Node.isFile, hfile]
        rfl
      · right
        exact ⟨b, a, x, y, (TreePair.matched_changes_iff h).mpr hpair, hx, hy, hfile, hkind,
          (ha.isPart hy).1⟩
  | extracted _ _ horigin =>
      cases hside
      cases (origin?_eq_none_of_file hafter ha _ _).symm.trans horigin
  | moved _ _ _ horigin =>
      cases hside
      cases (origin?_eq_none_of_file hafter ha _ _).symm.trans horigin
  | inlined => exact absurd rfl hinline
  | removed => cases hside
  | added =>
      cases hside
      left
      simp [Report.Context.isFile, Report.Context.primary?, Report.Context.afterNode?,
        Relationship.added, snapshot, hy, Node.isFile, hkind]

theorem rootConverted_of_stranded (hafter : after.Distinct) {r : Relationship}
    (hstranded : Stranded (contextOf grammar before after)
      ((treesOf grammar before after).changes evidence) r) {node : Node}
    (hnode : (contextOf grammar before after).afterNode? r = some node) :
    RootConverted (contextOf grammar before after)
      ((treesOf grammar before after).changes evidence) node.location.file := by
  obtain ⟨-, _, hnode', howners⟩ := hstranded
  cases hnode.symm.trans hnode'
  obtain ⟨id, -, hid⟩ := Option.bind_eq_some_iff.mp hnode
  obtain ⟨entry, offset, hstands⟩ := exists_stands (CodeTree.lt_size_of_node? hid)
  obtain ⟨a, ha⟩ := exists_stands_of_mem hstands.mem (isWhole_fileTree grammar entry).size_pos
  obtain ⟨y, hy, -⟩ := ha.exists_file
  obtain ⟨owner, howner, hside, hinline⟩ := exists_found_after (CodeTree.lt_size_of_node? hy)
  rw [(hstands.isPart hid).1] at howners ⊢
  rcases isFile_or_rootConverted hafter ha howner hside hinline with hisFile | hconverted
  · have hother := howners owner howner hisFile
    simp [Report.Context.afterNode?, hside, snapshot, hy, (ha.isPart hy).1, Path.same] at hother
  · exact hconverted

theorem eq_added_of_stranded {r : Relationship}
    (hr : r ∈ (treesOf grammar before after).changes evidence)
    (hmatching : r.isNonMatching = false)
    (hstranded : Stranded (contextOf grammar before after)
      ((treesOf grammar before after).changes evidence) r) :
    ∃ new node, r = .added new ∧ (outline grammar after).node? new = some node := by
  have h := splits_treesOf grammar before after evidence
  obtain ⟨hbefore, node, hnode, -⟩ := hstranded
  cases (TreePair.mem_changes_iff h).mp hr with
  | extracted | moved | inlined => cases hmatching
  | removed => cases hnode
  | @paired b a hpair =>
      obtain ⟨x, hx⟩ := CodeTree.exists_node?_of_lt_size
        ((grown_outline grammar before).mem_levelOrder_iff.mp (h.fst_mem hpair))
      cases hx.symm.trans hbefore
  | @added new => exact ⟨new, node, rfl, hnode⟩

/-- The report has an entry for everything but what is stranded. -/
theorem entries_are_complete_unless_stranded (grammar : Grammar) (before after : PathMap ByteArray)
    (hbefore : Parsed grammar before) (hafter : Parsed grammar after) :
    EveryComparison (snapshot grammar before) (snapshot grammar after)
      (Enters (contextOf grammar before after)) := by
  refine everyComparison_of_changes hbefore hafter ?_
  intro evidence report hreport
  constructor
  · intro r hr hinner hmatching
    constructor
    · rintro ⟨placed, hplaced, hshows⟩ hstranded
      exact Report.not_shows_of_stranded hreport hstranded hplaced hshows
    · intro hnot
      obtain ⟨placed, hplaced, file, hentry⟩ := Report.exists_entry hreport
        (Report.mem_inner_iff.mpr ⟨hr, hinner, hmatching⟩)
        (targets_ne_nil_of_not_stranded hinner hnot)
      exact ⟨placed, hplaced, (Report.shows_of_entry hentry).1⟩
  · intro r hr _ hmatching hstranded
    obtain ⟨new, node, rfl, hnode⟩ := eq_added_of_stranded hr hmatching hstranded
    exact ⟨new, node, rfl, hnode, rootConverted_of_stranded hafter.distinct hstranded hnode⟩

/-- A block of statements, braces included. -/
def blockTree (field : String) (start stop : Nat) (statements : List SyntaxTree) : SyntaxTree :=
  .node "statement_block" field true start stop
    (.node "\x7b" "" false start (start + 1) [] :: statements ++
      [.node "\x7d" "" false (stop - 1) stop []])

/-- A function without parameters, whose name has one letter. -/
def functionTree (start stop : Nat) (statements : List SyntaxTree) : SyntaxTree :=
  .node "function_declaration" "" true start stop
    [.node "function" "" false start (start + 8) [],
      .node "identifier" "name" true (start + 9) (start + 10) [],
      .node "formal_parameters" "parameters" true (start + 10) (start + 12)
        [.node "(" "" false (start + 10) (start + 11) [],
          .node ")" "" false (start + 11) (start + 12) []],
      blockTree "body" (start + 12) stop statements]

/-- An empty class, whose name has one letter. -/
def classTree (start : Nat) : SyntaxTree :=
  .node "class_declaration" "" true start (start + 9)
    [.node "class" "" false start (start + 5) [],
      .node "identifier" "name" true (start + 6) (start + 7) [],
      .node "class_body" "body" true (start + 7) (start + 9)
        [.node "\x7b" "" false (start + 7) (start + 8) [],
          .node "\x7d" "" false (start + 8) (start + 9) []]]

/-- The text `function B(){class M{}class N{}}`. -/
def nestedSource : ByteArray :=
  "function B()\x7bclass M\x7b\x7dclass N\x7b\x7d\x7d".toUTF8

/-- The text `class M{}class N{}class K{}`. -/
def looseSource : ByteArray :=
  "class M\x7b\x7dclass N\x7b\x7dclass K\x7b\x7d".toUTF8

def classGrammar : Grammar :=
  .ofList
    [(nestedSource, .node "program" "" true 0 32 [functionTree 0 32 [classTree 13, classTree 22]]),
      (looseSource, .node "program" "" true 0 27 [classTree 0, classTree 9, classTree 18])]

def nestedFiles : PathMap ByteArray :=
  ⟨[(⟨"a.js"⟩, nestedSource)]⟩

def looseFiles : PathMap ByteArray :=
  ⟨[(⟨"a.js"⟩, .empty), (⟨"BB.js"⟩, looseSource)]⟩

theorem fits_classGrammar (bytes : ByteArray) : (classGrammar bytes).Fits bytes.size := by
  refine fits_ofList (List.forall_mem_cons.mpr ⟨?_, List.forall_mem_singleton.mpr ?_⟩) bytes
  · change SyntaxTree.Fits _ 32
    simp [SyntaxTree.Fits, SyntaxTree.WellFormed, SyntaxTree.Between, SyntaxTree.start,
      SyntaxTree.stop, functionTree, blockTree, classTree]
  · change SyntaxTree.Fits _ 27
    simp [SyntaxTree.Fits, SyntaxTree.WellFormed, SyntaxTree.Between, SyntaxTree.start,
      SyntaxTree.stop, classTree]

theorem parsed_nestedFiles : Parsed classGrammar nestedFiles :=
  ⟨by decide, fun _ _ => fits_classGrammar _⟩

theorem parsed_looseFiles : Parsed classGrammar looseFiles :=
  ⟨by decide, fun _ _ => fits_classGrammar _⟩

abbrev nested : Snapshot :=
  snapshot classGrammar nestedFiles

abbrev loose : Snapshot :=
  snapshot classGrammar looseFiles

theorem unwrapped_classes_are_entered :
    Parsed classGrammar nestedFiles ∧ Parsed classGrammar looseFiles ∧
      ∃ found report, findRelationships {} nested loose = .ok found ∧
        Report.build nested loose found = .ok report ∧ Enters ⟨nested, loose⟩ found report :=
  ⟨parsed_nestedFiles, parsed_looseFiles,
    (entries_are_complete_unless_stranded classGrammar nestedFiles looseFiles parsed_nestedFiles
      parsed_looseFiles).1 {} (by decide)⟩

section Unwrapping

abbrev unwrapping : TreePair :=
  treesOf classGrammar nestedFiles looseFiles

/-- What is found between the two: the function `B` became the file, and the class `K` is new. -/
abbrev unwrappingFound : List Relationship :=
  [.pair 0 0 .same, .pair 2 2 .same, .pair 3 3 .same, .pair 1 1 .convertType, .added 4]

theorem unwrapping_names :
    Matching.start unwrapping.before unwrapping.after = ⟨[], [0, 1, 2, 3], [0, 1, 2, 3, 4]⟩ ∧
      unwrapping.sameNamed unwrapping.before.roots unwrapping.after.roots = [(0, 0)] ∧
      unwrapping.namedChildren 0 0 = [] ∧ unwrapping.namedChildren 2 2 = [] ∧
      unwrapping.namedChildren 3 3 = [] ∧ unwrapping.namedChildren 1 1 = [(2, 2), (3, 3)] := by
  decide +kernel

theorem unwrapping_kinds :
    unwrapping.sameKind 1 1 = false ∧ unwrapping.sameKind 1 2 = false ∧
      unwrapping.sameKind 1 3 = false ∧ unwrapping.sameKind 1 4 = false ∧
      unwrapping.sameKind 2 1 = false ∧ unwrapping.sameKind 2 2 = true ∧
      unwrapping.sameKind 3 1 = false ∧ unwrapping.sameKind 3 3 = true := by
  decide +kernel

variable {evidence : Evidence}

theorem matching_unwrapping (hM : evidence.similar 2 2 = true) (hN : evidence.similar 3 3 = true)
    (hname : evidence.nameSimilar 1 1 = true) :
    unwrapping.matching evidence = ⟨[(0, 0), (2, 2), (3, 3), (1, 1)], [], [4]⟩ := by
  obtain ⟨hstart, hroots, hnames⟩ := unwrapping_names
  have hnamed : unwrapping.matchByName (.start unwrapping.before unwrapping.after) =
      ⟨[(0, 0)], [1, 2, 3], [1, 2, 3, 4]⟩ := by
    rw [TreePair.matchByName, hstart, hroots, TreePair.cascade_eq_confirm rfl (by simp [hnames])]
    rfl
  have hsimilar : unwrapping.matchBySimilarity evidence ⟨[(0, 0)], [1, 2, 3], [1, 2, 3, 4]⟩ =
      ⟨[(0, 0), (2, 2), (3, 3)], [1], [1, 4]⟩ := by
    rw [TreePair.matchBySimilarity, TreePair.scan_eq_foldl, List.foldl_cons, List.foldl_cons,
      List.foldl_cons, List.foldl_nil, TreePair.scanAt_eq_self (b := 1) ?_,
      TreePair.scanAt_eq_confirm (b := 2) (a := 2) (by decide) ?_ (by simp [hnames]),
      TreePair.scanAt_eq_confirm (b := 3) (a := 3) (by decide) ?_ (by simp [hnames])]
    · rfl
    · simp [TreePair.isSome_classify?, unwrapping_kinds, hN, Matching.confirm]
    · simp [TreePair.isSome_classify?, unwrapping_kinds, hM]
    · simp [TreePair.isSome_classify?, unwrapping_kinds]
  have hshared : unwrapping.matchedChildren ⟨[(0, 0), (2, 2), (3, 3)], [1], [1, 4]⟩ 1 1 = 2 := by
    decide +kernel
  rw [TreePair.matching, hnamed, hsimilar, TreePair.matchByChildren, TreePair.scan_eq_foldl,
    List.foldl_cons, List.foldl_nil,
    TreePair.scanAt_eq_confirm (b := 1) (a := 1) (by decide) ?_ (by simp [hnames]; decide)]
  · rfl
  · simp [hshared, hname]

theorem changes_unwrapping (hM : evidence.similar 2 2 = true) (hN : evidence.similar 3 3 = true)
    (hname : evidence.nameSimilar 1 1 = true) :
    unwrapping.changes evidence = unwrappingFound := by
  have htyped : unwrapping.typedPairs evidence ⟨[(0, 0), (2, 2), (3, 3), (1, 1)], [], [4]⟩ =
      [.pair 0 0 .same, .pair 2 2 .same, .pair 3 3 .same, .pair 1 1 .convertType] := by
    simp only [TreePair.typedPairs, TreePair.classify_eq]
    decide +kernel
  have hcalls : ∀ a < 4, TreePair.calls unwrapping.after a 4 = false := by
    decide +kernel
  simp [TreePair.changes, matching_unwrapping hM hN hname, htyped, TreePair.distribute,
    TreePair.isExtracted, hcalls]

end Unwrapping

section Exact

noncomputable abbrev unwrappingScorer : Scorer ℝ :=
  .ofProfiles 5 (.of nested) (.of loose)

theorem similar_unwrapping :
    ∀ id ∈ [2, 3], (Evidence.ofScorer unwrappingScorer (1 / 2)).similar id id = true := by
  have htokens : ∀ id ∈ [2, 3],
      ((SnapshotProfile.of loose).find id).tokens = ((SnapshotProfile.of nested).find id).tokens ∧
        ∃ token ∈ ((SnapshotProfile.of nested).find id).tokens.keys,
          0 < ((SnapshotProfile.of nested).find id).tokens.count token ∧
          0 < ((SnapshotProfile.of nested).tokenFrequency.union
            (SnapshotProfile.of loose).tokenFrequency).count token := by
    decide +kernel
  intro id hid
  exact Evidence.similar_of_tokens_eq (by decide) (by norm_num) (htokens id hid).1
    (htokens id hid).2

theorem nameSimilar_unwrapping :
    (Evidence.ofScorer unwrappingScorer (1 / 2)).nameSimilar 1 1 = true := by
  have hnames : ((SnapshotProfile.of nested).find 1).name = ⟨[("", 2), ("B", 2)]⟩ ∧
      ((SnapshotProfile.of loose).find 1).name = ⟨[("", 1), ("B", 2), (".js", 1)]⟩ ∧
      (SnapshotProfile.of nested).nameFrequency.union (SnapshotProfile.of loose).nameFrequency =
        ⟨[("a", 1), (".js", 2), ("", 4), ("B", 1), ("M", 1), ("N", 1), ("K", 1)]⟩ := by
    decide +kernel
  rw [Evidence.nameSimilar_ofProfiles, hnames.1, hnames.2.1, hnames.2.2,
    Ratio.exceeds_iff_of_pos (Weights.sum_pos (by decide) (by decide))]
  simp only [Weights.overlap, Weights.sum_eq, Weights.of_ofFrequency]
  have hjoint : Weights.jointKeys ⟨[("", 2), ("B", 2)]⟩ ⟨[("", 1), ("B", 2), (".js", 1)]⟩ =
      ["", "B", ".js"] := by
    decide
  have hshared : 0 < Real.log (1 + 5) := Real.log_pos (by norm_num)
  have hrare : Real.log (1 + 5 / 2) < Real.log (1 + 5) :=
    Real.log_lt_log (by norm_num) (by norm_num)
  have hmost (x y z : ℝ) (hx : 0 < x) (hz : z < x) : 2⁻¹ * (2 * y + (2 * x + z)) < y + 2 * x := by
    linarith
  simpa [hjoint, Bag.count, List.lookup_cons] using hmost _ (Real.log (1 + 5 / 4)) _ hshared hrare

end Exact

/-- The class `K` is new in a file whose root the function `B` became, and no entry shows it. -/
theorem new_class_of_converted_file_is_lost :
    Parsed classGrammar nestedFiles ∧ Parsed classGrammar looseFiles ∧
      ∃ found report, relationships (1 / 2 : ℝ) nested loose = .ok found ∧
        Report.build nested loose found = .ok report ∧
        ∃ r ∈ found, Report.Context.isInner ⟨nested, loose⟩ r = true ∧ r.isNonMatching = false ∧
          ∀ placed ∈ report.entries, ¬Shows ⟨nested, loose⟩ r placed.2 := by
  refine ⟨parsed_nestedFiles, parsed_looseFiles, ?_⟩
  have hfound : relationships (1 / 2 : ℝ) nested loose = .ok unwrappingFound := by
    have hdocuments : max nested.tree.size loose.tree.size = 5 := by decide +kernel
    rw [parsed_nestedFiles.scorable.relationships_eq_ok parsed_looseFiles.scorable, hdocuments]
    exact congrArg Except.ok (changes_unwrapping (similar_unwrapping 2 (by decide))
      (similar_unwrapping 3 (by decide)) nameSimilar_unwrapping)
  obtain ⟨report, hreport⟩ := Report.exists_build parsed_nestedFiles.hasContents
    parsed_looseFiles.hasContents unwrappingFound
  have hnode : (Report.Context.afterNode? ⟨nested, loose⟩ (.added 4)).map (·.location.file) =
      some ⟨"BB.js"⟩ := by decide +kernel
  obtain ⟨node, hnode, hfile⟩ := Option.map_eq_some_iff.mp hnode
  refine ⟨_, report, hfound, hreport, .added 4, by decide, by decide +kernel, rfl, ?_⟩
  intro placed hplaced
  refine Report.not_shows_of_stranded hreport ⟨rfl, node, hnode, ?_⟩ hplaced
  rw [hfile]
  decide +kernel

end JavaScript

end Lineage
