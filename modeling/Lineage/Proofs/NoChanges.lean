import Lineage.View
import Lineage.Proofs.Accounting
import Lineage.Proofs.JavaScript.Snapshots
import Lineage.Proofs.Typing

namespace Lineage

theorem Table.exists_render_eq_cons (rows : List (List String)) :
    ∃ rest, (Table.render Report.header rows).toList = ' ' :: rest := by
  rw [Table.render, String.toList_ofList]
  exact ⟨_, rfl⟩

theorem Report.render_table_eq_iff (report : Report) :
    report.render .table = "No changes." ↔ report.files = [] := by
  rw [Report.render]
  split
  · next hempty => simpa using hempty
  · next hfiles =>
    have hne : Table.render Report.header report.rows ≠ "No changes." := by
      intro heq
      obtain ⟨rest, hrest⟩ := Table.exists_render_eq_cons report.rows
      rw [heq] at hrest
      cases hrest
    simpa [hne] using hfiles

namespace JavaScript

open Report (FileQuiet Quiet)

/-- The same paths, with the same bytes at each of them. -/
def SameFiles (before after : PathMap ByteArray) : Prop :=
  ∀ path, before.find? path = after.find? path

section Sides

variable (grammar : Grammar) (before after : PathMap ByteArray)

abbrev treesOf : TreePair :=
  ⟨outline grammar before, outline grammar after⟩

abbrev contextOf : Report.Context :=
  ⟨snapshot grammar before, snapshot grammar after⟩

variable {grammar before after}

theorem modified_of_stands (hbefore : Readable grammar before) (hafter : Readable grammar after)
    {entry entry' : Path × ByteArray} {offset offset' b a : NodeId} {x y : Node}
    (hb : Stands grammar before entry offset b) (ha : Stands grammar after entry' offset' a)
    (hx : (outline grammar before).node? b = some x) (hy : (outline grammar after).node? a = some y)
    (kind : RelationKind) (part : Location → ByteArray → Option ByteArray) :
    Report.modified (contextOf grammar before after) (.pair b a kind) part =
      .ok (part x.location entry.2 != part y.location entry'.2) := by
  have hbeforeNode : (contextOf grammar before after).beforeNode? (.pair b a kind) = some x := hx
  have hafterNode : (contextOf grammar before after).afterNode? (.pair b a kind) = some y := hy
  refine Report.modified_of_contents hbeforeNode hafterNode ?_ ?_ part
  · rw [(hb.isPart hx).1]
    exact PathMap.find?_eq_some_of_mem hbefore.distinct hb.mem
  · rw [(ha.isPart hy).1]
    exact PathMap.find?_eq_some_of_mem hafter.distinct ha.mem

end Sides

section Unchanged

variable {grammar : Grammar} {before after : PathMap ByteArray}

theorem explanation?_eq_none {context : Report.Context} {found : List Relationship}
    (hfound : ∀ r ∈ found, r.kind = .same) (relationship : Relationship) :
    Report.explanation? context found relationship = none := by
  have hextraction : ∀ id, Report.extraction? context found id = none := by
    intro id
    refine List.find?_eq_none.mpr ?_
    intro r hr
    simp [hfound r (List.mem_reverse.mp hr)]
  have hinlining : ∀ id, Report.inlining? context found id = none := by
    intro id
    refine List.find?_eq_none.mpr ?_
    intro r hr
    simp [hfound r (List.mem_reverse.mp hr)]
  unfold Report.explanation?
  split
  · rw [hextraction, hinlining]
    rfl
  · rfl

theorem modified_of_twins (hbefore : Readable grammar before) (hafter : Readable grammar after)
    {b a : NodeId} (h : Twins grammar before after b a) (kind : RelationKind)
    (part : Location → ByteArray → Option ByteArray) :
    Report.modified (contextOf grammar before after) (.pair b a kind) part = .ok false := by
  obtain ⟨x, y, hx, hy, halike⟩ := h.exists_alike
  obtain ⟨entry, offset, hb, ha⟩ := h
  have hlocation : x.location = y.location := congrArg Element.location halike.element_eq
  rw [modified_of_stands hbefore hafter hb ha hx hy, hlocation, bne_self_eq_false]

theorem quiet_of_sameFiles (hbefore : Readable grammar before) (hafter : Readable grammar after)
    (hsame : SameFiles before after) (evidence : Evidence) :
    Quiet (contextOf grammar before after) ((treesOf grammar before after).changes evidence) := by
  have hentries := (hbefore.distinct.find?_eq_iff hafter.distinct hbefore.normal hafter.normal).mp
    hsame
  have hcopies := copies_of_same_entries hbefore hafter hentries
  have hkind : ∀ r ∈ (treesOf grammar before after).changes evidence, r.kind = .same := by
    intro r hr
    obtain ⟨b, a, -, rfl⟩ := (hcopies.mem_changes_iff evidence).mp hr
    rfl
  constructor
  · intro r hr _
    obtain ⟨b, a, htwins, rfl⟩ := (hcopies.mem_changes_iff evidence).mp hr
    exact ⟨rfl, modified_of_twins hbefore hafter htwins _ _⟩
  · intro r hr _ _ _
    obtain ⟨b, a, htwins, rfl⟩ := (hcopies.mem_changes_iff evidence).mp hr
    refine ⟨rfl, modified_of_twins hbefore hafter htwins _ _, ?_⟩
    rw [explanation?_eq_none hkind]
    rfl

end Unchanged

section Changed

variable {grammar : Grammar} {before after : PathMap ByteArray} {evidence : Evidence}

theorem splits_treesOf (grammar : Grammar) (before after : PathMap ByteArray)
    (evidence : Evidence) :
    Matching.Splits (treesOf grammar before after).before.levelOrder
      (treesOf grammar before after).after.levelOrder
      ((treesOf grammar before after).matching evidence) :=
  TreePair.splits_matching (grown_outline grammar before).built.coherent
    (grown_outline grammar after).built.coherent evidence

theorem accounts_treesOf (grammar : Grammar) (before after : PathMap ByteArray)
    (evidence : Evidence) :
    Accounts (treesOf grammar before after) ((treesOf grammar before after).changes evidence) :=
  TreePair.accounts_changes (grown_outline grammar before) (grown_outline grammar after) evidence

theorem exists_found_before {id : NodeId} (hid : id < (outline grammar before).size) :
    ∃ r ∈ (treesOf grammar before after).changes evidence, r.before = some id := by
  have hcount := (accounts_treesOf grammar before after evidence).before_once id hid
  obtain ⟨r, hr, hside⟩ := List.countP_pos_iff.mp (hcount ▸ Nat.zero_lt_one)
  exact ⟨r, hr, (of_decide_eq_true hside).1⟩

theorem exists_found_after {id : NodeId} (hid : id < (outline grammar after).size) :
    ∃ r ∈ (treesOf grammar before after).changes evidence,
      r.after = some id ∧ r.kind ≠ .inline := by
  have hcount := (accounts_treesOf grammar before after evidence).after_once id hid
  obtain ⟨r, hr, hside⟩ := List.countP_pos_iff.mp (hcount ▸ Nat.zero_lt_one)
  exact ⟨r, hr, of_decide_eq_true hside⟩

theorem isFile_of_stands {entry : Path × ByteArray} {b : NodeId}
    (hb : Stands grammar before entry 0 b) {r : Relationship} (hside : r.before = some b) :
    (contextOf grammar before after).isFile r = true := by
  obtain ⟨x, hx, hxe, -⟩ := hb.exists_file
  have hkind : x.kind = .file := congrArg Element.kind hxe
  simp [Report.Context.isFile, Report.Context.primary?, Report.Context.beforeNode?, hside, snapshot,
    hx, Node.isFile, hkind]

theorem entry_eq_of_unmodified (hbefore : Readable grammar before) (hafter : Readable grammar after)
    {entry entry' : Path × ByteArray} {b a : NodeId} (hb : Stands grammar before entry 0 b)
    (ha : Stands grammar after entry' 0 a) {x y : Node}
    (hx : (outline grammar before).node? b = some x) (hy : (outline grammar after).node? a = some y)
    (hname : x.name = y.name) (hscope : x.scope = y.scope) {kind : RelationKind}
    (hmodified : Report.fileModified (contextOf grammar before after) (.pair b a kind) =
      .ok false) : entry = entry' := by
  have hpath : entry.1 = entry'.1 := by
    rw [((hb.isPart hx).2.1 rfl).1, ((ha.isPart hy).2.1 rfl).1] at hname hscope
    exact @path_eq_of_fileElement ⟨entry.1, entry.2⟩ ⟨entry'.1, entry'.2⟩
      (hbefore.normal entry hb.mem) (hafter.normal entry' ha.mem) hname hscope
  have hbytes : entry.2 = entry'.2 := by
    have hequal := Except.ok.inj
      ((modified_of_stands hbefore hafter hb ha hx hy _ _).symm.trans hmodified)
    simpa using hequal
  exact Prod.ext hpath hbytes

theorem exists_stands_of_fileQuiet (hbefore : Readable grammar before)
    (hafter : Readable grammar after) {entry : Path × ByteArray} {b : NodeId}
    (hb : Stands grammar before entry 0 b) {r : Relationship}
    (hr : r ∈ (treesOf grammar before after).changes evidence) (hside : r.before = some b)
    (hquiet : FileQuiet (contextOf grammar before after) r) :
    ∃ a, r.after = some a ∧ Stands grammar after entry 0 a := by
  obtain ⟨hkind, hmodified⟩ := hquiet
  obtain ⟨_, a, x, y, rfl, hx, hy, hkinds, hname, hparent⟩ := TreePair.exists_of_same
    (grown_outline grammar before).built (grown_outline grammar after).built hr hkind
  cases hside
  obtain ⟨_, hfile, hxe, hxp⟩ := hb.exists_file
  cases hx.symm.trans hfile
  obtain ⟨entry', offset, ha⟩ := exists_stands (CodeTree.lt_size_of_node? hy)
  have hzero : offset = 0 :=
    (ha.eq_zero_iff_kind hy).mp (hkinds.symm.trans (congrArg Element.kind hxe))
  subst hzero
  refine ⟨a, rfl, ?_⟩
  rw [entry_eq_of_unmodified hbefore hafter hb ha hx hy hname (hparent.scope_eq hxp) hmodified]
  exact ha

theorem not_calls_file (hafter : after.Distinct) {entry : Path × ByteArray} {a : NodeId}
    (ha : Stands grammar after entry 0 a) (caller : NodeId) :
    TreePair.calls (outline grammar after) caller a = false := by
  rw [Bool.eq_false_iff]
  intro hcalls
  obtain ⟨y, hy, hcallee⟩ := (Option.any_eq_true _ _).mp hcalls
  obtain ⟨other, offset, hcaller⟩ := exists_stands (CodeTree.lt_size_of_node? hy)
  obtain ⟨target, hne, htarget⟩ := hcaller.exists_of_mem_calls hy (of_decide_eq_true hcallee)
  exact hne (htarget.place_unique hafter ha).2

theorem origin?_eq_none_of_file (hafter : after.Distinct) {entry : Path × ByteArray} {a : NodeId}
    (ha : Stands grammar after entry 0 a) (matching : Matching) (moved : Bool) :
    (treesOf grammar before after).origin? evidence matching moved a = none := by
  refine List.find?_eq_none.mpr ?_
  rintro ⟨b, a'⟩ _
  simp [not_calls_file hafter ha a']

theorem targets_ne_nil_of_node? {b : NodeId} {x : Node}
    (hx : (outline grammar before).node? b = some x) {r : Relationship}
    (hside : r.before = some b) :
    Report.targets (contextOf grammar before after)
      (((treesOf grammar before after).changes evidence).filter
        (contextOf grammar before after).isFile) r ≠ [] := by
  obtain ⟨entry, offset, hb⟩ := exists_stands (CodeTree.lt_size_of_node? hx)
  obtain ⟨root, hroot⟩ := exists_stands_of_mem hb.mem (isWhole_fileTree grammar entry).size_pos
  obtain ⟨z, hz, -⟩ := hroot.exists_file
  obtain ⟨owner, howner, hownerSide⟩ := exists_found_before (CodeTree.lt_size_of_node? hz)
  have hnode : (contextOf grammar before after).beforeNode? r = some x := by
    simp [Report.Context.beforeNode?, hside, snapshot, hx]
  refine Report.targets_ne_nil hnode
    (List.mem_filter.mpr ⟨howner, isFile_of_stands hroot hownerSide⟩) ?_
  simp [Report.Context.beforeNode?, hownerSide, snapshot, hz, (hroot.isPart hz).1,
    (hb.isPart hx).1, Path.same]

theorem mem_after_of_quiet (hbefore : Readable grammar before) (hafter : Readable grammar after)
    (hquiet : Quiet (contextOf grammar before after)
      ((treesOf grammar before after).changes evidence))
    {entry : Path × ByteArray} (hentry : entry ∈ before.entries) : entry ∈ after.entries := by
  obtain ⟨b, hb⟩ := exists_stands_of_mem hentry (isWhole_fileTree grammar entry).size_pos
  obtain ⟨x, hx, -⟩ := hb.exists_file
  obtain ⟨r, hr, hside⟩ := exists_found_before (CodeTree.lt_size_of_node? hx)
  obtain ⟨a, -, ha⟩ := exists_stands_of_fileQuiet hbefore hafter hb hr hside
    (hquiet.files r hr (isFile_of_stands hb hside))
  exact ha.mem

theorem kind_eq_file_of_quiet
    (hquiet : Quiet (contextOf grammar before after)
      ((treesOf grammar before after).changes evidence)) {b a : NodeId}
    (hpair : (b, a) ∈ ((treesOf grammar before after).matching evidence).pairs) {x y : Node}
    (hx : (outline grammar before).node? b = some x) (hy : (outline grammar after).node? a = some y)
    (hkind : y.kind = .file) : x.kind = .file := by
  by_contra hfile
  have h := splits_treesOf grammar before after evidence
  have hinner : (contextOf grammar before after).isInner (.pair b a
      ((treesOf grammar before after).classify evidence
        ((treesOf grammar before after).matching evidence) b a)) = true := by
    simp [Report.Context.isInner, Report.Context.primary?, Report.Context.beforeNode?,
      Relationship.pair, snapshot, hx, Node.isFile, hfile]
  have hsame := (hquiet.entries _ ((TreePair.mem_changes_iff h).mpr (.paired hpair)) hinner
    (TreePair.isNonMatching_classify b a) (targets_ne_nil_of_node? hx rfl)).same
  have htyped := @TreePair.wellTyped_classify (treesOf grammar before after) evidence h b a x y
    hx hy
  have hconvert := htyped.convertType_iff.mpr (fun heq => hfile (heq.trans hkind))
  cases hsame.symm.trans hconvert

theorem mem_before_of_quiet (hbefore : Readable grammar before) (hafter : Readable grammar after)
    (hquiet : Quiet (contextOf grammar before after)
      ((treesOf grammar before after).changes evidence))
    {entry : Path × ByteArray} (hentry : entry ∈ after.entries) : entry ∈ before.entries := by
  have h := splits_treesOf grammar before after evidence
  obtain ⟨a, ha⟩ := exists_stands_of_mem hentry (isWhole_fileTree grammar entry).size_pos
  obtain ⟨y, hy, hye, -⟩ := ha.exists_file
  have hkind : y.kind = .file := congrArg Element.kind hye
  obtain ⟨r, hr, hside, hinline⟩ := exists_found_after (CodeTree.lt_size_of_node? hy)
  cases (TreePair.mem_changes_iff h).mp hr with
  | @paired b a' hpair =>
      cases hside
      obtain ⟨x, hx⟩ := CodeTree.exists_node?_of_lt_size
        ((grown_outline grammar before).mem_levelOrder_iff.mp (h.fst_mem hpair))
      obtain ⟨entry', offset, hb⟩ := exists_stands (CodeTree.lt_size_of_node? hx)
      have hzero := (hb.eq_zero_iff_kind hx).mp (kind_eq_file_of_quiet hquiet hpair hx hy hkind)
      subst hzero
      obtain ⟨_, heq, ha'⟩ := exists_stands_of_fileQuiet hbefore hafter hb hr rfl
        (hquiet.files _ hr (isFile_of_stands hb rfl))
      cases heq
      rw [(ha.place_unique hafter.distinct ha').1]
      exact hb.mem
  | extracted _ _ horigin =>
      cases hside
      rw [origin?_eq_none_of_file hafter.distinct ha] at horigin
      cases horigin
  | moved _ _ _ horigin =>
      cases hside
      rw [origin?_eq_none_of_file hafter.distinct ha] at horigin
      cases horigin
  | inlined => exact absurd rfl hinline
  | removed => cases hside
  | added =>
      cases hside
      have hisFile : (contextOf grammar before after).isFile (.added a) = true := by
        simp [Report.Context.isFile, Report.Context.primary?, Report.Context.afterNode?,
          Relationship.added, snapshot, hy, Node.isFile, hkind]
      cases (hquiet.files _ hr hisFile).same

theorem quiet_iff_sameFiles (hbefore : Readable grammar before) (hafter : Readable grammar after)
    (evidence : Evidence) :
    Quiet (contextOf grammar before after) ((treesOf grammar before after).changes evidence) ↔
      SameFiles before after := by
  constructor
  · intro hquiet
    refine (hbefore.distinct.find?_eq_iff hafter.distinct hbefore.normal hafter.normal).mpr ?_
    intro entry
    exact ⟨mem_after_of_quiet hbefore hafter hquiet, mem_before_of_quiet hbefore hafter hquiet⟩
  · intro hsame
    exact quiet_of_sameFiles hbefore hafter hsame evidence

end Changed

/-- The outcome of a comparison is a report, and it has no changes exactly when the files are the
same. -/
def TellsChanges (before after : PathMap ByteArray) (outcome : Except Error Report) : Prop :=
  ∃ report, outcome = .ok report ∧
    (report.onlyChanges.files = [] ↔ SameFiles before after) ∧
    (report.onlyChanges.render .table = "No changes." ↔ SameFiles before after)

theorem tellsChanges_build {grammar : Grammar} {before after : PathMap ByteArray}
    (hbefore : Readable grammar before) (hafter : Readable grammar after) (evidence : Evidence) :
    TellsChanges before after (Report.build (snapshot grammar before) (snapshot grammar after)
      ((treesOf grammar before after).changes evidence)) := by
  obtain ⟨report, hreport⟩ := Report.exists_build hbefore.hasContents hafter.hasContents
    ((treesOf grammar before after).changes evidence)
  have hempty : report.onlyChanges.files = [] ↔ SameFiles before after :=
    (Report.onlyChanges_build_eq_nil_iff hreport).trans
      (quiet_iff_sameFiles hbefore hafter evidence)
  exact ⟨report, hreport, hempty, (Report.render_table_eq_iff _).trans hempty⟩

/-- Comparing two sets of files has no changes to show exactly when they are the same, whatever the
threshold and the arithmetic of the scores. -/
theorem no_changes_iff_same_files (grammar : Grammar) (before after : PathMap ByteArray)
    (hbefore : Readable grammar before) (hafter : Readable grammar after) :
    (∀ config : Config, config.isValid = true →
      TellsChanges before after
        (compareSnapshots config (snapshot grammar before) (snapshot grammar after))) ∧
      ∀ (α : Type) [Weighing α] (threshold : α),
        TellsChanges before after
          ((relationships threshold (snapshot grammar before) (snapshot grammar after)).bind
            (Report.build (snapshot grammar before) (snapshot grammar after))) := by
  constructor
  · intro config hvalid
    obtain ⟨scorer, hscorer⟩ := Scorable.exists_scorer Float hbefore.scorable hafter.scorable
    rw [compareSnapshots, findRelationships_eq_ok hvalid hscorer]
    simp only [bind, Except.bind]
    exact tellsChanges_build hbefore hafter (.ofScorer scorer config.threshold)
  · intro α _ threshold
    obtain ⟨scorer, hscorer⟩ := Scorable.exists_scorer α hbefore.scorable hafter.scorable
    rw [relationships, hscorer]
    simp only [Except.map, Except.bind]
    exact tellsChanges_build hbefore hafter (.ofScorer scorer threshold)

/-- The text `a=()=>1`, which declares a function. -/
def arrowSource : ByteArray :=
  ⟨#[97, 61, 40, 41, 61, 62, 49]⟩

def arrowProgram : SyntaxTree :=
  .node "program" "" true 0 7 [.node "expression_statement" "" true 0 7
    [.node "assignment_expression" "" true 0 7
      [.node "identifier" "left" true 0 1 [], .node "=" "" false 1 2 [],
        .node "arrow_function" "right" true 2 7
          [.node "formal_parameters" "parameters" true 2 4 [], .node "=>" "" false 4 6 [],
            .node "number" "body" true 6 7 []]]]]

/-- A grammar that knows that text. -/
def arrowGrammar : Grammar :=
  .ofList [(arrowSource, arrowProgram)]

/-- The text in a directory, with empty files beside it. -/
def arrowFiles (names : List String) : PathMap ByteArray :=
  ⟨(⟨"lib/a.js"⟩, arrowSource) :: names.map fun name => (⟨name⟩, .empty)⟩

theorem readable_arrowFiles {names : List String} (hdistinct : (arrowFiles names).Distinct)
    (hnormal : ∀ name ∈ names, Path.Normal ⟨name⟩) :
    Readable arrowGrammar (arrowFiles names) := by
  refine ⟨hdistinct, List.forall_mem_cons.mpr ⟨by decide, ?_⟩,
    List.forall_mem_cons.mpr ⟨?_, ?_⟩⟩
  · intro entry hentry
    obtain ⟨name, hname, rfl⟩ := List.mem_map.mp hentry
    exact hnormal name hname
  · change arrowProgram.Fits 7
    simp [SyntaxTree.Fits, arrowProgram, SyntaxTree.WellFormed, SyntaxTree.Between,
      SyntaxTree.start, SyntaxTree.stop]
  · intro entry hentry
    obtain ⟨name, -, rfl⟩ := List.mem_map.mp hentry
    change (SyntaxTree.node "program" "" true 0 0 []).Fits 0
    simp [SyntaxTree.Fits, SyntaxTree.WellFormed, SyntaxTree.Between, SyntaxTree.stop]

theorem added_file_is_a_change :
    Readable arrowGrammar (arrowFiles []) ∧ Readable arrowGrammar (arrowFiles ["b.js"]) ∧
      ∃ report, compareSnapshots {} (snapshot arrowGrammar (arrowFiles []))
          (snapshot arrowGrammar (arrowFiles ["b.js"])) = .ok report ∧
        report.onlyChanges.files ≠ [] ∧ report.onlyChanges.render .table ≠ "No changes." := by
  have hbefore : Readable arrowGrammar (arrowFiles []) :=
    readable_arrowFiles (by decide) (by decide)
  have hafter : Readable arrowGrammar (arrowFiles ["b.js"]) :=
    readable_arrowFiles (by decide) (by decide)
  obtain ⟨report, hreport, hempty, htable⟩ :=
    (no_changes_iff_same_files arrowGrammar _ _ hbefore hafter).1 {} (by decide)
  have hnot : ¬SameFiles (arrowFiles []) (arrowFiles ["b.js"]) := by
    intro hsame
    have hmissing : (arrowFiles []).find? ⟨"b.js"⟩ = none := by decide
    have hfound : ((arrowFiles ["b.js"]).find? ⟨"b.js"⟩).isSome = true := by decide
    rw [← hsame, hmissing] at hfound
    cases hfound
  exact ⟨hbefore, hafter, report, hreport, fun h => hnot (hempty.mp h),
    fun h => hnot (htable.mp h)⟩

end JavaScript

end Lineage
