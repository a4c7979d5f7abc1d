import Lineage.Report
import Lineage.Proofs.Outcomes

namespace Lineage.Report

/-- An entry has the kind and the nodes of a relationship. -/
structure Shows (context : Context) (relationship : Relationship) (shown : Entry) : Prop where
  kind : shown.kind = relationship.kind
  before : shown.before = (context.beforeNode? relationship).map .ofNode
  after : shown.after = (context.afterNode? relationship).map .ofNode

/-- A relationship of files that leaves nothing to show. -/
structure FileQuiet (context : Context) (relationship : Relationship) : Prop where
  same : relationship.kind = .same
  unmodified : fileModified context relationship = .ok false

/-- A relationship of declarations that leaves nothing to show. -/
structure EntryQuiet (context : Context) (found : List Relationship) (relationship : Relationship) :
    Prop where
  same : relationship.kind = .same
  unmodified : bodyModified context relationship = .ok false
  unexplained : (explanation? context found relationship).bind (explainedNode? context) = none

/-- Relationships that leave nothing to show together: a declaration is shown only if some report
has an entry for it. -/
structure Quiet (context : Context) (found : List Relationship) : Prop where
  files : ∀ r ∈ found, context.isFile r = true → FileQuiet context r
  entries : ∀ r ∈ found, context.isInner r = true → r.isNonMatching = false →
    targets context (found.filter context.isFile) r ≠ [] → EntryQuiet context found r

section Steps

variable {context : Context} {found : List Relationship} {relationship : Relationship}

theorem shows_of_entry {file : FileReport} {explanation : Option Relationship} {shown : Entry}
    (h : entry context file relationship explanation = .ok shown) :
    Shows context relationship shown ∧
      shown.related = (explanation.bind (explainedNode? context)).map .ofNode := by
  obtain ⟨modified, -, heq⟩ := bind_eq_ok_iff.mp h
  cases heq
  exact ⟨⟨rfl, rfl, rfl⟩, rfl⟩

theorem sides_of_fileReport {file : FileReport} (h : fileReport context relationship = .ok file) :
    file.kind = relationship.kind ∧
      file.before = (context.beforeNode? relationship).map .ofNode ∧
      file.after = (context.afterNode? relationship).map .ofNode := by
  obtain ⟨modified, -, heq⟩ := bind_eq_ok_iff.mp h
  cases heq
  exact ⟨rfl, rfl, rfl⟩

theorem fileQuiet_iff {report : FileReport} (h : fileReport context relationship = .ok report) :
    FileQuiet context relationship ↔ report.kind = .same ∧ report.modified = false := by
  obtain ⟨modified, hmodified, heq⟩ := bind_eq_ok_iff.mp h
  cases heq
  constructor
  · rintro ⟨hsame, hquiet⟩
    exact ⟨hsame, Except.ok.inj (hmodified.symm.trans hquiet)⟩
  · rintro ⟨hsame, rfl⟩
    exact ⟨hsame, hmodified⟩

theorem entryQuiet_iff {file : FileReport} {shown : Entry}
    (h : entry context file relationship (explanation? context found relationship) = .ok shown) :
    EntryQuiet context found relationship ↔ shown.isChange = false := by
  obtain ⟨modified, hmodified, heq⟩ := bind_eq_ok_iff.mp h
  cases heq
  simp only [Entry.isChange, Bool.or_eq_false_iff, bne_eq_false_iff_eq, Option.isSome_map,
    Option.isSome_eq_false_iff, Option.isNone_iff_eq_none]
  constructor
  · rintro ⟨hsame, hquiet, hunexplained⟩
    exact ⟨⟨hsame, Except.ok.inj (hmodified.symm.trans hquiet)⟩, hunexplained⟩
  · rintro ⟨⟨hsame, rfl⟩, hunexplained⟩
    exact ⟨hsame, hmodified, hunexplained⟩

theorem lt_length_of_lastIdx? {α : Type} {test : α → Bool} {xs : List α} {i : Nat}
    (h : lastIdx? test xs = some i) : i < xs.length := by
  obtain ⟨⟨x, _⟩, hfind, rfl⟩ := Option.map_eq_some_iff.mp h
  have hmem := List.mem_reverse.mp (List.mem_of_find?_eq_some hfind)
  simpa using List.snd_lt_add_of_mem_zipIdx hmem

theorem exists_lastIdx? {α : Type} {test : α → Bool} {xs : List α} {x : α} (hx : x ∈ xs)
    (htest : test x = true) : ∃ i, lastIdx? test xs = some i := by
  rw [← Option.isSome_iff_exists, lastIdx?, Option.isSome_map, List.find?_isSome]
  obtain ⟨i, hi⟩ := List.mem_iff_getElem?.mp hx
  exact ⟨(x, i), List.mem_reverse.mpr (List.mem_zipIdx_iff_getElem?.mpr hi), htest⟩

theorem lt_length_of_mem_targets {files : List Relationship} {i : Nat}
    (h : i ∈ targets context files relationship) : i < files.length := by
  have hside {side : Option Nat} {node? : Relationship → Option Node}
      (hside : side = (node? relationship).bind fun node =>
        target? node? files node.location.file) (hi : i ∈ side.toList) : i < files.length := by
    rw [hside, Option.mem_toList] at hi
    obtain ⟨node, -, htarget⟩ := Option.bind_eq_some_iff.mp hi
    exact lt_length_of_lastIdx? htarget
  rcases List.mem_append.mp h with h | h
  · exact hside rfl h
  · split at h
    · cases h
    · exact hside rfl h

theorem targets_ne_nil {files : List Relationship} {owner : Relationship} {node : Node}
    (hnode : context.beforeNode? relationship = some node) (howner : owner ∈ files)
    (hfile : (context.beforeNode? owner).any (·.location.file.same node.location.file) = true) :
    targets context files relationship ≠ [] := by
  have hexists : ∃ i, target? context.beforeNode? files node.location.file = some i :=
    exists_lastIdx? howner hfile
  obtain ⟨i, hi⟩ := hexists
  simp [targets, hnode, hi]

end Steps

section Contents

instance : LawfulBEq ByteArray where
  rfl {bytes} := beq_self_eq_true bytes.data
  eq_of_beq h := ByteArray.ext (eq_of_beq h)

/-- The files of all nodes have contents. -/
def HasContents (snapshot : Snapshot) : Prop :=
  ∀ id node, snapshot.tree.node? id = some node →
    ∃ bytes, snapshot.files.find? node.location.file = some bytes

theorem modified_of_contents {context : Context} {relationship : Relationship} {b a : Node}
    {old new : ByteArray} (hb : context.beforeNode? relationship = some b)
    (ha : context.afterNode? relationship = some a)
    (hold : context.before.files.find? b.location.file = some old)
    (hnew : context.after.files.find? a.location.file = some new)
    (part : Location → ByteArray → Option ByteArray) :
    modified context relationship part = .ok (part b.location old != part a.location new) := by
  simp only [modified, hb, ha, contents, hold, hnew]
  rfl

theorem exists_modified {before after : Snapshot} (hbefore : HasContents before)
    (hafter : HasContents after) (relationship : Relationship)
    (part : Location → ByteArray → Option ByteArray) :
    ∃ differs, modified ⟨before, after⟩ relationship part = .ok differs := by
  cases hb : Context.beforeNode? ⟨before, after⟩ relationship with
  | none => exact ⟨false, by simp [modified, hb, pure, Except.pure]⟩
  | some b =>
      cases ha : Context.afterNode? ⟨before, after⟩ relationship with
      | none => exact ⟨false, by simp [modified, ha, pure, Except.pure]⟩
      | some a =>
          obtain ⟨id, -, hnode⟩ := Option.bind_eq_some_iff.mp hb
          obtain ⟨id', -, hnode'⟩ := Option.bind_eq_some_iff.mp ha
          obtain ⟨old, hold⟩ := hbefore id b hnode
          obtain ⟨new, hnew⟩ := hafter id' a hnode'
          exact ⟨_, modified_of_contents hb ha hold hnew part⟩

end Contents

theorem onlyChanges_eq_nil_iff {report : Report} :
    report.onlyChanges.files = [] ↔ ∀ file ∈ report.files,
      (file.kind = .same ∧ file.modified = false) ∧
        ∀ shown ∈ file.entries, shown.isChange = false := by
  simp [onlyChanges, List.filter_eq_nil_iff, FileReport.isUnchanged, and_assoc]

section Build

variable {before after : Snapshot} {found : List Relationship} {report : Report}

/-- The relationships that a report has entries for. -/
def inner (context : Context) (found : List Relationship) : List Relationship :=
  found.filter fun r => context.isInner r && !r.isNonMatching

theorem build_eq_ok_iff :
    build before after found = .ok report ↔
      ∃ reports, (found.filter (Context.isFile ⟨before, after⟩)).mapM
          (fileReport ⟨before, after⟩) = .ok reports ∧
        ∃ placed, (inner ⟨before, after⟩ found).mapM (placedEntries ⟨before, after⟩ found
            (found.filter (Context.isFile ⟨before, after⟩)) reports) = .ok placed ∧
          report.files = reports.zipIdx.map fun (report, i) =>
            { report with
              entries := placed.flatten.filterMap fun (j, e) =>
                if j = i then some e else none } := by
  simp only [build, bind_eq_ok_iff]
  constructor
  · rintro ⟨reports, hreports, placed, hplaced, heq⟩
    cases heq
    exact ⟨reports, hreports, placed, hplaced, rfl⟩
  · rintro ⟨reports, hreports, placed, hplaced, heq⟩
    refine ⟨reports, hreports, placed, hplaced, ?_⟩
    cases report
    cases heq
    rfl

theorem exists_build (hbefore : HasContents before) (hafter : HasContents after)
    (found : List Relationship) : ∃ report, build before after found = .ok report := by
  have hreport : ∀ r ∈ found.filter (Context.isFile ⟨before, after⟩),
      ∃ report, fileReport ⟨before, after⟩ r = .ok report := by
    intro r _
    obtain ⟨differs, hdiffers⟩ := exists_modified hbefore hafter r _
    exact ⟨_, bind_eq_ok_iff.mpr ⟨differs, hdiffers, rfl⟩⟩
  obtain ⟨reports, hreports⟩ := exists_mapM_eq_ok hreport
  have hentries : ∀ r ∈ inner ⟨before, after⟩ found, ∃ placed,
      placedEntries ⟨before, after⟩ found (found.filter (Context.isFile ⟨before, after⟩)) reports
        r = .ok placed := by
    intro r _
    refine exists_mapM_eq_ok ?_
    rintro ⟨i, file⟩ _
    obtain ⟨differs, hdiffers⟩ := exists_modified hbefore hafter r _
    exact ⟨_, map_eq_ok_iff.mpr ⟨_, bind_eq_ok_iff.mpr ⟨differs, hdiffers, rfl⟩, rfl⟩⟩
  obtain ⟨placed, hplaced⟩ := exists_mapM_eq_ok hentries
  exact ⟨_, build_eq_ok_iff.mpr ⟨reports, hreports, placed, hplaced, rfl⟩⟩

theorem placedEntries_quiet_iff {context : Context} {files : List Relationship}
    {reports : List FileReport} (hlength : reports.length = files.length)
    {relationship : Relationship} {placed : List (Nat × Entry)}
    (h : placedEntries context found files reports relationship = .ok placed) :
    (∀ shown ∈ placed, shown.2.isChange = false) ↔
      (targets context files relationship ≠ [] → EntryQuiet context found relationship) := by
  constructor
  · intro hquiet htargets
    obtain ⟨i, hi⟩ := List.exists_mem_of_ne_nil _ htargets
    have hlt : i < reports.length := hlength ▸ lt_length_of_mem_targets hi
    have hinput : (i, reports[i]) ∈ (targets context files relationship).filterMap
        fun i => reports[i]?.map (i, ·) :=
      List.mem_filterMap.mpr ⟨i, hi, by simp [hlt]⟩
    obtain ⟨shown, hshown, hentry⟩ := exists_result_of_mem h hinput
    obtain ⟨e, hown, rfl⟩ := map_eq_ok_iff.mp hentry
    exact (entryQuiet_iff hown).mpr (hquiet _ hshown)
  · intro hquiet shown hshown
    obtain ⟨⟨i, file⟩, hinput, hentry⟩ := exists_input_of_mem h hshown
    obtain ⟨e, hown, rfl⟩ := map_eq_ok_iff.mp hentry
    obtain ⟨j, hj, -⟩ := List.mem_filterMap.mp hinput
    exact (entryQuiet_iff hown).mp (hquiet (List.ne_nil_of_mem hj))

theorem lt_length_of_mem_placedEntries {context : Context} {files : List Relationship}
    {reports : List FileReport} {relationship : Relationship} {placed : List (Nat × Entry)}
    (h : placedEntries context found files reports relationship = .ok placed)
    {shown : Nat × Entry} (hshown : shown ∈ placed) : shown.1 < reports.length := by
  obtain ⟨⟨i, file⟩, hinput, hentry⟩ := exists_input_of_mem h hshown
  obtain ⟨e, -, rfl⟩ := map_eq_ok_iff.mp hentry
  obtain ⟨j, -, hj⟩ := List.mem_filterMap.mp hinput
  obtain ⟨_, hget, heq⟩ := Option.map_eq_some_iff.mp hj
  cases heq
  exact (List.getElem?_eq_some_iff.mp hget).1

theorem onlyChanges_build_eq_nil_iff (h : build before after found = .ok report) :
    report.onlyChanges.files = [] ↔ Quiet ⟨before, after⟩ found := by
  obtain ⟨reports, hreports, placed, hplaced, hfiles⟩ := build_eq_ok_iff.mp h
  have hlength : reports.length = (found.filter (Context.isFile ⟨before, after⟩)).length :=
    (mapM_eq_ok_iff.mp hreports).length_eq.symm
  rw [onlyChanges_eq_nil_iff, hfiles]
  constructor
  · intro hquiet
    constructor
    · intro r hr hfile
      obtain ⟨file, hmem, hreport⟩ :=
        exists_result_of_mem hreports (List.mem_filter.mpr ⟨hr, hfile⟩)
      obtain ⟨i, hi⟩ := List.mem_iff_getElem?.mp hmem
      have hplace : (file, i) ∈ reports.zipIdx := List.mem_zipIdx_iff_getElem?.mpr hi
      exact (fileQuiet_iff hreport).mpr (hquiet _ (List.mem_map_of_mem hplace)).1
    · intro r hr hinner hmatching
      have hmem : r ∈ inner ⟨before, after⟩ found :=
        List.mem_filter.mpr ⟨hr, by simp [hinner, hmatching]⟩
      obtain ⟨shown, hshown, hentries⟩ := exists_result_of_mem hplaced hmem
      refine (placedEntries_quiet_iff hlength hentries).mp ?_
      rintro ⟨i, e⟩ he
      have hlt : i < reports.length := lt_length_of_mem_placedEntries hentries he
      have hplace : (reports[i], i) ∈ reports.zipIdx :=
        List.mem_zipIdx_iff_getElem?.mpr (List.getElem?_eq_getElem hlt)
      refine (hquiet _ (List.mem_map_of_mem hplace)).2 e
        (List.mem_filterMap.mpr ⟨(i, e), ?_, by simp⟩)
      exact List.mem_flatten.mpr ⟨shown, hshown, he⟩
  · rintro ⟨hquietFiles, hquietEntries⟩ file hfile
    obtain ⟨⟨own, i⟩, hown, rfl⟩ := List.mem_map.mp hfile
    constructor
    · have hmem : own ∈ reports := List.mem_of_getElem? (List.mem_zipIdx_iff_getElem?.mp hown)
      obtain ⟨r, hr, hreport⟩ := exists_input_of_mem hreports hmem
      obtain ⟨hr, hisFile⟩ := List.mem_filter.mp hr
      exact (fileQuiet_iff hreport).mp (hquietFiles r hr hisFile)
    · intro e he
      obtain ⟨⟨j, e'⟩, hmem, heq⟩ := List.mem_filterMap.mp he
      obtain ⟨shown, hshown, hmem⟩ := List.mem_flatten.mp hmem
      obtain ⟨r, hr, hentries⟩ := exists_input_of_mem hplaced hshown
      obtain ⟨hr, hinner⟩ := List.mem_filter.mp hr
      rw [Bool.and_eq_true, Bool.not_eq_true'] at hinner
      have hquiet := (placedEntries_quiet_iff hlength hentries).mpr
        (hquietEntries r hr hinner.1 hinner.2) _ hmem
      obtain ⟨-, heq⟩ := Option.ite_none_right_eq_some.mp heq
      cases heq
      exact hquiet

end Build

end Lineage.Report
