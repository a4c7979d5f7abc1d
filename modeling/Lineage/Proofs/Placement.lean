import Mathlib.Data.List.Induction
import Lineage.Proofs.LastItem
import Lineage.Proofs.Reportable

namespace Lineage

namespace Report

/-- A position holds the report of the file that a relationship touches on one side: the last
relationship of files that has the file on this side. -/
def OwnsFile (node? : Relationship → Option Node) (files : List Relationship) (i : Nat)
    (r : Relationship) : Prop :=
  ∃ node, node? r = some node ∧ IsLastAt (fun owner => ∃ other, node? owner = some other ∧
    other.location.file.same node.location.file = true) files i

/-- A relationship is entered in the report at a position: it is filed under a class or a function,
is no extraction and no inlining, and the report is that of its file before or after. -/
structure Entered (context : Context) (found : List Relationship) (i : Nat) (r : Relationship) :
    Prop where
  matching : r.isNonMatching = false
  inner : ∃ node, context.primary? r = some node ∧ node.kind ≠ .file
  place : OwnsFile context.beforeNode? (found.filter context.isFile) i r ∨
    OwnsFile context.afterNode? (found.filter context.isFile) i r

section Targets

theorem lastIdx?_concat {α : Type} (test : α → Bool) (xs : List α) (x : α) :
    lastIdx? test (xs ++ [x]) = if test x then some xs.length else lastIdx? test xs := by
  rw [lastIdx?, List.zipIdx_append, List.reverse_append]
  by_cases hx : test x = true
  · simp [hx]
  · simp [hx, lastIdx?]

theorem lastIdx?_eq_some_iff {α : Type} {test : α → Bool} {property : α → Prop}
    (htest : ∀ x, test x = true ↔ property x) {xs : List α} {i : Nat} :
    lastIdx? test xs = some i ↔ IsLastAt property xs i := by
  induction xs using List.reverseRecOn with
  | nil =>
      constructor
      · intro h
        cases h
      · rintro ⟨⟨x, hx, -⟩, -⟩
        cases hx
  | append_singleton xs x ih =>
      rw [lastIdx?_concat, isLastAt_concat, ← ih, ← htest]
      by_cases hx : test x = true
      · simp [hx, eq_comm]
      · simp [hx]

variable {context : Context} {found files : List Relationship} {r : Relationship} {i : Nat}

theorem bind_target?_eq_some_iff {node? : Relationship → Option Node} :
    ((node? r).bind fun node => target? node? files node.location.file) = some i ↔
      OwnsFile node? files i r := by
  rw [Option.bind_eq_some_iff]
  refine exists_congr fun node => and_congr_right fun _ => lastIdx?_eq_some_iff ?_
  intro owner
  rw [Option.any_eq_true]

theorem mem_targets_iff :
    i ∈ targets context files r ↔
      OwnsFile context.beforeNode? files i r ∨ OwnsFile context.afterNode? files i r := by
  rw [← bind_target?_eq_some_iff, ← bind_target?_eq_some_iff]
  unfold targets
  generalize (context.beforeNode? r).bind _ = before
  generalize (context.afterNode? r).bind _ = after
  by_cases heq : after = before
  · simp [heq]
  · simp [heq]

theorem nodup_targets : (targets context files r).Nodup := by
  unfold targets
  generalize (context.beforeNode? r).bind _ = before
  generalize (context.afterNode? r).bind _ = after
  by_cases heq : after = before
  · cases before <;> simp [heq]
  · cases before <;> cases after <;> simp_all [eq_comm]

theorem entered_iff :
    Entered context found i r ↔ (context.isInner r = true ∧ r.isNonMatching = false) ∧
      i ∈ targets context (found.filter context.isFile) r := by
  have hinner : context.isInner r = true ↔ ∃ node, context.primary? r = some node ∧
      node.kind ≠ .file := by
    simp [Context.isInner, Option.any_eq_true, Node.isFile]
  rw [mem_targets_iff, hinner]
  constructor
  · rintro ⟨hmatching, hinner, hplace⟩
    exact ⟨⟨hinner, hmatching⟩, hplace⟩
  · rintro ⟨⟨hinner, hmatching⟩, hplace⟩
    exact ⟨hmatching, hinner, hplace⟩

instance : Decidable (Entered context found i r) :=
  decidable_of_iff _ entered_iff.symm

end Targets

/-- A report follows a list of relationships: its files are the relationships of files, and the
entries of each file are the relationships that are entered there, both in order. What they show of
a relationship is in `files_show` and `entries_show`. -/
structure Places (context : Context) (found : List Relationship) (report : Report) : Prop where
  files : List.Forall₂ (fun owner file =>
    fileReport context owner = .ok { file with entries := [] })
    (found.filter context.isFile) report.files
  entries : ∀ i file, report.files[i]? = some file →
    List.Forall₂ (fun r shown => entry context { file with entries := [] } r
      (explanation? context found r) = .ok shown)
      (found.filter fun r => Entered context found i r) file.entries

namespace Places

variable {context : Context} {found : List Relationship} {report : Report}
  (h : Places context found report)

include h

theorem files_show :
    List.Forall₂ (fun owner file => file.kind = owner.kind ∧
      file.before = (context.beforeNode? owner).map .ofNode ∧
      file.after = (context.afterNode? owner).map .ofNode)
      (found.filter context.isFile) report.files :=
  h.files.imp fun _ _ hfile => sides_of_fileReport hfile

theorem entries_show {i : Nat} {file : FileReport} (hfile : report.files[i]? = some file) :
    List.Forall₂ (Shows context) (found.filter fun r => Entered context found i r) file.entries :=
  (h.entries i file hfile).imp fun _ _ hentry => (shows_of_entry hentry).1

end Places

/-- The entries with a position. -/
def entriesAt (i : Nat) (placed : List (Nat × Entry)) : List Entry :=
  placed.filterMap fun (j, e) => if j = i then some e else none

theorem entriesAt_cons_self (i : Nat) (shown : Entry) (placed : List (Nat × Entry)) :
    entriesAt i ((i, shown) :: placed) = shown :: entriesAt i placed := by
  simp [entriesAt]

theorem entriesAt_cons_of_ne {i j : Nat} (h : j ≠ i) (shown : Entry)
    (placed : List (Nat × Entry)) : entriesAt i ((j, shown) :: placed) = entriesAt i placed := by
  simp [entriesAt, h]

theorem entriesAt_append (i : Nat) (left right : List (Nat × Entry)) :
    entriesAt i (left ++ right) = entriesAt i left ++ entriesAt i right :=
  List.filterMap_append

section Placing

variable {context : Context} {found files : List Relationship} {reports : List FileReport}
  {file : FileReport} {i : Nat}

theorem entries_eq_nil_of_fileReport {r : Relationship} (h : fileReport context r = .ok file) :
    file.entries = [] := by
  obtain ⟨_, -, heq⟩ := bind_eq_ok_iff.mp h
  cases heq
  rfl

theorem forall₂_entriesAt {r : Relationship} {explanation : Option Relationship}
    (hi : reports[i]? = some file) {positions : List Nat} (hpositions : positions.Nodup)
    {placed : List (Nat × Entry)}
    (h : (positions.filterMap fun j => reports[j]?.map (j, ·)).mapM
      (fun (j, file) => (entry context file r explanation).map (j, ·)) = .ok placed) :
    List.Forall₂ (fun r shown => entry context file r explanation = .ok shown)
      (if i ∈ positions then [r] else []) (entriesAt i placed) := by
  rw [mapM_eq_ok_iff] at h
  induction positions generalizing placed with
  | nil =>
      cases h
      exact .nil
  | cons j rest ih =>
      obtain ⟨hj, hrest⟩ := List.nodup_cons.mp hpositions
      rw [List.filterMap_cons] at h
      cases hreport : reports[j]? with
      | none =>
          have hne : i ≠ j := by
            rintro rfl
            cases hi.symm.trans hreport
          rw [hreport] at h
          simpa [hne] using ih hrest h
      | some other =>
          rw [hreport] at h
          obtain ⟨first, others, hfirst, hothers, rfl⟩ := List.forall₂_cons_left_iff.mp h
          obtain ⟨shown, hshown, rfl⟩ := map_eq_ok_iff.mp hfirst
          have htail := ih hrest hothers
          by_cases hij : j = i
          · subst hij
            cases hi.symm.trans hreport
            rw [if_neg hj, List.forall₂_nil_left_iff] at htail
            rw [if_pos List.mem_cons_self, entriesAt_cons_self, htail]
            exact .cons hshown .nil
          · rw [entriesAt_cons_of_ne hij]
            simpa [Ne.symm hij] using htail

theorem forall₂_entriesAt_flatten (hi : reports[i]? = some file) {rs : List Relationship}
    {placed : List (List (Nat × Entry))}
    (h : rs.mapM (placedEntries context found files reports) = .ok placed) :
    List.Forall₂ (fun r shown => entry context file r (explanation? context found r) = .ok shown)
      (rs.filter fun r => i ∈ targets context files r) (entriesAt i placed.flatten) := by
  rw [mapM_eq_ok_iff] at h
  induction h with
  | nil => exact .nil
  | @cons r own rs placed hfirst _ ih =>
      have hown := forall₂_entriesAt hi nodup_targets hfirst
      rw [List.flatten_cons, entriesAt_append]
      by_cases hr : i ∈ targets context files r
      · rw [List.filter_cons_of_pos (by simpa using hr)]
        rw [if_pos hr] at hown
        obtain ⟨shown, _, hshown, hnil, heq⟩ := List.forall₂_cons_left_iff.mp hown
        cases hnil
        rw [heq]
        exact .cons hshown ih
      · rw [List.filter_cons_of_neg (by simpa using hr)]
        rw [if_neg hr, List.forall₂_nil_left_iff] at hown
        rw [hown]
        exact ih

end Placing

section Build

variable {before after : Snapshot} {found : List Relationship} {report : Report}

theorem filter_entered (context : Context) (i : Nat) :
    found.filter (fun r => Entered context found i r) = (inner context found).filter
      fun r => i ∈ targets context (found.filter context.isFile) r := by
  rw [inner, List.filter_filter]
  refine List.filter_congr ?_
  intro r _
  rw [Bool.eq_iff_iff]
  simp [entered_iff, and_comm, and_left_comm]

theorem forall₂_files (h : build before after found = .ok report) :
    List.Forall₂ (fun owner file =>
      fileReport ⟨before, after⟩ owner = .ok { file with entries := [] })
      (found.filter (Context.isFile ⟨before, after⟩)) report.files := by
  obtain ⟨reports, hreports, _, -, hfiles⟩ := build_eq_ok_iff.mp h
  have howners := mapM_eq_ok_iff.mp hreports
  rw [← List.zipIdx_map_fst 0 reports, List.forall₂_map_right_iff] at howners
  rw [hfiles, List.forall₂_map_right_iff]
  refine List.Forall₂.imp ?_ howners
  rintro r ⟨file, i⟩ hreport
  rw [hreport, ← entries_eq_nil_of_fileReport hreport]

theorem forall₂_entries (h : build before after found = .ok report) {i : Nat} {file : FileReport}
    (hfile : report.files[i]? = some file) :
    List.Forall₂ (fun r shown => entry ⟨before, after⟩ { file with entries := [] } r
      (explanation? ⟨before, after⟩ found r) = .ok shown)
      (found.filter fun r => Entered ⟨before, after⟩ found i r) file.entries := by
  obtain ⟨reports, hreports, placed, hplaced, hfiles⟩ := build_eq_ok_iff.mp h
  rw [hfiles, List.getElem?_map, List.getElem?_zipIdx, Option.map_map] at hfile
  obtain ⟨own, hown, rfl⟩ := Option.map_eq_some_iff.mp hfile
  obtain ⟨_, -, hreport⟩ := exists_input_of_mem hreports (List.mem_of_getElem? hown)
  have hbare : { own with entries := [] } = own := by
    rw [← entries_eq_nil_of_fileReport hreport]
  have hentries := forall₂_entriesAt_flatten hown hplaced
  rw [← filter_entered, ← hbare] at hentries
  simpa [entriesAt] using hentries

end Build

end Report

/-- There is one report for each relationship of files, with one entry for each relationship that is
entered there, both in the order of the list. -/
theorem entries_are_placed_by_file (before after : Snapshot) (found : List Relationship)
    (report : Report) (h : Report.build before after found = .ok report) :
    Report.Places ⟨before, after⟩ found report where
  files := Report.forall₂_files h
  entries _ _ hfile := Report.forall₂_entries h hfile

/-- The files `a.js` and `b.js` with a function `f` in one of them. -/
def twoFiles (home : NodeId) (file : Path) : Snapshot :=
  let location (file : Path) : Location :=
    { file, lineStart := 1, lineStop := 1, start := 0, stop := 1 }
  let first := CodeTree.addRoot {} { kind := .file, name := "a.js", location := location ⟨"a.js"⟩ }
  let both := first.addRoot { kind := .file, name := "b.js", location := location ⟨"b.js"⟩ }
  { tree := (both.addChild home { kind := .function, name := "f", location := location file }).getD
      both
    files := ⟨[(⟨"a.js"⟩, ⟨#[120]⟩), (⟨"b.js"⟩, ⟨#[121]⟩)]⟩ }

/-- The function moves from `a.js` to `b.js`, and there are two relationships of `a.js`. -/
def movedFunction : List Relationship :=
  [.pair 0 0 .same, .pair 1 1 .same, .pair 0 0 .rename, .pair 2 2 .move]

theorem moved_function_is_entered_twice :
    ∃ report, Report.build (twoFiles 0 ⟨"a.js"⟩) (twoFiles 1 ⟨"b.js"⟩) movedFunction = .ok report ∧
      report.files.map (·.entries.length) = [0, 1, 1] := by
  obtain ⟨report, hreport⟩ : ∃ report, Report.build (twoFiles 0 ⟨"a.js"⟩) (twoFiles 1 ⟨"b.js"⟩)
      movedFunction = .ok report := ⟨_, rfl⟩
  refine ⟨report, hreport, ?_⟩
  obtain ⟨hfiles, hentries⟩ := entries_are_placed_by_file _ _ _ _ hreport
  have hlength : report.files.length = 3 := hfiles.length_eq.symm.trans (by decide +kernel)
  obtain ⟨first, second, third, heq⟩ := List.length_eq_three.mp hlength
  have hfirst := (hentries 0 first (by rw [heq]; rfl)).length_eq
  have hsecond := (hentries 1 second (by rw [heq]; rfl)).length_eq
  have hthird := (hentries 2 third (by rw [heq]; rfl)).length_eq
  rw [heq, List.map_cons, List.map_cons, List.map_cons, ← hfirst, ← hsecond, ← hthird]
  decide +kernel

end Lineage
