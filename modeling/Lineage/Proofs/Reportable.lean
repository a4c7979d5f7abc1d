import Lineage.Proofs.Finding
import Lineage.Proofs.Reporting
import Lineage.Proofs.Scoring

namespace Lineage

theorem Profile.exists_contents {snapshot : Snapshot} {file : Path} {source : TokenIndex × ByteArray}
    (h : Profile.source snapshot file = .ok source) :
    snapshot.files.find? file = some source.2 :=
  (Profile.of_source_eq_ok h).2.1

theorem scorable_of_profile {snapshot : Snapshot} {profile : SnapshotProfile}
    (hgrown : snapshot.tree.Grown) (h : SnapshotProfile.ofSnapshot snapshot = .ok profile) :
    Scorable snapshot := by
  intro id node hnode
  have hid : id ∈ snapshot.tree.levelOrder :=
    hgrown.mem_levelOrder_iff.mpr (CodeTree.lt_size_of_node? hnode)
  obtain ⟨_, -, hprofile⟩ := SnapshotProfile.exists_mem_profiles h hid hnode
  obtain ⟨source, hsource, -⟩ := map_eq_ok_iff.mp hprofile
  exact ⟨source, hsource⟩

theorem scorable_of_scorer {α : Type} [Weighing α] {before after : Snapshot} {scorer : Scorer α}
    (hbefore : before.tree.Grown) (hafter : after.tree.Grown)
    (h : Scorer.ofSnapshots before after = .ok scorer) : Scorable before ∧ Scorable after := by
  obtain ⟨_, hbeforeProfile, hrest⟩ := bind_eq_ok_iff.mp h
  obtain ⟨_, hafterProfile, -⟩ := bind_eq_ok_iff.mp hrest
  exact ⟨scorable_of_profile hbefore hbeforeProfile, scorable_of_profile hafter hafterProfile⟩

theorem Scorable.hasContents {snapshot : Snapshot} (h : Scorable snapshot) :
    Report.HasContents snapshot := by
  intro id node hnode
  obtain ⟨source, hsource⟩ := h id node hnode
  exact ⟨source.2, Profile.exists_contents hsource⟩

namespace TreePair

open Matching (Splits)

variable {trees : TreePair} {evidence : Evidence} {matching : Matching} {r : Relationship}

variable (h : Splits trees.before.levelOrder trees.after.levelOrder matching)

include h

theorem Arises.before_mem (hr : Arises trees evidence matching r) {b : NodeId}
    (hb : r.before = some b) : b ∈ trees.before.levelOrder := by
  cases hr with
  | paired hpair | extracted hpair | moved hpair =>
      cases hb
      exact h.fst_mem hpair
  | inlined _ hold | removed hold =>
      cases hb
      exact (List.mem_filter.mp hold).1
  | added => cases hb

theorem Arises.after_mem (hr : Arises trees evidence matching r) {a : NodeId}
    (ha : r.after = some a) : a ∈ trees.after.levelOrder := by
  cases hr with
  | paired hpair | inlined hpair =>
      cases ha
      exact h.snd_mem hpair
  | extracted _ hnew | moved _ hnew | added hnew =>
      cases ha
      exact (List.mem_filter.mp hnew).1
  | removed => cases ha

omit h

theorem Arises.has_side (hr : Arises trees evidence matching r) :
    r.before ≠ none ∨ r.after ≠ none := by
  cases hr with
  | paired | extracted | moved | inlined | removed => exact Or.inl (Option.some_ne_none _)
  | added => exact Or.inr (Option.some_ne_none _)

end TreePair

namespace Report

/-- All that a report looks up is there: the sides of the relationships, the node that each of them is
filed under, and the reports that they are entered in. -/
structure Grounded (context : Context) (found : List Relationship) (report : Report) : Prop where
  before : ∀ r ∈ found, ∀ b, r.before = some b → ∃ node, context.before.tree.node? b = some node
  after : ∀ r ∈ found, ∀ a, r.after = some a → ∃ node, context.after.tree.node? a = some node
  primary : ∀ r ∈ found, ∃ node, context.primary? r = some node
  target : ∀ r ∈ found, ∀ i ∈ targets context (found.filter context.isFile) r,
    i < report.files.length

theorem length_files_of_build {before after : Snapshot} {found : List Relationship}
    {report : Report} (h : build before after found = .ok report) :
    report.files.length = (found.filter (Context.isFile ⟨before, after⟩)).length := by
  obtain ⟨reports, hreports, _, -, hfiles⟩ := build_eq_ok_iff.mp h
  rw [hfiles, List.length_map, List.length_zipIdx]
  exact (mapM_eq_ok_iff.mp hreports).length_eq.symm

theorem primary?_isSome {context : Context} {r : Relationship}
    (hbefore : ∀ b, r.before = some b → ∃ node, context.before.tree.node? b = some node)
    (hafter : ∀ a, r.after = some a → ∃ node, context.after.tree.node? a = some node)
    (hside : r.before ≠ none ∨ r.after ≠ none) : ∃ node, context.primary? r = some node := by
  unfold Context.primary?
  split
  · next b hb =>
    obtain ⟨node, hnode⟩ := hbefore b hb
    exact ⟨node, by simp [Context.beforeNode?, hb, hnode]⟩
  · next hnone =>
    obtain ⟨a, ha⟩ := Option.ne_none_iff_exists'.mp (hside.resolve_left (· hnone))
    obtain ⟨node, hnode⟩ := hafter a ha
    exact ⟨node, by simp [Context.afterNode?, ha, hnode]⟩

theorem exists_grounded_report {before after : Snapshot} (hbefore : before.tree.Grown)
    (hafter : after.tree.Grown) (hold : HasContents before) (hnew : HasContents after)
    (evidence : Evidence) :
    ∃ report, build before after (TreePair.changes ⟨before.tree, after.tree⟩ evidence) =
        .ok report ∧
      Grounded ⟨before, after⟩ (TreePair.changes ⟨before.tree, after.tree⟩ evidence) report := by
  have hsplits := @TreePair.splits_matching ⟨before.tree, after.tree⟩ hbefore.built.coherent
    hafter.built.coherent evidence
  have harises := fun r => (@TreePair.mem_changes_iff _ evidence hsplits r).mp
  generalize TreePair.changes ⟨before.tree, after.tree⟩ evidence = found at harises ⊢
  obtain ⟨report, hreport⟩ := exists_build hold hnew found
  have hbeforeNode : ∀ r ∈ found, ∀ b, r.before = some b →
      ∃ node, before.tree.node? b = some node := by
    intro r hr b hb
    apply CodeTree.exists_node?_of_lt_size
    exact hbefore.mem_levelOrder_iff.mp ((harises r hr).before_mem hsplits hb)
  have hafterNode : ∀ r ∈ found, ∀ a, r.after = some a →
      ∃ node, after.tree.node? a = some node := by
    intro r hr a ha
    apply CodeTree.exists_node?_of_lt_size
    exact hafter.mem_levelOrder_iff.mp ((harises r hr).after_mem hsplits ha)
  refine ⟨report, hreport, hbeforeNode, hafterNode, ?_, ?_⟩
  · intro r hr
    exact primary?_isSome (hbeforeNode r hr) (hafterNode r hr) (harises r hr).has_side
  · intro r _ i hi
    rw [length_files_of_build hreport]
    exact lt_length_of_mem_targets hi

end Report

/-- Once the settings are valid and two snapshots have a scorer, comparing them cannot fail any
more. -/
theorem scored_snapshots_are_reported (before after : Snapshot) (hbefore : before.tree.Grown)
    (hafter : after.tree.Grown) (config : Config) (scorer : Scorer Float)
    (hvalid : config.isValid = true) (hscorer : Scorer.ofSnapshots before after = .ok scorer) :
    ∃ found report, findRelationships config before after = .ok found ∧
      Report.build before after found = .ok report ∧
      compareSnapshots config before after = .ok report ∧
      Report.Grounded ⟨before, after⟩ found report := by
  obtain ⟨hold, hnew⟩ := scorable_of_scorer hbefore hafter hscorer
  have hfound := findRelationships_eq_ok hvalid hscorer
  obtain ⟨report, hreport, hgrounded⟩ := Report.exists_grounded_report hbefore hafter
    hold.hasContents hnew.hasContents (.ofScorer scorer config.threshold)
  refine ⟨_, report, hfound, hreport, ?_, hgrounded⟩
  rw [compareSnapshots, hfound]
  exact hreport

theorem loader_is_reported :
    (loader "parse").tree.Grown ∧ (loader "read").tree.Grown ∧
      ∃ scorer : Scorer Float, Scorer.ofSnapshots (loader "parse") (loader "read") = .ok scorer ∧
        ∃ found report, findRelationships {} (loader "parse") (loader "read") = .ok found ∧
          Report.build (loader "parse") (loader "read") found = .ok report ∧
          compareSnapshots {} (loader "parse") (loader "read") = .ok report ∧
          Report.Grounded ⟨loader "parse", loader "read"⟩ found report := by
  obtain ⟨scorer, hscorer⟩ := exists_scorer_loader
  exact ⟨grown_loader _, grown_loader _, scorer, hscorer,
    scored_snapshots_are_reported _ _ (grown_loader _) (grown_loader _) {} scorer (by decide)
      hscorer⟩

end Lineage
