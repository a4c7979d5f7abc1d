import Lineage.Proofs.Finding
import Lineage.Proofs.Outcomes
import Lineage.Proofs.Resemblance

namespace Lineage

/-- The same node, with further calls. -/
structure Node.CallsMore (left right : Node) : Prop where
  eq_but_calls : { left with calls := right.calls } = right
  calls_subset : left.calls ⊆ right.calls

/-- The same snapshot, with further calls. -/
structure Snapshot.CallsMore (left right : Snapshot) : Prop where
  files_eq : left.files = right.files
  tokens_eq : left.tree.tokens = right.tree.tokens
  roots_eq : left.tree.roots = right.tree.roots
  node : ∀ id, Option.Rel Node.CallsMore (left.tree.node? id) (right.tree.node? id)

instance : DecidablePred Relationship.IsMatch := fun _ =>
  inferInstanceAs (Decidable (_ ∧ _ ∧ _))

/-- The second list has the same matches and leaves no more nodes without explanation. -/
structure ExplainsMore (found found' : List Relationship) : Prop where
  matches_eq : found.filter (·.IsMatch) = found'.filter (·.IsMatch)
  rest_mem : ∀ r ∈ found', r.kind = .added ∨ r.kind = .removed → r ∈ found
  extracted : ∀ r ∈ found, r.kind = .extract → ∃ r' ∈ found', r'.kind = .extract ∧ r'.after = r.after
  inlined : ∀ r ∈ found, r.kind = .inline → ∃ r' ∈ found', r'.kind = .inline ∧ r'.before = r.before

namespace TreePair

open Matching (Splits)

variable {trees : TreePair} {evidence : Evidence} {matching : Matching}

theorem not_isMatch_of_mem_segments {r : Relationship}
    (hr : r ∈ trees.extractSegment evidence matching ++ (trees.moveSegment evidence matching
      ++ (trees.inlineSegment evidence matching ++ (trees.removedSegment evidence matching
      ++ trees.addedSegment evidence matching)))) : ¬r.IsMatch := by
  simp only [List.mem_append, extractSegment, moveSegment, inlineSegment, removedSegment,
    addedSegment, List.mem_flatMap, List.mem_map, List.mem_filterMap,
    Option.map_eq_some_iff] at hr
  rintro ⟨hbefore, hafter, hkind⟩
  obtain ⟨_, _, _, _, rfl⟩ | ⟨_, _, _, _, rfl⟩ | ⟨_, _, _, _, rfl⟩ | ⟨_, _, rfl⟩ | ⟨_, _, rfl⟩ := hr
  · cases hkind
  · cases hkind
  · cases hkind
  · cases hafter
  · cases hbefore

theorem filter_isMatch_changes
    (h : Splits trees.before.levelOrder trees.after.levelOrder (trees.matching evidence)) :
    (trees.changes evidence).filter (·.IsMatch) =
      trees.typedPairs evidence (trees.matching evidence) := by
  have hpairs : (trees.typedPairs evidence (trees.matching evidence)).filter (·.IsMatch) =
      trees.typedPairs evidence (trees.matching evidence) := by
    rw [List.filter_eq_self]
    intro r hr
    obtain ⟨⟨b, a⟩, -, rfl⟩ := List.mem_map.mp hr
    exact decide_eq_true ⟨rfl, rfl, isNonMatching_classify b a⟩
  rw [changes_eq_segments h]
  simp only [List.append_assoc]
  rw [List.filter_append, hpairs, List.append_right_eq_self, List.filter_eq_nil_iff]
  intro r hr hmatch
  exact not_isMatch_of_mem_segments hr (of_decide_eq_true hmatch)

theorem find?_eq_none_of_imp {α : Type} {strong weak : α → Bool} {xs : List α}
    (himp : ∀ x, strong x = true → weak x = true) (h : xs.find? weak = none) :
    xs.find? strong = none := by
  rw [List.find?_eq_none] at h ⊢
  exact fun x hx hstrong => h x hx (himp x hstrong)

/-- The same trees, with further calls. -/
structure CallsMore (left right : TreePair) : Prop extends Resembles left right where
  before_calls : ∀ caller callee, calls left.before caller callee = true →
    calls right.before caller callee = true
  after_calls : ∀ caller callee, calls left.after caller callee = true →
    calls right.after caller callee = true

namespace CallsMore

variable {left right : TreePair} (h : left.CallsMore right)

include h

theorem origin?_eq_none {moved : Bool} {new : NodeId}
    (hnone : right.origin? evidence matching moved new = none) :
    left.origin? evidence matching moved new = none := by
  refine find?_eq_none_of_imp ?_ hnone
  rintro ⟨b, a⟩ htest
  simp only [Bool.and_eq_true] at htest ⊢
  obtain ⟨⟨hcalls, hparent⟩, hextracted⟩ := htest
  rw [h.sameParent_eq] at hparent
  exact ⟨⟨h.after_calls a new hcalls, hparent⟩, hextracted⟩

theorem host?_eq_none {old : NodeId} (hnone : right.host? evidence matching old = none) :
    left.host? evidence matching old = none := by
  refine find?_eq_none_of_imp ?_ hnone
  rintro ⟨b, a⟩ htest
  simp only [Bool.and_eq_true] at htest ⊢
  exact ⟨h.before_calls b old htest.1, htest.2⟩

theorem newNodes_eq : left.newNodes matching = right.newNodes matching := by
  rw [newNodes, newNodes, h.after.levelOrder_eq]

theorem oldNodes_eq : left.oldNodes matching = right.oldNodes matching := by
  rw [oldNodes, oldNodes, h.before.levelOrder_eq]

section Changes

variable (hsplits : Splits left.before.levelOrder left.after.levelOrder (left.matching evidence))
  (hsplits' : Splits right.before.levelOrder right.after.levelOrder (right.matching evidence))

include hsplits hsplits'

theorem filter_isMatch_changes_eq :
    (left.changes evidence).filter (·.IsMatch) = (right.changes evidence).filter (·.IsMatch) := by
  rw [filter_isMatch_changes hsplits, filter_isMatch_changes hsplits', h.matching_eq]
  simp only [typedPairs, h.classify_eq]

theorem mem_changes_of_unexplained {r : Relationship} (hr : r ∈ right.changes evidence)
    (hkind : r.kind = .added ∨ r.kind = .removed) : r ∈ left.changes evidence := by
  rw [mem_changes_iff hsplits'] at hr
  rw [mem_changes_iff hsplits, h.matching_eq]
  cases hr with
  | paired =>
      rcases hkind with hkind | hkind
      · exact absurd hkind (classify_ne (by decide) _ _)
      · exact absurd hkind (classify_ne (by decide) _ _)
  | extracted | moved | inlined => rcases hkind with hkind | hkind <;> cases hkind
  | removed hold hhost =>
      rw [← h.oldNodes_eq] at hold
      exact .removed hold (h.host?_eq_none hhost)
  | added hnew hstays hmoves =>
      rw [← h.newNodes_eq] at hnew
      exact .added hnew (h.origin?_eq_none hstays) (h.origin?_eq_none hmoves)

theorem exists_extract_of_mem {r : Relationship} (hr : r ∈ left.changes evidence)
    (hkind : r.kind = .extract) :
    ∃ r' ∈ right.changes evidence, r'.kind = .extract ∧ r'.after = r.after := by
  rw [mem_changes_iff hsplits, h.matching_eq] at hr
  obtain ⟨moved, pair, new, -, hnew, horigin, rfl⟩ := hr.exists_origin (Or.inl hkind)
  cases moved with
  | true => cases hkind
  | false =>
      rw [h.newNodes_eq] at hnew
      obtain ⟨pair', horigin'⟩ := Option.ne_none_iff_exists'.mp
        (mt h.origin?_eq_none (Option.ne_none_iff_exists'.mpr ⟨pair, horigin⟩))
      exact ⟨_, (mem_changes_iff hsplits').mpr
        (.extracted (List.mem_of_find?_eq_some horigin') hnew horigin'), rfl, rfl⟩

theorem exists_inline_of_mem {r : Relationship} (hr : r ∈ left.changes evidence)
    (hkind : r.kind = .inline) :
    ∃ r' ∈ right.changes evidence, r'.kind = .inline ∧ r'.before = r.before := by
  rw [mem_changes_iff hsplits, h.matching_eq] at hr
  obtain ⟨pair, old, -, hold, hhost, rfl⟩ := hr.exists_host hkind
  rw [h.oldNodes_eq] at hold
  obtain ⟨pair', hhost'⟩ := Option.ne_none_iff_exists'.mp
    (mt h.host?_eq_none (Option.ne_none_iff_exists'.mpr ⟨pair, hhost⟩))
  exact ⟨_, (mem_changes_iff hsplits').mpr
    (.inlined (List.mem_of_find?_eq_some hhost') hold hhost'), rfl, rfl⟩

end Changes

theorem explainsMore_changes
    (hsplits : Splits left.before.levelOrder left.after.levelOrder (left.matching evidence)) :
    ExplainsMore (left.changes evidence) (right.changes evidence) := by
  have hsplits' : Splits right.before.levelOrder right.after.levelOrder
      (right.matching evidence) := by
    rwa [← h.before.levelOrder_eq, ← h.after.levelOrder_eq, ← h.matching_eq]
  exact ⟨h.filter_isMatch_changes_eq hsplits hsplits',
    fun _ => h.mem_changes_of_unexplained hsplits hsplits',
    fun _ => h.exists_extract_of_mem hsplits hsplits',
    fun _ => h.exists_inline_of_mem hsplits hsplits'⟩

end CallsMore

end TreePair

namespace Node

variable {left right : Node} (h : left.CallsMore right)

include h

theorem CallsMore.resembles : left.Resembles right := by
  rw [← h.eq_but_calls]
  exact ⟨rfl, rfl, rfl, rfl, rfl, rfl⟩

theorem CallsMore.toElement_eq : left.toElement = right.toElement := by
  rw [← h.eq_but_calls]

end Node

namespace Snapshot.CallsMore

variable {left right : Snapshot} (h : left.CallsMore right)

include h

theorem resembles : left.tree.Resembles right.tree := by
  refine ⟨h.roots_eq, ?_⟩
  intro id
  rcases CodeTree.rel_node?_cases (h.node id) with ⟨hx, hy⟩ | ⟨x, y, hx, hy, hnode⟩
  · rw [hx, hy]
    exact .none
  · rw [hx, hy]
    exact .some hnode.resembles

theorem calls {caller callee : NodeId} (hcalls : TreePair.calls left.tree caller callee = true) :
    TreePair.calls right.tree caller callee = true := by
  rcases CodeTree.rel_node?_cases (h.node caller) with ⟨hx, -⟩ | ⟨x, y, hx, hy, hnode⟩
  · rw [TreePair.calls, hx] at hcalls
    cases hcalls
  · rw [TreePair.calls, hx] at hcalls
    rw [TreePair.calls, hy]
    exact decide_eq_true (hnode.calls_subset (of_decide_eq_true hcalls))

theorem source_eq (file : Path) : Profile.source left file = Profile.source right file := by
  rw [Profile.source, Profile.source, CodeTree.tokensOf?, CodeTree.tokensOf?, h.tokens_eq,
    h.files_eq]

theorem snapshotProfile_eq :
    SnapshotProfile.ofSnapshot left = SnapshotProfile.ofSnapshot right := by
  have hdepth (id : NodeId) : left.tree.depth id = right.tree.depth id := by
    rw [CodeTree.depth, CodeTree.depth, CodeTree.ancestors_congr h.resembles.parent?_eq]
  rw [SnapshotProfile.ofSnapshot, SnapshotProfile.ofSnapshot, ← h.resembles.levelOrder_eq]
  congr 1
  refine mapM_congr ((CodeTree.entries_related h.node left.tree.levelOrder).imp ?_)
  rintro ⟨id, x⟩ ⟨_, y⟩ ⟨rfl, hnode⟩
  have helement : x.toElement = y.toElement := hnode.toElement_eq
  simp only [Profile.ofNode, h.source_eq, hdepth, helement]

end Snapshot.CallsMore

def Snapshot.addCall (snapshot : Snapshot) (caller callee : NodeId) : Snapshot :=
  { snapshot with tree := snapshot.tree.addCall caller callee }

theorem Snapshot.callsMore_addCall (snapshot : Snapshot) (caller callee : NodeId) :
    snapshot.CallsMore (snapshot.addCall caller callee) where
  files_eq := rfl
  tokens_eq := (CodeTree.tokens_addCall _ caller callee).symm
  roots_eq := (CodeTree.roots_addCall _ caller callee).symm
  node id := by
    rw [addCall, CodeTree.node?_addCall]
    cases snapshot.tree.node? id with
    | none => exact .none
    | some node =>
        refine .some ?_
        split
        · exact ⟨rfl, List.subset_append_left node.calls [callee]⟩
        · exact ⟨rfl, List.Subset.refl node.calls⟩

/-- Both runs fail with the same error, or the second one has a result that explains more. -/
inductive Outcome.ExplainsMore :
    Except Error (List Relationship) → Except Error (List Relationship) → Prop
  | error (error : Error) : ExplainsMore (.error error) (.error error)
  | ok {found found' : List Relationship} :
      Lineage.ExplainsMore found found' → ExplainsMore (.ok found) (.ok found')

section Comparison

variable {before after before' after' : Snapshot} (hbefore : before.CallsMore before')
  (hafter : after.CallsMore after')

include hbefore hafter

theorem treePair_callsMore :
    TreePair.CallsMore ⟨before.tree, after.tree⟩ ⟨before'.tree, after'.tree⟩ where
  before := hbefore.resembles
  after := hafter.resembles
  before_calls _ _ := hbefore.calls
  after_calls _ _ := hafter.calls

theorem scorer_eq_of_callsMore (α : Type) [Weighing α] :
    (Scorer.ofSnapshots before after : Except Error (Scorer α)) =
      Scorer.ofSnapshots before' after' := by
  rw [Scorer.ofSnapshots, Scorer.ofSnapshots, hbefore.snapshotProfile_eq,
    hafter.snapshotProfile_eq, CodeTree.size_eq_of_rel hbefore.node,
    CodeTree.size_eq_of_rel hafter.node]

end Comparison

/-- Calls bear on nothing but extraction and inlining, and further calls never take an explanation
away. -/
theorem more_calls_explain_more (before after before' after' : Snapshot)
    (hbuilt : before.tree.Built) (hbuilt' : after.tree.Built) (hbefore : before.CallsMore before')
    (hafter : after.CallsMore after') :
    (∀ evidence, ExplainsMore (TreePair.changes ⟨before.tree, after.tree⟩ evidence)
      (TreePair.changes ⟨before'.tree, after'.tree⟩ evidence)) ∧
    (∀ (α : Type) [Weighing α] (threshold : α),
      Outcome.ExplainsMore (relationships threshold before after)
        (relationships threshold before' after')) ∧
    ∀ config, Outcome.ExplainsMore (findRelationships config before after)
      (findRelationships config before' after') := by
  have hchanges : ∀ evidence, ExplainsMore (TreePair.changes ⟨before.tree, after.tree⟩ evidence)
      (TreePair.changes ⟨before'.tree, after'.tree⟩ evidence) := by
    intro evidence
    apply (treePair_callsMore hbefore hafter).explainsMore_changes
    exact TreePair.splits_matching hbuilt.coherent hbuilt'.coherent evidence
  have hrelationships : ∀ (α : Type) [Weighing α] (threshold : α),
      Outcome.ExplainsMore (relationships threshold before after)
        (relationships threshold before' after') := by
    intro α _ threshold
    rw [relationships, relationships, scorer_eq_of_callsMore hbefore hafter]
    cases (Scorer.ofSnapshots before' after' : Except Error (Scorer α)) with
    | error fault => exact .error fault
    | ok scorer => exact .ok (hchanges (.ofScorer scorer threshold))
  refine ⟨hchanges, hrelationships, ?_⟩
  intro config
  rw [findRelationships, findRelationships]
  cases config.validate with
  | error fault => exact .error fault
  | ok config => exact hrelationships Float config.threshold

section TopLevel

abbrev loaders : TreePair :=
  ⟨(loader "parse").tree, (loader "read").tree⟩

/-- The two loaders with a further call each, from the top level to the second function. -/
abbrev callingLoaders : TreePair :=
  ⟨((loader "parse").addCall 0 2).tree, ((loader "read").addCall 0 2).tree⟩

/-- Code comes and goes at the top level only, and nothing is alike. -/
def topLevelOnly : Evidence :=
  ⟨fun _ _ => false, fun _ _ => false, fun b _ _ => b == 0, fun b _ _ => b == 0⟩

theorem matching_loaders : loaders.matching topLevelOnly = ⟨[(0, 0), (1, 1)], [2], [2]⟩ := by
  have hnames : Matching.start loaders.before loaders.after = ⟨[], [0, 1, 2], [0, 1, 2]⟩ ∧
      loaders.sameNamed loaders.before.roots loaders.after.roots = [(0, 0)] ∧
      loaders.namedChildren 0 0 = [(1, 1)] ∧ loaders.namedChildren 1 1 = [] := by
    decide
  have hnamed : loaders.matchByName (.start loaders.before loaders.after) =
      ⟨[(0, 0), (1, 1)], [2], [2]⟩ := by
    have hfree : Matching.isFree ⟨[], [0, 1, 2], [0, 1, 2]⟩ 0 0 = true := rfl
    rw [TreePair.matchByName, hnames.1, hnames.2.1, TreePair.cascade, if_pos hfree, hnames.2.2.1,
      List.append_nil, TreePair.cascade_eq_confirm rfl (by simp [hnames])]
    rfl
  rw [TreePair.matching, hnamed]
  decide

theorem changes_loaders :
    loaders.changes topLevelOnly = [.pair 0 0 .same, .pair 1 1 .same, .removed 2, .added 2] := by
  rw [TreePair.changes, matching_loaders]
  decide

theorem changes_callingLoaders : callingLoaders.changes topLevelOnly =
    [.pair 0 0 .same, .pair 1 1 .same, .pair 0 2 .extractAndMove, .pair 2 0 .inline] := by
  have h : loaders.CallsMore callingLoaders :=
    treePair_callsMore (Snapshot.callsMore_addCall _ 0 2) (Snapshot.callsMore_addCall _ 0 2)
  rw [TreePair.changes, ← h.matching_eq, matching_loaders]
  decide

theorem top_level_call_explains_functions :
    (loader "parse").tree.Built ∧ (loader "read").tree.Built ∧
      (loader "parse").CallsMore ((loader "parse").addCall 0 2) ∧
      (loader "read").CallsMore ((loader "read").addCall 0 2) ∧
      (loaders.changes topLevelOnly = [.pair 0 0 .same, .pair 1 1 .same, .removed 2, .added 2] ∧
        callingLoaders.changes topLevelOnly =
          [.pair 0 0 .same, .pair 1 1 .same, .pair 0 2 .extractAndMove, .pair 2 0 .inline]) ∧
      ∀ config, Outcome.ExplainsMore (findRelationships config (loader "parse") (loader "read"))
        (findRelationships config ((loader "parse").addCall 0 2)
          ((loader "read").addCall 0 2)) := by
  have hbefore := (loader "parse").callsMore_addCall 0 2
  have hafter := (loader "read").callsMore_addCall 0 2
  have h := more_calls_explain_more _ _ _ _ (grown_loader _).built (grown_loader _).built hbefore
    hafter
  exact ⟨(grown_loader _).built, (grown_loader _).built, hbefore, hafter,
    ⟨changes_loaders, changes_callingLoaders⟩, h.2.2⟩

end TopLevel

end Lineage
