import Lineage.Comparison
import Lineage.Proofs.Confirmation

namespace Lineage

/-- Whatever the scores say, the relationships found between two snapshots have a property; and the
finder does return them once the settings are valid and both snapshots can be scored. -/
def EveryFinding (before after : Snapshot)
    (property : Evidence → List Relationship → Prop) : Prop :=
  (∀ evidence, property evidence (TreePair.changes ⟨before.tree, after.tree⟩ evidence)) ∧
    ∀ (config : Config) (scorer : Scorer Float), config.isValid = true →
      Scorer.ofSnapshots before after = .ok scorer →
        ∃ found, findRelationships config before after = .ok found ∧
          property (.ofScorer scorer config.threshold) found

theorem findRelationships_eq_ok {config : Config} {before after : Snapshot} {scorer : Scorer Float}
    (hvalid : config.isValid = true) (hscorer : Scorer.ofSnapshots before after = .ok scorer) :
    findRelationships config before after =
      .ok (TreePair.changes ⟨before.tree, after.tree⟩ (.ofScorer scorer config.threshold)) := by
  have hvalidate : config.validate = .ok config := if_pos hvalid
  rw [findRelationships, hvalidate]
  change relationships config.threshold before after = _
  rw [relationships, hscorer]
  rfl

theorem everyFinding_of_changes {before after : Snapshot}
    {property : Evidence → List Relationship → Prop}
    (h : ∀ evidence, property evidence (TreePair.changes ⟨before.tree, after.tree⟩ evidence)) :
    EveryFinding before after property :=
  ⟨h, fun _ _ hvalid hscorer => ⟨_, findRelationships_eq_ok hvalid hscorer, h _⟩⟩

/-- The kinds that a confirmed pair can have. -/
def RelationKind.ofPairs : List RelationKind :=
  [.same, .convertType, .changeSignature, .move, .rename, .moveAndRename]

namespace Relationship

/-- A relationship that says of a node before which node after it became. -/
def IsMatch (relationship : Relationship) : Prop :=
  relationship.before.isSome ∧ relationship.after.isSome ∧ relationship.isNonMatching = false

/-- The two nodes are in a two-sided matching relationship of the list. -/
def Matched (found : List Relationship) (before after : NodeId) : Prop :=
  ∃ relationship ∈ found, relationship.IsMatch ∧
    relationship.before = some before ∧ relationship.after = some after

end Relationship

namespace TreePair

open Matching (Splits)

variable (trees : TreePair) (evidence : Evidence) (matching : Matching)

/-- The nodes of the newer tree in no confirmed pair, in level order. -/
def newNodes : List NodeId :=
  trees.after.levelOrder.filter (· ∉ matching.pairs.map Prod.snd)

/-- The nodes of the older tree in no confirmed pair, in level order. -/
def oldNodes : List NodeId :=
  trees.before.levelOrder.filter (· ∉ matching.pairs.map Prod.fst)

/-- The first confirmed pair that calls a new node and lost its code, among those whose parent the
node shares or, if it `moved`, does not share. -/
def origin? (moved : Bool) (new : NodeId) : Option (NodeId × NodeId) :=
  matching.pairs.find? fun (b, a) =>
    calls trees.after a new && trees.sameParent matching b new == !moved
      && evidence.extracted b a new

/-- The first confirmed pair that called a vanished node and gained its code. -/
def host? (old : NodeId) : Option (NodeId × NodeId) :=
  matching.pairs.find? fun (b, a) => calls trees.before b old && evidence.inlined b a old

/-- The nodes that went to a pair, pair by pair. -/
def extractSegment : List Relationship :=
  matching.pairs.flatMap fun pair =>
    ((trees.newNodes matching).filter fun new =>
      trees.origin? evidence matching false new = some pair).map (.pair pair.1 · .extract)

/-- The nodes that went to a pair by way of another parent, pair by pair. -/
def moveSegment : List Relationship :=
  matching.pairs.flatMap fun pair =>
    ((trees.newNodes matching).filter fun new =>
      trees.origin? evidence matching false new = none ∧
        trees.origin? evidence matching true new = some pair).map (.pair pair.1 · .extractAndMove)

def inlineSegment : List Relationship :=
  (trees.oldNodes matching).filterMap fun old =>
    (trees.host? evidence matching old).map fun pair => .pair old pair.2 .inline

def removedSegment : List Relationship :=
  ((trees.oldNodes matching).filter fun old =>
    (trees.host? evidence matching old).isNone).map .removed

def addedSegment : List Relationship :=
  ((trees.newNodes matching).filter fun new =>
    trees.origin? evidence matching false new = none ∧
      trees.origin? evidence matching true new = none).map .added

variable {trees evidence matching}

theorem distribute_eq (test : NodeId × NodeId → NodeId → Bool) (kind : RelationKind)
    {pairs : List (NodeId × NodeId)} (hpairs : pairs.Nodup) (nodes : List NodeId) :
    distribute test kind pairs nodes =
      (pairs.flatMap fun pair =>
        (nodes.filter fun node => pairs.find? (test · node) = some pair).map (.pair pair.1 · kind),
        nodes.filter fun node => pairs.find? (test · node) = none) := by
  induction pairs generalizing nodes with
  | nil => simp [distribute]
  | cons first rest ih =>
      obtain ⟨hfirst, hrest⟩ := List.nodup_cons.mp hpairs
      have hfind : ∀ node, (first :: rest).find? (test · node) =
          if test first node then some first else rest.find? (test · node) := by
        intro node
        rw [List.find?_cons]
        split <;> simp_all
      have hnot : ∀ node, rest.find? (test · node) ≠ some first :=
        fun node h => hfirst (List.mem_of_find?_eq_some h)
      simp only [distribute, ih hrest, List.flatMap_cons, List.filter_filter, hfind]
      congr 2
      · congr 1
        refine List.filter_congr ?_
        intro node _
        by_cases htest : test first node <;> simp [htest, hnot]
      · refine List.flatMap_congr ?_
        intro pair hpair
        have hne : first ≠ pair := fun heq => hfirst (heq ▸ hpair)
        congr 1
        refine List.filter_congr ?_
        intro node _
        by_cases htest : test first node <;> simp [htest, hne]
      · funext node
        by_cases htest : test first node <;> simp [htest]

theorem find?_isExtracted (moved : Bool) (new : NodeId) :
    matching.pairs.find? (trees.isExtracted evidence matching moved · new) =
      trees.origin? evidence matching moved new := by
  rw [origin?]
  congr 1
  funext ⟨before, after⟩
  simp only [isExtracted]
  cases trees.sameParent matching before new <;> cases moved <;> rfl

theorem inlinedInto?_eq_host? (old : NodeId) :
    trees.inlinedInto? evidence matching old = (trees.host? evidence matching old).map Prod.snd :=
  rfl

/-- The result is the typed pairs followed by the five segments. -/
theorem changes_eq_segments
    (h : Splits trees.before.levelOrder trees.after.levelOrder (trees.matching evidence)) :
    trees.changes evidence =
      trees.typedPairs evidence (trees.matching evidence)
        ++ trees.extractSegment evidence (trees.matching evidence)
        ++ trees.moveSegment evidence (trees.matching evidence)
        ++ trees.inlineSegment evidence (trees.matching evidence)
        ++ trees.removedSegment evidence (trees.matching evidence)
        ++ trees.addedSegment evidence (trees.matching evidence) := by
  have hpairs : (trees.matching evidence).pairs.Nodup := h.nodup_fst.of_map
  have hnew : (trees.matching evidence).freeAfter = trees.newNodes (trees.matching evidence) :=
    h.freeAfter_eq
  have hold : (trees.matching evidence).freeBefore = trees.oldNodes (trees.matching evidence) :=
    h.freeBefore_eq
  simp only [changes, distribute_eq _ _ hpairs, find?_isExtracted, List.filter_filter, hnew, hold,
    inlinedInto?_eq_host?]
  simp only [extractSegment, moveSegment, inlineSegment, removedSegment, addedSegment,
    Bool.decide_and, Bool.and_comm, Option.map_map, Option.isNone_map, Function.comp_def]

/-- The gated and the ungated rule agree, so the scores have no say in the kind of a pair. -/
theorem classify_eq (before after : NodeId) :
    trees.classify evidence matching before after =
      if trees.sameKind before after then
        if trees.sameSignature before after && trees.sameParent matching before after then .same
        else renameOrMove (trees.sameLocalName before after)
          (trees.sameParent matching before after)
      else .convertType := by
  simp only [classify, classify?]
  cases trees.sameKind before after
  · rfl
  · cases trees.sameSignature before after && trees.sameParent matching before after
    · cases evidence.similar before after <;> rfl
    · rfl

theorem classify_mem (before after : NodeId) :
    trees.classify evidence matching before after ∈ RelationKind.ofPairs := by
  rw [classify_eq]
  split
  · split
    · decide
    · generalize trees.sameLocalName before after = sameName
      generalize trees.sameParent matching before after = sameParent
      revert sameName sameParent
      decide
  · decide

/-- Where a relationship of the result comes from. -/
inductive Arises (trees : TreePair) (evidence : Evidence) (matching : Matching) :
    Relationship → Prop
  | paired {before after : NodeId} : (before, after) ∈ matching.pairs →
      Arises trees evidence matching
        (.pair before after (trees.classify evidence matching before after))
  | extracted {pair : NodeId × NodeId} {new : NodeId} : pair ∈ matching.pairs →
      new ∈ trees.newNodes matching → trees.origin? evidence matching false new = some pair →
      Arises trees evidence matching (.pair pair.1 new .extract)
  | moved {pair : NodeId × NodeId} {new : NodeId} : pair ∈ matching.pairs →
      new ∈ trees.newNodes matching → trees.origin? evidence matching false new = none →
      trees.origin? evidence matching true new = some pair →
      Arises trees evidence matching (.pair pair.1 new .extractAndMove)
  | inlined {pair : NodeId × NodeId} {old : NodeId} : pair ∈ matching.pairs →
      old ∈ trees.oldNodes matching → trees.host? evidence matching old = some pair →
      Arises trees evidence matching (.pair old pair.2 .inline)
  | removed {old : NodeId} : old ∈ trees.oldNodes matching →
      trees.host? evidence matching old = none → Arises trees evidence matching (.removed old)
  | added {new : NodeId} : new ∈ trees.newNodes matching →
      trees.origin? evidence matching false new = none →
      trees.origin? evidence matching true new = none →
      Arises trees evidence matching (.added new)

theorem mem_changes_iff
    (h : Splits trees.before.levelOrder trees.after.levelOrder (trees.matching evidence))
    {relationship : Relationship} :
    relationship ∈ trees.changes evidence ↔
      Arises trees evidence (trees.matching evidence) relationship := by
  rw [changes_eq_segments h]
  simp only [List.mem_append]
  constructor
  · rintro (((((hr | hr) | hr) | hr) | hr) | hr)
    · obtain ⟨⟨before, after⟩, hpair, rfl⟩ := List.mem_map.mp hr
      exact .paired hpair
    · obtain ⟨pair, hpair, hr⟩ := List.mem_flatMap.mp hr
      obtain ⟨new, hnew, rfl⟩ := List.mem_map.mp hr
      rw [List.mem_filter, decide_eq_true_eq] at hnew
      exact .extracted hpair hnew.1 hnew.2
    · obtain ⟨pair, hpair, hr⟩ := List.mem_flatMap.mp hr
      obtain ⟨new, hnew, rfl⟩ := List.mem_map.mp hr
      rw [List.mem_filter, decide_eq_true_eq] at hnew
      exact .moved hpair hnew.1 hnew.2.1 hnew.2.2
    · obtain ⟨old, hold, hr⟩ := List.mem_filterMap.mp hr
      obtain ⟨pair, hpair, rfl⟩ := Option.map_eq_some_iff.mp hr
      exact .inlined (List.mem_of_find?_eq_some hpair) hold hpair
    · obtain ⟨old, hold, rfl⟩ := List.mem_map.mp hr
      rw [List.mem_filter, Option.isNone_iff_eq_none] at hold
      exact .removed hold.1 hold.2
    · obtain ⟨new, hnew, rfl⟩ := List.mem_map.mp hr
      rw [List.mem_filter, decide_eq_true_eq] at hnew
      exact .added hnew.1 hnew.2.1 hnew.2.2
  · intro hsource
    cases hsource with
    | paired hpair =>
        exact Or.inl <| Or.inl <| Or.inl <| Or.inl <| Or.inl <| List.mem_map.mpr ⟨_, hpair, rfl⟩
    | extracted hpair hnew horigin =>
        refine Or.inl <| Or.inl <| Or.inl <| Or.inl <| Or.inr <| List.mem_flatMap.mpr ⟨_, hpair, ?_⟩
        exact List.mem_map.mpr ⟨_, List.mem_filter.mpr ⟨hnew, by simpa using horigin⟩, rfl⟩
    | moved hpair hnew hnone horigin =>
        refine Or.inl <| Or.inl <| Or.inl <| Or.inr <| List.mem_flatMap.mpr ⟨_, hpair, ?_⟩
        exact List.mem_map.mpr ⟨_, List.mem_filter.mpr ⟨hnew, by simp [hnone, horigin]⟩, rfl⟩
    | inlined hpair hold hhost =>
        refine Or.inl <| Or.inl <| Or.inr <| List.mem_filterMap.mpr ⟨_, hold, ?_⟩
        simp [hhost]
    | removed hold hhost =>
        refine Or.inl <| Or.inr <| List.mem_map.mpr ⟨_, List.mem_filter.mpr ⟨hold, ?_⟩, rfl⟩
        simp [hhost]
    | added hnew hnone hnone' =>
        refine Or.inr <| List.mem_map.mpr ⟨_, List.mem_filter.mpr ⟨hnew, ?_⟩, rfl⟩
        simp [hnone, hnone']

theorem classify_ne {kind : RelationKind} (hkind : kind ∉ RelationKind.ofPairs)
    (before after : NodeId) : trees.classify evidence matching before after ≠ kind :=
  fun heq => hkind (heq ▸ classify_mem before after)

theorem isNonMatching_classify (before after : NodeId) :
    (trees.classify evidence matching before after).isNonMatching = false := by
  have h : ∀ kind ∈ RelationKind.ofPairs, kind.isNonMatching = false := by decide
  exact h _ (classify_mem before after)

theorem Arises.of_isMatch {relationship : Relationship}
    (h : Arises trees evidence matching relationship) (hmatch : relationship.IsMatch) :
    ∃ before after, (before, after) ∈ matching.pairs ∧ relationship =
      .pair before after (trees.classify evidence matching before after) := by
  obtain ⟨hbefore, hafter, hkind⟩ := hmatch
  cases h with
  | paired hpair => exact ⟨_, _, hpair, rfl⟩
  | extracted => cases hkind
  | moved => cases hkind
  | inlined => cases hkind
  | removed => cases hafter
  | added => cases hbefore

theorem Arises.exists_origin {relationship : Relationship}
    (h : Arises trees evidence matching relationship)
    (hkind : relationship.kind = .extract ∨ relationship.kind = .extractAndMove) :
    ∃ moved pair new, pair ∈ matching.pairs ∧ new ∈ trees.newNodes matching ∧
      trees.origin? evidence matching moved new = some pair ∧
      relationship = .pair pair.1 new (if moved then .extractAndMove else .extract) := by
  cases h with
  | paired => rcases hkind with hkind | hkind <;> exact absurd hkind (classify_ne (by decide) _ _)
  | extracted hpair hnew horigin => exact ⟨false, _, _, hpair, hnew, horigin, rfl⟩
  | moved hpair hnew _ horigin => exact ⟨true, _, _, hpair, hnew, horigin, rfl⟩
  | inlined | removed | added => rcases hkind with hkind | hkind <;> cases hkind

theorem Arises.exists_host {relationship : Relationship}
    (h : Arises trees evidence matching relationship) (hkind : relationship.kind = .inline) :
    ∃ pair old, pair ∈ matching.pairs ∧ old ∈ trees.oldNodes matching ∧
      trees.host? evidence matching old = some pair ∧ relationship = .pair old pair.2 .inline := by
  cases h with
  | paired => exact absurd hkind (classify_ne (by decide) _ _)
  | inlined hpair hold hhost => exact ⟨_, _, hpair, hold, hhost, rfl⟩
  | extracted | moved | removed | added => cases hkind

theorem matched_changes_iff
    (h : Splits trees.before.levelOrder trees.after.levelOrder (trees.matching evidence))
    {before after : NodeId} :
    Relationship.Matched (trees.changes evidence) before after ↔
      (before, after) ∈ (trees.matching evidence).pairs := by
  constructor
  · rintro ⟨relationship, hmem, hmatch, hbefore, hafter⟩
    obtain ⟨b, a, hpair, rfl⟩ := ((mem_changes_iff h).mp hmem).of_isMatch hmatch
    cases hbefore
    cases hafter
    exact hpair
  · intro hpair
    exact ⟨_, (mem_changes_iff h).mpr (.paired hpair),
      ⟨rfl, rfl, isNonMatching_classify before after⟩, rfl, rfl⟩

section Matched

variable (h : Splits trees.before.levelOrder trees.after.levelOrder (trees.matching evidence))

include h

theorem mem_map_fst_iff_matched {before : NodeId} :
    before ∈ (trees.matching evidence).pairs.map Prod.fst ↔
      ∃ after, Relationship.Matched (trees.changes evidence) before after := by
  simp [matched_changes_iff h]

theorem mem_map_snd_iff_matched {after : NodeId} :
    after ∈ (trees.matching evidence).pairs.map Prod.snd ↔
      ∃ before, Relationship.Matched (trees.changes evidence) before after := by
  simp [matched_changes_iff h]

end Matched

end TreePair

/-- A file with a function `load` that calls a second function. -/
def loaderTree (helper : String) : CodeTree :=
  let location : Location :=
    { file := ⟨"a.js"⟩, lineStart := 1, lineStop := 1, start := 0, stop := 3 }
  let file := (CodeTree.addRoot {} { kind := .file, name := "a.js", scope := some "", location })
    |>.setTokens ⟨"a.js"⟩ { tokens := #[⟨0, 1⟩, ⟨1, 3⟩] }
  let load := (file.addChild 0 { kind := .function, name := "load", location }).getD file
  let both := (load.addChild 0 { kind := .function, name := helper, location }).getD load
  both.addCall 1 2

/-- The snapshot of that file. -/
def loader (helper : String) : Snapshot where
  tree := loaderTree helper
  files := ⟨[(⟨"a.js"⟩, ⟨#[102, 40, 41]⟩)]⟩

theorem grown_loader (helper : String) : (loader helper).tree.Grown := by
  change (loaderTree helper).Grown
  refine .addCall 1 2
    (.addChild_getD (.addChild_getD (.setTokens _ _ (.addRoot _ .empty)) ?_ _) ?_ _)
  · exact Nat.zero_lt_one
  · exact Nat.zero_lt_two

theorem exists_scorer_loader :
    ∃ scorer : Scorer Float, Scorer.ofSnapshots (loader "parse") (loader "read") = .ok scorer :=
  ⟨_, rfl⟩

end Lineage
