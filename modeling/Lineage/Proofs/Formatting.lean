import Lineage.Proofs.Finding
import Lineage.Proofs.Outcomes
import Lineage.Proofs.Resemblance

namespace Lineage

namespace Profile

def spanTexts (source : TokenIndex × ByteArray) (location : Location) : List String :=
  (spanTokens source.1 location).map (tokenText source.2)

def bodyTexts (source : TokenIndex × ByteArray) (location : Location) : List String :=
  (bodySpanTokens source.1 location).map (tokenText source.2)

end Profile

/-- The same declaration in two snapshots, up to formatting. Its location may differ in everything,
the file included, but not in whether there is a body. -/
structure SameCode (left right : Snapshot) (x y : Node) : Prop extends Node.Resembles x y where
  mem_calls_iff : ∀ callee, callee ∈ x.calls ↔ callee ∈ y.calls
  hasBody_eq : x.location.hasBody = y.location.hasBody
  texts_eq : ∀ source source', Profile.source left x.location.file = .ok source →
    Profile.source right y.location.file = .ok source' →
      Profile.spanTexts source x.location = Profile.spanTexts source' y.location ∧
        Profile.bodyTexts source x.location = Profile.bodyTexts source' y.location

/-- Two snapshots with the same declarations up to formatting, node by node. -/
def Reformatted (left right : Snapshot) : Prop :=
  ∀ id, Option.Rel (SameCode left right) (left.tree.node? id) (right.tree.node? id)

structure SameScores {α : Type} [Weighing α] (left right : Scorer α) : Prop where
  similarity : ∀ side other x y,
    left.similarity (left.profile side x) (left.profile other y) =
      right.similarity (right.profile side x) (right.profile other y)
  bodySimilarity : ∀ side other x y,
    left.bodySimilarity (left.profile side x) (left.profile other y) =
      right.bodySimilarity (right.profile side x) (right.profile other y)
  nameSimilarity : ∀ side other x y,
    left.nameSimilarity (left.profile side x) (left.profile other y) =
      right.nameSimilarity (right.profile side x) (right.profile other y)
  extraction : ∀ before after new,
    left.extraction (left.profile .before before) (left.profile .after after)
        (left.profile .after new) =
      right.extraction (right.profile .before before) (right.profile .after after)
        (right.profile .after new)
  inlining : ∀ before after old,
    left.inlining (left.profile .before before) (left.profile .after after)
        (left.profile .before old) =
      right.inlining (right.profile .before before) (right.profile .after after)
        (right.profile .before old)

/-- Two comparisons with equal scores and equal results, provided that both can be scored. -/
structure SameComparison (before after before' after' : Snapshot) : Prop where
  scores : ∀ (α : Type) [Weighing α] (scorer scorer' : Scorer α),
    Scorer.ofSnapshots before after = .ok scorer →
      Scorer.ofSnapshots before' after' = .ok scorer' → SameScores scorer scorer'
  found : ∀ (config : Config) (scorer scorer' : Scorer Float), config.isValid = true →
    Scorer.ofSnapshots before after = .ok scorer →
      Scorer.ofSnapshots before' after' = .ok scorer' →
        ∃ found, findRelationships config before after = .ok found ∧
          findRelationships config before' after' = .ok found

theorem SameCode.profile_eq {left right : Snapshot} {x y : Node} (h : SameCode left right x y)
    {id : NodeId} (hdepth : left.tree.depth id = right.tree.depth id) {profile profile' : Profile}
    (hleft : Profile.ofNode left id x = .ok profile)
    (hright : Profile.ofNode right id y = .ok profile') : profile = profile' := by
  obtain ⟨source, hsource, rfl⟩ := map_eq_ok_iff.mp hleft
  obtain ⟨source', hsource', rfl⟩ := map_eq_ok_iff.mp hright
  obtain ⟨hspan, hbody⟩ := h.texts_eq source source' hsource hsource'
  rw [Profile.spanTexts, Profile.spanTexts] at hspan
  rw [Profile.bodyTexts, Profile.bodyTexts] at hbody
  simp only [hspan, hbody, h.hasBody_eq, h.name_eq, h.params_eq, hdepth]

namespace Reformatted

variable {left right : Snapshot}

theorem node_cases (h : Reformatted left right) (id : NodeId) :
    (left.tree.node? id = none ∧ right.tree.node? id = none) ∨
      ∃ x y, left.tree.node? id = some x ∧ right.tree.node? id = some y ∧
        SameCode left right x y :=
  CodeTree.rel_node?_cases (h id)

theorem calls_eq (h : Reformatted left right) (caller callee : NodeId) :
    TreePair.calls left.tree caller callee = TreePair.calls right.tree caller callee := by
  rcases h.node_cases caller with ⟨hleft, hright⟩ | ⟨x, y, hleft, hright, hsame⟩
  · rw [TreePair.calls, TreePair.calls, hleft, hright]
  · simp [TreePair.calls, hleft, hright, hsame.mem_calls_iff]

theorem resembles (h : Reformatted left right) (hleft : left.tree.Built)
    (hright : right.tree.Built) : left.tree.Resembles right.tree := by
  apply hleft.coherent.resembles hright.coherent
  intro id
  rcases h.node_cases id with ⟨hx, hy⟩ | ⟨x, y, hx, hy, hsame⟩
  · rw [hx, hy]
    exact .none
  · rw [hx, hy]
    exact .some hsame.toResembles

theorem snapshotProfile_eq (h : Reformatted left right)
    (hresembles : left.tree.Resembles right.tree) {profile profile' : SnapshotProfile}
    (hleft : SnapshotProfile.ofSnapshot left = .ok profile)
    (hright : SnapshotProfile.ofSnapshot right = .ok profile') : profile = profile' := by
  obtain ⟨profiles, hprofiles, rfl⟩ := map_eq_ok_iff.mp hleft
  obtain ⟨profiles', hprofiles', rfl⟩ := map_eq_ok_iff.mp hright
  rw [← hresembles.levelOrder_eq] at hprofiles'
  refine congrArg SnapshotProfile.mk (mapM_result_unique ?_ hprofiles hprofiles')
  refine (CodeTree.entries_related h left.tree.levelOrder).imp ?_
  rintro ⟨id, x⟩ ⟨_, y⟩ ⟨rfl, hsame⟩ result result' hresult hresult'
  obtain ⟨p, hp, rfl⟩ := map_eq_ok_iff.mp hresult
  obtain ⟨p', hp', rfl⟩ := map_eq_ok_iff.mp hresult'
  have hdepth : left.tree.depth id = right.tree.depth id := by
    rw [CodeTree.depth, CodeTree.depth, CodeTree.ancestors_congr hresembles.parent?_eq]
  rw [hsame.profile_eq hdepth hp hp']

theorem refl (snapshot : Snapshot) : Reformatted snapshot snapshot := by
  intro id
  cases snapshot.tree.node? id with
  | none => exact .none
  | some node =>
      refine .some ⟨.refl node, fun _ => Iff.rfl, rfl, ?_⟩
      intro source source' hsource hsource'
      cases hsource.symm.trans hsource'
      exact ⟨rfl, rfl⟩

end Reformatted

theorem SameScores.refl {α : Type} [Weighing α] (scorer : Scorer α) : SameScores scorer scorer where
  similarity _ _ _ _ := rfl
  bodySimilarity _ _ _ _ := rfl
  nameSimilarity _ _ _ _ := rfl
  extraction _ _ _ := rfl
  inlining _ _ _ := rfl

section Comparison

variable {before after before' after' : Snapshot} (hbefore : Reformatted before before')
  (hafter : Reformatted after after') (hbeforeTree : before.tree.Resembles before'.tree)
  (hafterTree : after.tree.Resembles after'.tree)

include hbefore hafter hbeforeTree hafterTree

theorem scorer_eq_of_reformatted {α : Type} [Weighing α] {scorer scorer' : Scorer α}
    (hscorer : Scorer.ofSnapshots before after = .ok scorer)
    (hscorer' : Scorer.ofSnapshots before' after' = .ok scorer') : scorer = scorer' := by
  obtain ⟨p, hp, hrest⟩ := bind_eq_ok_iff.mp hscorer
  obtain ⟨q, hq, heq⟩ := bind_eq_ok_iff.mp hrest
  obtain ⟨p', hp', hrest'⟩ := bind_eq_ok_iff.mp hscorer'
  obtain ⟨q', hq', heq'⟩ := bind_eq_ok_iff.mp hrest'
  obtain rfl := hbefore.snapshotProfile_eq hbeforeTree hp hp'
  obtain rfl := hafter.snapshotProfile_eq hafterTree hq hq'
  rw [CodeTree.size_eq_of_rel hbefore, CodeTree.size_eq_of_rel hafter] at heq
  exact Except.ok.inj (heq.symm.trans heq')

theorem sameComparison_of_reformatted : SameComparison before after before' after' where
  scores _ _ scorer scorer' hscorer hscorer' := by
    cases scorer_eq_of_reformatted hbefore hafter hbeforeTree hafterTree hscorer hscorer'
    exact .refl scorer
  found config scorer scorer' hvalid hscorer hscorer' := by
    cases scorer_eq_of_reformatted hbefore hafter hbeforeTree hafterTree hscorer hscorer'
    have htrees : TreePair.Resembles ⟨before.tree, after.tree⟩ ⟨before'.tree, after'.tree⟩ :=
      ⟨hbeforeTree, hafterTree⟩
    refine ⟨_, findRelationships_eq_ok hvalid hscorer, ?_⟩
    rw [findRelationships_eq_ok hvalid hscorer', htrees.changes_eq hbefore.calls_eq hafter.calls_eq]

end Comparison

/-- Formatting cannot change the outcome of a comparison, neither on the older side nor on the newer
one. -/
theorem formatting_changes_nothing (left right other : Snapshot) (hleft : left.tree.Built)
    (hright : right.tree.Built) (h : Reformatted left right) :
    SameComparison other left other right ∧ SameComparison left other right other := by
  have htree := h.resembles hleft hright
  have hother := Reformatted.refl other
  have hotherTree := CodeTree.Resembles.refl other.tree
  exact ⟨sameComparison_of_reformatted hother h hotherTree htree,
    sameComparison_of_reformatted h hother htree hotherTree⟩

/-- A file with one function, which ends at `stop` and has its body from `bodyStart` on. -/
def functionFile (contents : List UInt8) (tokens : List Token) (lineStop bodyStart stop : Nat) :
    Snapshot :=
  let file : Location :=
    { file := ⟨"a.js"⟩, lineStart := 1, lineStop, start := 0, stop := contents.length }
  let location : Location :=
    { file := ⟨"a.js"⟩, lineStart := 1, lineStop, start := 0, stop, bodyStart, bodyStop := stop }
  let root := (CodeTree.addRoot {} { kind := .file, name := "a.js", location := file }).setTokens
    ⟨"a.js"⟩ ⟨⟨tokens⟩⟩
  { tree := (root.addChild 0 { kind := .function, name := "f", location }).getD root
    files := ⟨[(⟨"a.js"⟩, ⟨⟨contents⟩⟩)]⟩ }

/-- The text `f{x}`. -/
def dense : Snapshot :=
  functionFile [102, 123, 120, 125] [⟨0, 1⟩, ⟨1, 2⟩, ⟨2, 3⟩, ⟨3, 4⟩] 1 1 4

/-- The same with blanks, a line break and the comment `/*}*/`. -/
def spacious : Snapshot :=
  functionFile [102, 32, 47, 42, 125, 42, 47, 32, 123, 10, 32, 120, 32, 125, 10]
    [⟨0, 1⟩, ⟨8, 9⟩, ⟨11, 12⟩, ⟨13, 14⟩] 2 8 14

theorem built_functionFile (contents : List UInt8) (tokens : List Token)
    (lineStop bodyStart stop : Nat) :
    (functionFile contents tokens lineStop bodyStart stop).tree.Built := by
  apply CodeTree.Grown.built
  dsimp only [functionFile]
  refine .addChild_getD (.setTokens _ _ (.addRoot _ .empty)) ?_ _
  exact Nat.one_pos

theorem reformatted_dense_spacious : Reformatted dense spacious := by
  intro id
  match id with
  | 0 =>
      refine .some ⟨⟨rfl, rfl, rfl, rfl, rfl, rfl⟩, fun _ => Iff.rfl, rfl, ?_⟩
      rintro source source' ⟨⟩ ⟨⟩
      decide +kernel
  | 1 =>
      refine .some ⟨⟨rfl, rfl, rfl, rfl, rfl, rfl⟩, fun _ => Iff.rfl, rfl, ?_⟩
      rintro source source' ⟨⟩ ⟨⟩
      decide +kernel
  | _ + 2 => exact .none

theorem spacious_is_like_dense :
    dense.tree.Built ∧ spacious.tree.Built ∧ Reformatted dense spacious ∧
      (∃ found, findRelationships {} dense dense = .ok found ∧
        findRelationships {} dense spacious = .ok found) ∧
      ∃ found, findRelationships {} dense dense = .ok found ∧
        findRelationships {} spacious dense = .ok found := by
  have hdense : dense.tree.Built := built_functionFile _ _ _ _ _
  have hspacious : spacious.tree.Built := built_functionFile _ _ _ _ _
  have hsame := reformatted_dense_spacious
  obtain ⟨hnewer, holder⟩ :=
    formatting_changes_nothing dense spacious dense hdense hspacious hsame
  refine ⟨hdense, hspacious, hsame, ?_, ?_⟩
  · exact hnewer.found {} _ _ (by decide) rfl rfl
  · exact holder.found {} _ _ (by decide) rfl rfl

end Lineage
