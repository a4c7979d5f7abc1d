import Lineage.Proofs.ScoreLaws

namespace Lineage

/-- There are `depth` nodes above a node, the last of them a root. -/
def CodeTree.AtDepth (tree : CodeTree) (id : NodeId) (depth : Nat) : Prop :=
  ∃ ids, tree.Climbs id ids ∧ ids.length = depth

theorem CodeTree.AtDepth.depth_eq {tree : CodeTree} (hbuilt : tree.Built) {id : NodeId}
    {depth : Nat} (h : tree.AtDepth id depth) : tree.depth id = depth := by
  obtain ⟨ids, hclimbs, rfl⟩ := h
  rw [CodeTree.depth, ← hclimbs.eq_ancestors hbuilt]

theorem CodeTree.Built.exists_atDepth {tree : CodeTree} (hbuilt : tree.Built) {id : NodeId}
    (hid : ¬tree.Stuck id) : ∃ depth, tree.AtDepth id depth := by
  obtain ⟨ids, hclimbs⟩ := hbuilt.exists_climbs hid
  exact ⟨ids.length, ids, hclimbs, rfl⟩

theorem Profile.count_nameSegments (name : String) (depth : Nat) (segment : String) :
    (nameSegments name depth).count segment = (depth + 1) * (Name.segments name).count segment := by
  rw [nameSegments, List.count_flatten, List.map_replicate, List.sum_replicate_nat]

theorem Name.exists_count_pos (name : String) : ∃ segment, 0 < (segments name).count segment := by
  have hne : segments name ≠ [] := by
    simp [segments, cutBefore_ne_nil]
  obtain ⟨segment, hsegment⟩ := List.exists_mem_of_ne_nil _ hne
  exact ⟨segment, List.count_pos_iff.mpr hsegment⟩

theorem Weights.weigh_mul (weights : Weights ℝ) (tokens : Finset String) (factor : ℕ)
    (count : String → ℕ) :
    weights.weigh tokens (fun token => factor * count token) =
      factor * weights.weigh tokens count := by
  rw [weigh, weigh, Finset.mul_sum]
  refine Finset.sum_congr rfl ?_
  intro token _
  push_cast
  ring

theorem SnapshotProfile.count_name {snapshot : Snapshot} {profile : SnapshotProfile}
    (h : ofSnapshot snapshot = .ok profile) (hbuilt : snapshot.tree.Built) {id : NodeId}
    {node : Node} {depth : Nat} (hnode : snapshot.tree.node? id = some node)
    (hdepth : snapshot.tree.AtDepth id depth) (segment : String) :
    (profile.find id).name.count segment =
      (depth + 1) * (Name.segments node.name).count segment := by
  have ⟨ids, hclimbs, _⟩ := hdepth
  have hid := hclimbs.mem_levelOrder hbuilt (CodeTree.lt_size_of_node? hnode)
  obtain ⟨_, -, heq⟩ := map_eq_ok_iff.mp (ofNode_eq_find h hid hnode)
  rw [← heq, Bag.count_ofList, Profile.count_nameSegments, hdepth.depth_eq hbuilt]

theorem SnapshotProfile.name_eq_empty {snapshot : Snapshot} {profile : SnapshotProfile}
    (h : ofSnapshot snapshot = .ok profile) (hbuilt : snapshot.tree.Built) {id : NodeId}
    (hnone : ¬∃ depth, snapshot.tree.AtDepth id depth) : (profile.find id).name = {} := by
  have hstuck : snapshot.tree.Stuck id := by
    by_contra hfree
    exact hnone (hbuilt.exists_atDepth hfree)
  rw [find_eq_empty h fun hid => hbuilt.not_stuck_of_mem_levelOrder hid hstuck]

namespace Scorer

/-- The bag of a name has the segments of the name, each once for every level of the node. Only a
node from which there is no way up to a root has an empty bag instead. -/
structure CountsNames {α : Type} (scorer : Scorer α) (before after : Snapshot) : Prop where
  count : ∀ (side : Side) id node depth, (side.pick before after).tree.node? id = some node →
    (side.pick before after).tree.AtDepth id depth → ∀ segment,
      (scorer.profile side id).name.count segment =
        (depth + 1) * (Name.segments node.name).count segment
  empty : ∀ (side : Side) id, (¬∃ depth, (side.pick before after).tree.AtDepth id depth) →
    (scorer.profile side id).name = {}

/-- Two nodes of one name score the ratio of their levels, in either order. -/
def ScoresDepths (scorer : Scorer ℝ) (before after : Snapshot) : Prop :=
  ∀ (side other : Side) x y left right p q, (side.pick before after).tree.node? x = some left →
    (other.pick before after).tree.node? y = some right → left.name = right.name →
    (side.pick before after).tree.AtDepth x p → (other.pick before after).tree.AtDepth y q →
    p ≤ q →
      (scorer.nameSimilarity (scorer.profile side x) (scorer.profile other y)).value? =
          some ((p + 1 : ℝ) / (q + 1)) ∧
        (scorer.nameSimilarity (scorer.profile other y) (scorer.profile side x)).value? =
          some ((p + 1 : ℝ) / (q + 1))

variable {before after : Snapshot} (hbefore : before.tree.Built) (hafter : after.tree.Built)

include hbefore hafter

theorem countsNames {α : Type} [Weighing α] {scorer : Scorer α}
    (h : ofSnapshots before after = .ok scorer) : scorer.CountsNames before after := by
  obtain ⟨hbeforeProfile, hafterProfile, -⟩ := ofSnapshots_eq_ok_iff.mp h
  constructor
  · intro side id node depth hnode hdepth
    cases side with
    | before => exact SnapshotProfile.count_name hbeforeProfile hbefore hnode hdepth
    | after => exact SnapshotProfile.count_name hafterProfile hafter hnode hdepth
  · intro side id hnone
    cases side with
    | before => exact SnapshotProfile.name_eq_empty hbeforeProfile hbefore hnone
    | after => exact SnapshotProfile.name_eq_empty hafterProfile hafter hnone

theorem scoresDepths {scorer : Scorer ℝ} (h : ofSnapshots before after = .ok scorer) :
    scorer.ScoresDepths before after := by
  intro side other x y left right p q hleft hright hname hp hq hle
  have hcounts := countsNames hbefore hafter h
  have hx := hcounts.count side x left p hleft hp
  have hy := hcounts.count other y right q hright hq
  rw [← hname] at hy
  have hformula := scoreFormula h .name side x other y
  simp only [ScoreFormula, Profile.bag, hx, hy] at hformula
  have hmin : ∀ count : ℕ, min ((p + 1) * count) ((q + 1) * count) = (p + 1) * count :=
    fun count => Nat.min_eq_left (Nat.mul_le_mul_right _ (Nat.succ_le_succ hle))
  have hmax : ∀ count : ℕ, max ((p + 1) * count) ((q + 1) * count) = (q + 1) * count :=
    fun count => Nat.max_eq_right (Nat.mul_le_mul_right _ (Nat.succ_le_succ hle))
  simp only [hmin, hmax, Weights.weigh_mul] at hformula
  have hweight : (scorer.weights .name).weigh (scorer.weights .name).vocabulary
      (Name.segments left.name).count ≠ 0 := by
    rw [ne_eq, Weights.weigh_eq_zero_iff (weight_nonneg h .name)]
    · obtain ⟨segment, hsegment⟩ := Name.exists_count_pos left.name
      exact fun hzero => hsegment.ne' (hzero segment)
    · intro segment hsegment
      have hcount : 0 < ((scorer.profile side x).bag .name).count segment := by
        rw [Profile.bag, hx]
        exact Nat.mul_pos (Nat.succ_pos p) hsegment
      exact weight_pos h hcount
  have hwhole : ((q + 1 : ℕ) : ℝ) ≠ 0 := Nat.cast_ne_zero.mpr (Nat.succ_ne_zero q)
  have hvalue := hformula.value?_eq_some (mul_ne_zero hwhole hweight)
  rw [mul_div_mul_right _ _ hweight, Nat.cast_succ, Nat.cast_succ] at hvalue
  refine ⟨hvalue, ?_⟩
  rw [score_comm h .name side x other y] at hvalue
  exact hvalue

end Scorer

/-- The bags of names grow with the depth of the nodes, and the name score of two namesakes is the
ratio of their depths, each counted from one. -/
theorem name_scores_follow_depth (before after : Snapshot) (hbefore : before.tree.Built)
    (hafter : after.tree.Built) :
    (∀ (α : Type) [Weighing α] (scorer : Scorer α), Scorer.ofSnapshots before after = .ok scorer →
      scorer.CountsNames before after) ∧
    ∀ scorer : Scorer ℝ, Scorer.ofSnapshots before after = .ok scorer →
      scorer.ScoresDepths before after :=
  ⟨fun _ _ _ hscorer => Scorer.countsNames hbefore hafter hscorer,
    fun _ hscorer => Scorer.scoresDepths hbefore hafter hscorer⟩

/-- A file, a class in it and a function in that, all of one name, without any text. -/
def nestedNamesakes : Snapshot :=
  let location : Location :=
    { file := ⟨"a.js"⟩, lineStart := 1, lineStop := 1, start := 0, stop := 0 }
  let file := (CodeTree.addRoot {} { kind := .file, name := "fooBar", location }).setTokens
    ⟨"a.js"⟩ {}
  let outer := (file.addChild 0 { kind := .classDecl, name := "fooBar", location }).getD file
  { tree := (outer.addChild 1 { kind := .function, name := "fooBar", location }).getD outer
    files := ⟨[(⟨"a.js"⟩, ⟨#[]⟩)]⟩ }

theorem nested_namesakes_score_by_depth :
    nestedNamesakes.tree.Built ∧
      ∃ scorer : Scorer ℝ, Scorer.ofSnapshots nestedNamesakes nestedNamesakes = .ok scorer ∧
        (scorer.profile .after 2).name.count "Bar" = 3 ∧
        (scorer.nameSimilarity (scorer.profile .before 0) (scorer.profile .after 2)).value? =
          some (1 / 3) ∧
        (scorer.nameSimilarity (scorer.profile .after 2) (scorer.profile .after 1)).value? =
          some (2 / 3) := by
  have hbuilt : nestedNamesakes.tree.Built :=
    .addChild_getD (.addChild_getD (.setTokens _ _ (.addRoot _ .empty)) 0 _) 1 _
  have hroot : nestedNamesakes.tree.Climbs 0 [] := .root rfl
  have hclass : nestedNamesakes.tree.Climbs 1 [0] := .step rfl hroot
  have hfunction : nestedNamesakes.tree.Climbs 2 [1, 0] := .step rfl hclass
  obtain ⟨hcounts, hscores⟩ :=
    name_scores_follow_depth nestedNamesakes nestedNamesakes hbuilt hbuilt
  obtain ⟨scorer, hscorer⟩ : ∃ scorer : Scorer ℝ,
      Scorer.ofSnapshots nestedNamesakes nestedNamesakes = .ok scorer := ⟨_, rfl⟩
  have hsegments : (Name.segments "fooBar").count "Bar" = 1 := by decide +kernel
  refine ⟨hbuilt, scorer, hscorer, ?_, ?_, ?_⟩
  · rw [(hcounts ℝ scorer hscorer).count .after 2 _ 2 rfl ⟨_, hfunction, rfl⟩ "Bar"]
    exact congrArg (3 * ·) hsegments
  · rw [(hscores scorer hscorer .before .after 0 2 _ _ 0 2 rfl rfl rfl ⟨_, hroot, rfl⟩
      ⟨_, hfunction, rfl⟩ (by decide)).1]
    norm_num
  · rw [(hscores scorer hscorer .after .after 1 2 _ _ 1 2 rfl rfl rfl ⟨_, hclass, rfl⟩
      ⟨_, hfunction, rfl⟩ (by decide)).2]
    norm_num

end Lineage
