import Mathlib.Algebra.Order.BigOperators.Group.Finset
import Lineage.Proofs.Frequencies

/-!
Scores as formulas. In exact arithmetic each score is the quotient of two sums over the whole
vocabulary of the weights. The loops visit the keys of one bag and then those that only the other
one has; the tokens that they leave out count nothing.
-/

namespace Lineage

open scoped BigOperators

namespace Ratio

/-- The number that a score stands for, unless it divides by zero. -/
noncomputable def value? (ratio : Ratio ℝ) : Option ℝ :=
  if ratio.whole = 0 then none else some (ratio.part / ratio.whole)

theorem value?_eq_none_iff {ratio : Ratio ℝ} : ratio.value? = none ↔ ratio.whole = 0 := by
  by_cases hwhole : ratio.whole = 0 <;> simp [value?, hwhole]

theorem value?_eq_some_iff {ratio : Ratio ℝ} {value : ℝ} :
    ratio.value? = some value ↔ ratio.whole ≠ 0 ∧ ratio.part / ratio.whole = value := by
  by_cases hwhole : ratio.whole = 0 <;> simp [value?, hwhole]

theorem exceeds_iff {ratio : Ratio ℝ} {threshold : ℝ} :
    ratio.exceeds threshold = true ↔ ∃ value, ratio.value? = some value ∧ threshold < value := by
  simp [exceeds, Weighing.exceeds, value?_eq_some_iff, and_assoc]

/-- A score is the quotient of two sums, a part of a whole. It is undefined only as `0 / 0`. -/
structure IsQuotient (ratio : Ratio ℝ) (part whole : ℝ) : Prop where
  part_eq : ratio.part = part
  whole_eq : ratio.whole = whole
  nonneg : 0 ≤ part
  le : part ≤ whole
  value?_eq_none_iff : ratio.value? = none ↔ part = 0 ∧ whole = 0
  value?_eq_some : whole ≠ 0 → ratio.value? = some (part / whole)

theorem isQuotient_of_le {ratio : Ratio ℝ} {part whole : ℝ} (hpart : ratio.part = part)
    (hwhole : ratio.whole = whole) (hnonneg : 0 ≤ part) (hle : part ≤ whole) :
    ratio.IsQuotient part whole := by
  subst hpart hwhole
  refine ⟨rfl, rfl, hnonneg, hle, ?_, fun hne => if_neg hne⟩
  rw [value?_eq_none_iff]
  exact ⟨fun hzero => ⟨le_antisymm (hzero ▸ hle) hnonneg, hzero⟩, And.right⟩

end Ratio

namespace Weights

/-- The tokens that have a weight. -/
def vocabulary {α : Type} (weights : Weights α) : Finset String :=
  (weights.map Prod.fst).toFinset

/-- The weight of some tokens together, each taken as often as `count` says. -/
noncomputable def weigh (weights : Weights ℝ) (tokens : Finset String) (count : String → ℕ) : ℝ :=
  ∑ token ∈ tokens, weights.of token * count token

variable {weights : Weights ℝ} {count count' : String → ℕ}

theorem of_eq_zero_of_notMem {token : String} (h : token ∉ weights.vocabulary) :
    weights.of token = 0 := by
  rw [vocabulary, List.mem_toFinset] at h
  rw [of, lookup_eq_none_of_notMem h]
  rfl

theorem weigh_nonneg (hweights : ∀ token, 0 ≤ weights.of token) (tokens : Finset String)
    (count : String → ℕ) : 0 ≤ weights.weigh tokens count :=
  Finset.sum_nonneg fun token _ => mul_nonneg (hweights token) (Nat.cast_nonneg _)

theorem weigh_mono (hweights : ∀ token, 0 ≤ weights.of token) (tokens : Finset String)
    (hcount : ∀ token, count token ≤ count' token) :
    weights.weigh tokens count ≤ weights.weigh tokens count' :=
  Finset.sum_le_sum fun token _ =>
    mul_le_mul_of_nonneg_left (Nat.cast_le.mpr (hcount token)) (hweights token)

theorem sum_eq_weigh {tokens : List String} (hnodup : tokens.Nodup)
    (hcount : ∀ token, token ∉ tokens → count token = 0) :
    weights.sum tokens count = weights.weigh weights.vocabulary count := by
  rw [sum_eq, ← List.sum_toFinset _ hnodup, weigh]
  refine Finset.sum_congr_of_eq_on_inter ?_ ?_ ?_
  · intro token _ hunknown
    rw [of_eq_zero_of_notMem hunknown, mul_zero]
  · intro token _ hother
    rw [hcount token (by simpa using hother), Nat.cast_zero, mul_zero]
  · intro token _ _
    exact mul_comm _ _

theorem weigh_filter (tokens : Finset String) (keep : String → Prop) [DecidablePred keep]
    (count : String → ℕ) :
    weights.weigh (tokens.filter keep) count =
      weights.weigh tokens fun token => if keep token then count token else 0 := by
  rw [weigh, Finset.sum_filter]
  refine Finset.sum_congr rfl ?_
  intro token _
  by_cases hkeep : keep token <;> simp [hkeep]

section Bags

variable {left right : Bag String}

theorem mem_jointKeys_iff (hleft : left.Proper) (hright : right.Proper) {token : String} :
    token ∈ jointKeys left right ↔ 0 < left.count token ∨ 0 < right.count token := by
  simp only [jointKeys, List.mem_append, List.mem_filter, beq_iff_eq, hleft.mem_keys_iff,
    hright.mem_keys_iff]
  omega

theorem nodup_jointKeys (hleft : left.Proper) (hright : right.Proper) :
    (jointKeys left right).Nodup := by
  refine hleft.nodup_keys.append (hright.nodup_keys.filter _) ?_
  intro token hmem hother
  rw [hleft.mem_keys_iff] at hmem
  rw [List.mem_filter, beq_iff_eq] at hother
  omega

theorem isQuotient_overlap (hweights : ∀ token, 0 ≤ weights.of token) (hleft : left.Proper)
    (hright : right.Proper) :
    (weights.overlap left right).IsQuotient
      (weights.weigh weights.vocabulary fun token => min (left.count token) (right.count token))
      (weights.weigh weights.vocabulary fun token =>
        max (left.count token) (right.count token)) := by
  have hnodup := nodup_jointKeys hleft hright
  have hcounts : ∀ token, token ∉ jointKeys left right →
      left.count token = 0 ∧ right.count token = 0 := by
    intro token htoken
    rw [mem_jointKeys_iff hleft hright] at htoken
    omega
  refine Ratio.isQuotient_of_le (sum_eq_weigh hnodup ?_) (sum_eq_weigh hnodup ?_)
    (weigh_nonneg hweights _ _) (weigh_mono hweights _ fun token => min_le_max)
  · intro token htoken
    simp [hcounts token htoken]
  · intro token htoken
    simp [hcounts token htoken]

theorem isQuotient_containment {inner : Bag String} (outer : Bag String)
    (hweights : ∀ token, 0 ≤ weights.of token) (hinner : inner.Proper) :
    (weights.containment inner outer).IsQuotient
      (weights.weigh weights.vocabulary fun token => min (inner.count token) (outer.count token))
      (weights.weigh weights.vocabulary inner.count) := by
  have hcounts : ∀ token, token ∉ inner.keys → inner.count token = 0 :=
    fun _ => Bag.count_eq_zero_of_notMem
  refine Ratio.isQuotient_of_le (sum_eq_weigh hinner.nodup_keys ?_)
    (sum_eq_weigh hinner.nodup_keys hcounts) (weigh_nonneg hweights _ _)
    (weigh_mono hweights _ fun token => min_le_left _ _)
  intro token htoken
  rw [hcounts token htoken, Nat.zero_min]

end Bags

end Weights

namespace Scorer

/-- How alike two declarations are in an aspect. -/
def score {α : Type} [Weighing α] (scorer : Scorer α) : Aspect → Profile → Profile → Ratio α
  | .tokens => scorer.similarity
  | .body => scorer.bodySimilarity
  | .name => scorer.nameSimilarity

theorem score_eq {α : Type} [Weighing α] (scorer : Scorer α) (aspect : Aspect)
    (left right : Profile) :
    scorer.score aspect left right =
      (scorer.weights aspect).overlap (left.bag aspect) (right.bag aspect) := by
  cases aspect <;> rfl

theorem mem_stopTokens_iff {before after : Profile} {token : String} :
    token ∈ stopTokens before after ↔
      token = "return" ∨ token ∈ before.params ∨ token ∈ after.params := by
  simp [stopTokens]

section Formulas

variable (scorer : Scorer ℝ)

/-- What two bags share over what they hold together. -/
def ScoreFormula (aspect : Aspect) (left right : Profile) : Prop :=
  (scorer.score aspect left right).IsQuotient
    ((scorer.weights aspect).weigh (scorer.weights aspect).vocabulary fun token =>
      min ((left.bag aspect).count token) ((right.bag aspect).count token))
    ((scorer.weights aspect).weigh (scorer.weights aspect).vocabulary fun token =>
      max ((left.bag aspect).count token) ((right.bag aspect).count token))

/-- What a body shares with what another one lost, over all of it. The token `return` and the
parameters of both versions are left out. -/
def ExtractionFormula (before after extracted : Profile) : Prop :=
  let tokens := scorer.tokenWeights.vocabulary.filter fun token =>
    ¬(token = "return" ∨ token ∈ before.params ∨ token ∈ after.params)
  (scorer.extraction before after extracted).IsQuotient
    (scorer.tokenWeights.weigh tokens fun token =>
      min (extracted.bodyTokens.count token)
        (before.bodyTokens.count token - after.bodyTokens.count token))
    (scorer.tokenWeights.weigh tokens extracted.bodyTokens.count)

/-- What a body shares with what another one gained, over all of it. -/
def InliningFormula (before after inlined : Profile) : Prop :=
  (scorer.inlining before after inlined).IsQuotient
    (scorer.tokenWeights.weigh scorer.tokenWeights.vocabulary fun token =>
      min (inlined.bodyTokens.count token)
        (after.bodyTokens.count token - before.bodyTokens.count token))
    (scorer.tokenWeights.weigh scorer.tokenWeights.vocabulary inlined.bodyTokens.count)

/-- The scores of two snapshots follow their formulas, for nodes of either side. The vocabulary is
made of the tokens that occur in a document, and they weigh the more the fewer these are. -/
structure FollowsFormulas (before after : Snapshot) : Prop where
  weight : ∀ aspect token, (scorer.weights aspect).of token =
    Real.log (1 + (max before.tree.size after.tree.size : ℕ) / scorer.documentCount aspect token)
  vocabulary : ∀ aspect token,
    token ∈ (scorer.weights aspect).vocabulary ↔ 0 < scorer.documentCount aspect token
  score : ∀ aspect side x other y,
    scorer.ScoreFormula aspect (scorer.profile side x) (scorer.profile other y)
  extraction : ∀ b a e, scorer.ExtractionFormula (scorer.profile .before b)
    (scorer.profile .after a) (scorer.profile .after e)
  inlining : ∀ b a i, scorer.InliningFormula (scorer.profile .before b)
    (scorer.profile .after a) (scorer.profile .before i)
  beforeParams : ∀ id ∈ before.tree.levelOrder, ∀ node, before.tree.node? id = some node →
    (scorer.profile .before id).params = node.params.getD []
  afterParams : ∀ id ∈ after.tree.levelOrder, ∀ node, after.tree.node? id = some node →
    (scorer.profile .after id).params = node.params.getD []

end Formulas

theorem count_bodyKept (before after extracted : Profile) (token : String) :
    (bodyKept before after extracted).count token =
      if ¬(token = "return" ∨ token ∈ before.params ∨ token ∈ after.params) then
        extracted.bodyTokens.count token else 0 := by
  rw [bodyKept, Bag.count_withoutKeys]
  simp only [mem_stopTokens_iff]
  split <;> simp_all

theorem count_bodyLost {before : Profile} (h : before.bodyTokens.Proper) (after : Profile)
    (token : String) :
    (bodyLost before after).count token =
      if ¬(token = "return" ∨ token ∈ before.params ∨ token ∈ after.params) then
        before.bodyTokens.count token - after.bodyTokens.count token else 0 := by
  rw [bodyLost, Bag.count_withoutKeys, h.count_difference]
  simp only [mem_stopTokens_iff]
  split <;> simp_all

section Scored

variable {before after : Snapshot} {scorer : Scorer ℝ}
  (h : ofSnapshots before after = .ok scorer)

include h

theorem weight_nonneg (aspect : Aspect) (token : String) :
    0 ≤ (scorer.weights aspect).of token := by
  rw [weights_eq h]
  exact Weights.of_nonneg _ _ token

theorem weight_eq (aspect : Aspect) (token : String) :
    (scorer.weights aspect).of token = Real.log
      (1 + (max before.tree.size after.tree.size : ℕ) / scorer.documentCount aspect token) := by
  rw [weights_eq h, Weights.of_ofFrequency, count_union_frequency]

theorem mem_vocabulary_iff (aspect : Aspect) (token : String) :
    token ∈ (scorer.weights aspect).vocabulary ↔ 0 < scorer.documentCount aspect token := by
  have hproper : ((scorer.before.frequency aspect).union
      (scorer.after.frequency aspect)).Proper := by
    rw [SnapshotProfile.frequency_eq, SnapshotProfile.frequency_eq]
    exact (Bag.proper_ofList _).union (Bag.proper_ofList _)
  rw [weights_eq h, Weights.vocabulary, List.mem_toFinset, ← count_union_frequency,
    ← hproper.mem_keys_iff, Weights.ofFrequency, List.map_map]
  rfl

theorem scoreFormula (aspect : Aspect) (side : Side) (x : NodeId) (other : Side) (y : NodeId) :
    scorer.ScoreFormula aspect (scorer.profile side x) (scorer.profile other y) := by
  rw [ScoreFormula, score_eq]
  exact Weights.isQuotient_overlap (weight_nonneg h aspect) (proper_bag_profile h side x aspect)
    (proper_bag_profile h other y aspect)

theorem extractionFormula (b a e : NodeId) :
    scorer.ExtractionFormula (scorer.profile .before b) (scorer.profile .after a)
      (scorer.profile .after e) := by
  have hbody : (scorer.profile .before b).bodyTokens.Proper := proper_bag_profile h .before b .body
  have hextracted : (scorer.profile .after e).bodyTokens.Proper :=
    proper_bag_profile h .after e .body
  have hquotient := Weights.isQuotient_containment
    (bodyLost (scorer.profile .before b) (scorer.profile .after a)) (weight_nonneg h .body)
    (hextracted.withoutKeys (stopTokens (scorer.profile .before b) (scorer.profile .after a)))
  have hkept := funext (count_bodyKept (scorer.profile .before b) (scorer.profile .after a)
    (scorer.profile .after e))
  have hlost := funext (count_bodyLost hbody (scorer.profile .after a))
  rw [bodyKept] at hkept
  simp only [hkept, hlost, apply_ite₂ min, Nat.min_self] at hquotient
  rw [ExtractionFormula, Weights.weigh_filter, Weights.weigh_filter]
  exact hquotient

theorem inliningFormula (b a i : NodeId) :
    scorer.InliningFormula (scorer.profile .before b) (scorer.profile .after a)
      (scorer.profile .before i) := by
  have hbody : (scorer.profile .after a).bodyTokens.Proper := proper_bag_profile h .after a .body
  have hquotient := Weights.isQuotient_containment
    ((scorer.profile .after a).bodyTokens.difference (scorer.profile .before b).bodyTokens)
    (weight_nonneg h .body) (proper_bag_profile h .before i .body)
  simp only [hbody.count_difference] at hquotient
  exact hquotient

end Scored

end Scorer

theorem SnapshotProfile.params_find {snapshot : Snapshot} {profile : SnapshotProfile}
    (h : ofSnapshot snapshot = .ok profile) {id : NodeId} (hid : id ∈ snapshot.tree.levelOrder)
    {node : Node} (hnode : snapshot.tree.node? id = some node) :
    (profile.find id).params = node.params.getD [] := by
  obtain ⟨_, -, heq⟩ := map_eq_ok_iff.mp (ofNode_eq_find h hid hnode)
  rw [← heq]

/-- In exact arithmetic every score of two snapshots is its formula. -/
theorem scores_follow_formulas (before after : Snapshot) (scorer : Scorer ℝ)
    (hscorer : Scorer.ofSnapshots before after = .ok scorer) :
    scorer.FollowsFormulas before after := by
  obtain ⟨hbefore, hafter, -⟩ := Scorer.ofSnapshots_eq_ok_iff.mp hscorer
  exact
    { weight := Scorer.weight_eq hscorer
      vocabulary := Scorer.mem_vocabulary_iff hscorer
      score := Scorer.scoreFormula hscorer
      extraction := Scorer.extractionFormula hscorer
      inlining := Scorer.inliningFormula hscorer
      beforeParams := fun _ hid _ hnode => SnapshotProfile.params_find hbefore hid hnode
      afterParams := fun _ hid _ hnode => SnapshotProfile.params_find hafter hid hnode }

theorem dense_spacious_follow_formulas :
    ∃ scorer : Scorer ℝ, Scorer.ofSnapshots dense spacious = .ok scorer ∧
      scorer.FollowsFormulas dense spacious ∧
      (scorer.bodySimilarity (scorer.profile .before 0) (scorer.profile .after 0)).value? =
        none :=
  ⟨_, rfl, scores_follow_formulas dense spacious _ rfl, if_pos rfl⟩

end Lineage
