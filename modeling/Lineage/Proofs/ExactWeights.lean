import Mathlib.Analysis.SpecialFunctions.Log.Basic
import Mathlib.Algebra.Order.BigOperators.Group.List
import Lineage.Changes
import Lineage.Proofs.Scoring

namespace Lineage

open Classical in
noncomputable instance : Weighing ℝ where
  zero := 0
  add := (· + ·)
  times count weight := count * weight
  rarity documents count := Real.log (1 + documents / count)
  exceeds part whole threshold := decide (whole ≠ 0 ∧ threshold < part / whole)

theorem Ratio.exceeds_iff_of_pos {ratio : Ratio ℝ} (h : 0 < ratio.whole) (threshold : ℝ) :
    ratio.exceeds threshold = true ↔ threshold * ratio.whole < ratio.part := by
  rw [← lt_div_iff₀ h]
  simp [exceeds, Weighing.exceeds, h.ne']

theorem Ratio.exceeds_of_part_eq_whole {ratio : Ratio ℝ} {threshold : ℝ}
    (heq : ratio.part = ratio.whole) (hpos : 0 < ratio.whole) (hthreshold : threshold < 1) :
    ratio.exceeds threshold = true := by
  rw [exceeds_iff_of_pos hpos, heq]
  exact mul_lt_of_lt_one_left hpos hthreshold

namespace Weights

variable {documents : Nat} {frequency : Bag String}

/-- The weight of a token that occurs in `frequency.count token` of the documents; one that occurs
in none has weight zero, which is what the formula gives. -/
theorem of_ofFrequency (documents : Nat) (frequency : Bag String) (token : String) :
    (ofFrequency documents frequency : Weights ℝ).of token =
      Real.log (1 + documents / frequency.count token) := by
  simp only [of, ofFrequency, Bag.count]
  induction frequency.entries with
  | nil => simp [Weighing.zero]
  | cons entry rest ih =>
      obtain ⟨key, count⟩ := entry
      by_cases htoken : token == key
      · simp [List.lookup_cons, htoken, Weighing.rarity]
      · simpa [List.lookup_cons, htoken] using ih

theorem of_nonneg (documents : Nat) (frequency : Bag String) (token : String) :
    0 ≤ (ofFrequency documents frequency : Weights ℝ).of token := by
  rw [of_ofFrequency]
  refine Real.log_nonneg (le_add_of_nonneg_right ?_)
  positivity

theorem of_pos {token : String} (hdocuments : 0 < documents)
    (htoken : 0 < frequency.count token) :
    0 < (ofFrequency documents frequency : Weights ℝ).of token := by
  rw [of_ofFrequency]
  refine Real.log_pos (lt_add_of_pos_right 1 ?_)
  positivity

theorem sum_eq (weights : Weights ℝ) (tokens : List String) (count : String → Nat) :
    weights.sum tokens count = (tokens.map fun token => count token * weights.of token).sum := by
  rw [sum, List.sum_eq_foldl, List.foldl_map]
  rfl

theorem sum_pos {tokens : List String} {count : String → Nat} (hdocuments : 0 < documents)
    (hcounted : ∃ token ∈ tokens, 0 < count token ∧ 0 < frequency.count token) :
    0 < (ofFrequency documents frequency : Weights ℝ).sum tokens count := by
  obtain ⟨token, hmem, hcount, htoken⟩ := hcounted
  have hterm : 0 < count token * (ofFrequency documents frequency : Weights ℝ).of token :=
    mul_pos (Nat.cast_pos.mpr hcount) (of_pos hdocuments htoken)
  rw [sum_eq]
  refine hterm.trans_le (List.single_le_sum ?_ _ (List.mem_map_of_mem hmem))
  intro term hterm
  obtain ⟨other, -, rfl⟩ := List.mem_map.mp hterm
  exact mul_nonneg (Nat.cast_nonneg _) (of_nonneg documents frequency other)

theorem sum_congr {weights : Weights ℝ} {tokens : List String} {count count' : String → Nat}
    (h : ∀ token ∈ tokens, count token = count' token) :
    weights.sum tokens count = weights.sum tokens count' := by
  rw [sum_eq, sum_eq]
  refine congrArg List.sum (List.map_congr_left ?_)
  intro token htoken
  rw [h token htoken]

theorem exceeds_containment {inner outer : Bag String} {threshold : ℝ}
    (hheld : ∀ key ∈ inner.keys, inner.count key ≤ outer.count key) (hdocuments : 0 < documents)
    (hcounted : ∃ token ∈ inner.keys, 0 < inner.count token ∧ 0 < frequency.count token)
    (hthreshold : threshold < 1) :
    ((ofFrequency documents frequency).containment inner outer).exceeds threshold = true := by
  refine Ratio.exceeds_of_part_eq_whole ?_ (sum_pos hdocuments hcounted) hthreshold
  exact sum_congr fun key hkey => Nat.min_eq_left (hheld key hkey)

theorem exceeds_overlap_self {bag : Bag String} {threshold : ℝ} (hdocuments : 0 < documents)
    (hcounted : ∃ token ∈ bag.keys, 0 < bag.count token ∧ 0 < frequency.count token)
    (hthreshold : threshold < 1) :
    ((ofFrequency documents frequency).overlap bag bag).exceeds threshold = true := by
  refine Ratio.exceeds_of_part_eq_whole ?_ (sum_pos hdocuments ?_) hthreshold
  · exact sum_congr fun key _ => (Nat.min_self _).trans (Nat.max_self _).symm
  · obtain ⟨token, hmem, hcount, htoken⟩ := hcounted
    exact ⟨token, List.mem_append_left _ hmem, hcount.trans_le (Nat.le_max_left _ _), htoken⟩

end Weights

namespace SnapshotProfile

/-- The profile of a snapshot that can be scored. -/
def of (snapshot : Snapshot) : SnapshotProfile :=
  (ofSnapshot snapshot).toOption.getD {}

theorem ofSnapshot_eq_ok {snapshot : Snapshot} (h : Scorable snapshot) :
    ofSnapshot snapshot = .ok (of snapshot) := by
  obtain ⟨profile, hprofile⟩ := h.exists_profile
  rw [of, hprofile]
  rfl

end SnapshotProfile

/-- The scorer of two profiled snapshots, with the number of documents that weights refer to. -/
def Scorer.ofProfiles {α : Type} [Weighing α] (documents : Nat) (before after : SnapshotProfile) :
    Scorer α where
  before := before
  after := after
  tokenWeights := .ofFrequency documents (before.tokenFrequency.union after.tokenFrequency)
  nameWeights := .ofFrequency documents (before.nameFrequency.union after.nameFrequency)

/-- The tokens in the body of `extracted` that say something about where it came from. -/
def Scorer.bodyKept (before after extracted : Profile) : Bag String :=
  extracted.bodyTokens.withoutKeys (stopTokens before after)

/-- What the body of `before` lost on the way to `after`. -/
def Scorer.bodyLost (before after : Profile) : Bag String :=
  (before.bodyTokens.difference after.bodyTokens).withoutKeys (stopTokens before after)

theorem Scorable.relationships_eq_ok {α : Type} [Weighing α] {before after : Snapshot}
    (hbefore : Scorable before) (hafter : Scorable after) (threshold : α) :
    relationships threshold before after =
      .ok (TreePair.changes ⟨before.tree, after.tree⟩
        (.ofScorer (.ofProfiles (max before.tree.size after.tree.size) (.of before) (.of after))
          threshold)) := by
  rw [relationships, Scorer.ofSnapshots, SnapshotProfile.ofSnapshot_eq_ok hbefore,
    SnapshotProfile.ofSnapshot_eq_ok hafter]
  rfl

namespace Evidence

variable {documents : Nat} {before after : SnapshotProfile} {threshold : ℝ} {b a new : NodeId}

theorem nameSimilar_ofProfiles :
    (ofScorer (.ofProfiles documents before after) threshold).nameSimilar b a =
      ((Weights.ofFrequency documents (before.nameFrequency.union after.nameFrequency)).overlap
        (before.find b).name (after.find a).name).exceeds threshold :=
  rfl

theorem similar_of_tokens_eq (hdocuments : 0 < documents) (hthreshold : threshold < 1)
    (htokens : (after.find a).tokens = (before.find b).tokens)
    (hcounted : ∃ token ∈ (before.find b).tokens.keys, 0 < (before.find b).tokens.count token ∧
      0 < (before.tokenFrequency.union after.tokenFrequency).count token) :
    (ofScorer (.ofProfiles documents before after) threshold).similar b a = true := by
  change (Weights.overlap _ (before.find b).tokens (after.find a).tokens).exceeds threshold = true
  rw [htokens]
  exact Weights.exceeds_overlap_self hdocuments hcounted hthreshold

theorem extracted_of_held (hdocuments : 0 < documents) (hthreshold : threshold < 1)
    (hheld : ∀ key ∈ (Scorer.bodyKept (before.find b) (after.find a) (after.find new)).keys,
      (Scorer.bodyKept (before.find b) (after.find a) (after.find new)).count key ≤
        (Scorer.bodyLost (before.find b) (after.find a)).count key)
    (hcounted : ∃ token ∈ (Scorer.bodyKept (before.find b) (after.find a) (after.find new)).keys,
      0 < (Scorer.bodyKept (before.find b) (after.find a) (after.find new)).count token ∧
        0 < (before.tokenFrequency.union after.tokenFrequency).count token) :
    (ofScorer (.ofProfiles documents before after) threshold).extracted b a new = true :=
  Weights.exceeds_containment hheld hdocuments hcounted hthreshold

end Evidence

end Lineage
