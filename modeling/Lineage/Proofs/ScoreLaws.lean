import Lineage.Proofs.Formulas

namespace Lineage

namespace Ratio.IsQuotient

variable {ratio : Ratio ℝ} {part whole : ℝ} (h : ratio.IsQuotient part whole)

include h

theorem bounds {value : ℝ} (hvalue : ratio.value? = some value) : 0 ≤ value ∧ value ≤ 1 := by
  obtain ⟨-, rfl⟩ := value?_eq_some_iff.mp hvalue
  rw [h.part_eq, h.whole_eq]
  have hwhole := h.nonneg.trans h.le
  exact ⟨div_nonneg h.nonneg hwhole, div_le_one_of_le₀ h.le hwhole⟩

theorem unique {other : Ratio ℝ} (hother : other.IsQuotient part whole) : ratio = other := by
  obtain ⟨_, _⟩ := ratio
  obtain ⟨_, _⟩ := other
  exact congrArg₂ Ratio.mk (h.part_eq.trans hother.part_eq.symm)
    (h.whole_eq.trans hother.whole_eq.symm)

end Ratio.IsQuotient

/-- What a score tells about the two bags that it compares. -/
structure Ratio.Compares (ratio : Ratio ℝ) (left right : Bag String) : Prop where
  undefined_iff : ratio.value? = none ↔ left.isEmpty = true ∧ right.isEmpty = true
  bounds : ∀ value, ratio.value? = some value → 0 ≤ value ∧ value ≤ 1
  eq_one_iff : ∀ value, ratio.value? = some value →
    (value = 1 ↔ ∀ token, left.count token = right.count token)
  eq_zero_iff : ∀ value, ratio.value? = some value →
    (value = 0 ↔ ∀ token, left.count token = 0 ∨ right.count token = 0)

theorem Ratio.Compares.exists_value {ratio : Ratio ℝ} {left right : Bag String}
    (h : ratio.Compares left right) (hnonempty : left.isEmpty = false ∨ right.isEmpty = false) :
    ∃ value, ratio.value? = some value := by
  rw [← Option.ne_none_iff_exists', ne_eq, h.undefined_iff]
  rcases hnonempty with hleft | hright
  · simp [hleft]
  · simp [hright]

namespace Weights

variable {weights : Weights ℝ} {count count' : String → ℕ}

theorem weigh_eq_weigh_iff (hnonneg : ∀ token, 0 ≤ weights.of token)
    (hpos : ∀ token, 0 < count' token → 0 < weights.of token)
    (hle : ∀ token, count token ≤ count' token) :
    weights.weigh weights.vocabulary count = weights.weigh weights.vocabulary count' ↔
      ∀ token, count token = count' token := by
  constructor
  · intro heq token
    have hterms := (Finset.sum_eq_sum_iff_of_le fun token _ =>
      mul_le_mul_of_nonneg_left (Nat.cast_le.mpr (hle token)) (hnonneg token)).mp heq
    rcases Nat.eq_zero_or_pos (count' token) with hzero | hcount
    · exact Nat.le_antisymm (hle token) (hzero ▸ Nat.zero_le _)
    · have hweight := hpos token hcount
      have hmem : token ∈ weights.vocabulary := by
        by_contra hunknown
        exact hweight.ne' (of_eq_zero_of_notMem hunknown)
      exact Nat.cast_injective (mul_left_cancel₀ hweight.ne' (hterms token hmem))
  · intro heq
    rw [funext heq]

theorem weigh_eq_zero_iff (hnonneg : ∀ token, 0 ≤ weights.of token)
    (hpos : ∀ token, 0 < count token → 0 < weights.of token) :
    weights.weigh weights.vocabulary count = 0 ↔ ∀ token, count token = 0 := by
  have hzero : weights.weigh weights.vocabulary (fun _ => 0) = 0 := by simp [weigh]
  rw [eq_comm, ← hzero, weigh_eq_weigh_iff hnonneg hpos fun _ => Nat.zero_le _]
  exact forall_congr' fun _ => eq_comm

section Bags

variable {left right : Bag String} (hnonneg : ∀ token, 0 ≤ weights.of token)
  (hleft : left.Proper) (hright : right.Proper)

include hnonneg hleft hright

theorem compares_overlap (hknown : ∀ token, 0 < left.count token ∨ 0 < right.count token →
    0 < weights.of token) : (weights.overlap left right).Compares left right := by
  have hquotient := isQuotient_overlap hnonneg hleft hright
  have hmin : ∀ token, 0 < min (left.count token) (right.count token) → 0 < weights.of token :=
    fun token htoken => hknown token (by omega)
  have hmax : ∀ token, 0 < max (left.count token) (right.count token) → 0 < weights.of token :=
    fun token htoken => hknown token (by omega)
  have hpart := weigh_eq_zero_iff hnonneg hmin
  have hwhole := weigh_eq_zero_iff hnonneg hmax
  have hequal := weigh_eq_weigh_iff hnonneg hmax fun token => min_le_max
  rw [← hquotient.part_eq] at hpart hequal
  rw [← hquotient.whole_eq] at hwhole hequal
  refine ⟨?_, ?_, ?_, ?_⟩
  · rw [Ratio.value?_eq_none_iff, hwhole, hleft.isEmpty_iff, hright.isEmpty_iff, ← forall_and]
    exact forall_congr' fun token => by omega
  · intro value hvalue
    exact hquotient.bounds hvalue
  · intro value hvalue
    obtain ⟨hdefined, rfl⟩ := Ratio.value?_eq_some_iff.mp hvalue
    rw [div_eq_one_iff_eq hdefined, hequal]
    exact forall_congr' fun token => by omega
  · intro value hvalue
    obtain ⟨hdefined, rfl⟩ := Ratio.value?_eq_some_iff.mp hvalue
    rw [div_eq_zero_iff, or_iff_left hdefined, hpart]
    exact forall_congr' fun token => by omega

theorem overlap_comm : weights.overlap left right = weights.overlap right left := by
  have hquotient := isQuotient_overlap hnonneg hright hleft
  simp only [min_comm (right.count _), max_comm (right.count _)] at hquotient
  exact (isQuotient_overlap hnonneg hleft hright).unique hquotient

theorem overlap_congr {other : Weights ℝ} (hvocabulary : other.vocabulary = weights.vocabulary)
    (hof : ∀ token, other.of token = weights.of token) :
    other.overlap left right = weights.overlap left right := by
  have hquotient := isQuotient_overlap (fun token => (hof token).symm ▸ hnonneg token) hleft hright
  simp only [weigh, hvocabulary, hof] at hquotient
  exact hquotient.unique (isQuotient_overlap hnonneg hleft hright)

end Bags

end Weights

/-- The other snapshot. -/
def Side.opposite : Side → Side
  | before => after
  | after => before

/-- What belongs to a side, of two things. -/
def Side.pick {α : Type} (before after : α) : Side → α
  | .before => before
  | .after => after

theorem SnapshotProfile.size_pos_of_count_pos {snapshot : Snapshot} {profile : SnapshotProfile}
    (h : ofSnapshot snapshot = .ok profile) {id : NodeId} {aspect : Aspect} {token : String}
    (htoken : 0 < ((profile.find id).bag aspect).count token) : 0 < snapshot.tree.size := by
  obtain ⟨-, node, hnode, -⟩ := of_mem_profiles h (mem_profiles_of_count_pos aspect htoken)
  exact Nat.zero_lt_of_lt (CodeTree.lt_size_of_node? hnode)

namespace Scorer

section Scored

variable {before after : Snapshot} {scorer : Scorer ℝ}
  (h : ofSnapshots before after = .ok scorer)

include h

theorem weight_pos {aspect : Aspect} {side : Side} {id : NodeId} {token : String}
    (htoken : 0 < ((scorer.profile side id).bag aspect).count token) :
    0 < (scorer.weights aspect).of token := by
  obtain ⟨hbefore, hafter, -⟩ := ofSnapshots_eq_ok_iff.mp h
  have hdocuments : 0 < max before.tree.size after.tree.size := by
    cases side with
    | before => exact lt_max_of_lt_left (SnapshotProfile.size_pos_of_count_pos hbefore htoken)
    | after => exact lt_max_of_lt_right (SnapshotProfile.size_pos_of_count_pos hafter htoken)
  rw [weights_eq h]
  refine Weights.of_pos hdocuments ?_
  rw [count_union_frequency]
  exact documentCount_pos h htoken

theorem compares_score (aspect : Aspect) (side : Side) (x : NodeId) (other : Side) (y : NodeId) :
    (scorer.score aspect (scorer.profile side x) (scorer.profile other y)).Compares
      ((scorer.profile side x).bag aspect) ((scorer.profile other y).bag aspect) := by
  rw [score_eq]
  refine Weights.compares_overlap (weight_nonneg h aspect) (proper_bag_profile h side x aspect)
    (proper_bag_profile h other y aspect) ?_
  rintro token (htoken | htoken)
  · exact weight_pos h htoken
  · exact weight_pos h htoken

theorem score_comm (aspect : Aspect) (side : Side) (x : NodeId) (other : Side) (y : NodeId) :
    scorer.score aspect (scorer.profile side x) (scorer.profile other y) =
      scorer.score aspect (scorer.profile other y) (scorer.profile side x) := by
  rw [score_eq, score_eq]
  exact Weights.overlap_comm (weight_nonneg h aspect) (proper_bag_profile h side x aspect)
    (proper_bag_profile h other y aspect)

theorem exists_exchanged :
    ∃ exchanged : Scorer ℝ, ofSnapshots after before = .ok exchanged ∧
      exchanged.before = scorer.after ∧ exchanged.after = scorer.before := by
  obtain ⟨hbefore, hafter, -⟩ := ofSnapshots_eq_ok_iff.mp h
  exact ⟨.ofProfiles (max after.tree.size before.tree.size) scorer.after scorer.before,
    ofSnapshots_eq_ok_iff.mpr ⟨hafter, hbefore, rfl⟩, rfl, rfl⟩

theorem score_exchange {exchanged : Scorer ℝ}
    (hexchanged : ofSnapshots after before = .ok exchanged)
    (hbefore : exchanged.before = scorer.after) (hafter : exchanged.after = scorer.before)
    (aspect : Aspect) (side : Side) (x : NodeId) (other : Side) (y : NodeId) :
    exchanged.score aspect (exchanged.profile side.opposite x)
        (exchanged.profile other.opposite y) =
      scorer.score aspect (scorer.profile side x) (scorer.profile other y) := by
  have hprofile : ∀ side id, exchanged.profile side.opposite id = scorer.profile side id := by
    intro side id
    cases side with
    | before => exact congrArg (SnapshotProfile.find · id) hafter
    | after => exact congrArg (SnapshotProfile.find · id) hbefore
  -- The weight tables list their tokens in another order; only their contents agree.
  have hcount : ∀ token,
      exchanged.documentCount aspect token = scorer.documentCount aspect token := by
    intro token
    rw [documentCount, documentCount, hbefore, hafter, max_comm]
  have hvocabulary :
      (exchanged.weights aspect).vocabulary = (scorer.weights aspect).vocabulary := by
    ext token
    rw [mem_vocabulary_iff hexchanged, mem_vocabulary_iff h, hcount]
  have hof : ∀ token, (exchanged.weights aspect).of token = (scorer.weights aspect).of token := by
    intro token
    rw [weight_eq hexchanged, weight_eq h, hcount, max_comm]
  rw [hprofile, hprofile, score_eq, score_eq]
  exact Weights.overlap_congr (weight_nonneg h aspect) (proper_bag_profile h side x aspect)
    (proper_bag_profile h other y aspect) hvocabulary hof

end Scored

end Scorer

/-- Scores compare the bags of two nodes of either side. They depend neither on which node comes
first nor on which snapshot does. -/
theorem scores_compare_bags (before after : Snapshot) (scorer : Scorer ℝ)
    (hscorer : Scorer.ofSnapshots before after = .ok scorer) :
    (∀ aspect side x other y,
      (scorer.score aspect (scorer.profile side x) (scorer.profile other y)).Compares
        ((scorer.profile side x).bag aspect) ((scorer.profile other y).bag aspect) ∧
      scorer.score aspect (scorer.profile side x) (scorer.profile other y) =
        scorer.score aspect (scorer.profile other y) (scorer.profile side x)) ∧
    ∃ exchanged : Scorer ℝ, Scorer.ofSnapshots after before = .ok exchanged ∧
      ∀ aspect side x other y,
        exchanged.score aspect (exchanged.profile side.opposite x)
            (exchanged.profile other.opposite y) =
          scorer.score aspect (scorer.profile side x) (scorer.profile other y) := by
  refine ⟨?_, ?_⟩
  · intro aspect side x other y
    exact ⟨Scorer.compares_score hscorer aspect side x other y,
      Scorer.score_comm hscorer aspect side x other y⟩
  · obtain ⟨exchanged, hexchanged, hbefore, hafter⟩ := Scorer.exists_exchanged hscorer
    exact ⟨exchanged, hexchanged, Scorer.score_exchange hscorer hexchanged hbefore hafter⟩

theorem dense_spacious_compare_bags :
    ∃ scorer : Scorer ℝ, Scorer.ofSnapshots dense spacious = .ok scorer ∧
      (scorer.score .tokens (scorer.profile .before 1) (scorer.profile .after 1)).value? = some 1 ∧
      (scorer.score .body (scorer.profile .before 0) (scorer.profile .after 1)).value? = some 0 ∧
      (scorer.score .body (scorer.profile .before 0) (scorer.profile .after 0)).value? = none := by
  have hscorer : Scorer.ofSnapshots dense spacious =
      .ok (.ofProfiles 2 (.of dense) (.of spacious) : Scorer ℝ) := rfl
  have hlaws := (scores_compare_bags dense spacious _ hscorer).1
  refine ⟨_, hscorer, ?_, ?_, ?_⟩
  · obtain ⟨hcompares, -⟩ := hlaws .tokens .before 1 .after 1
    obtain ⟨value, hvalue⟩ := hcompares.exists_value (.inl (by decide +kernel))
    have hequal : ((SnapshotProfile.of dense).find 1).tokens =
        ((SnapshotProfile.of spacious).find 1).tokens := by decide +kernel
    rw [hvalue, (hcompares.eq_one_iff value hvalue).mpr]
    intro token
    exact congrArg (Bag.count · token) hequal
  · obtain ⟨hcompares, -⟩ := hlaws .body .before 0 .after 1
    obtain ⟨value, hvalue⟩ := hcompares.exists_value (.inr (by decide +kernel))
    rw [hvalue, (hcompares.eq_zero_iff value hvalue).mpr fun _ => .inl rfl]
  · obtain ⟨hcompares, -⟩ := hlaws .body .before 0 .after 0
    exact hcompares.undefined_iff.mpr ⟨rfl, rfl⟩

end Lineage
