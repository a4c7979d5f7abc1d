import Mathlib.Data.Finset.Card
import Lineage.Proofs.Finding

namespace Lineage

/-- The parents of two nodes are matched to each other. -/
def ParentsMatched (matched : NodeId → NodeId → Prop) (before after : Node) : Prop :=
  ∃ p q, before.parent = some p ∧ after.parent = some q ∧ matched p q

/-- At least two children of `b` are matched to children of `a`. -/
def SharesChildren (trees : TreePair) (matched : NodeId → NodeId → Prop) (b a : NodeId) : Prop :=
  ∃ c ∈ trees.before.children b, ∃ c' ∈ trees.before.children b, c ≠ c' ∧
    (∃ d ∈ trees.after.children a, matched c d) ∧ ∃ d ∈ trees.after.children a, matched c' d

/-- A reason to match the nodes `before` and `after` with the numbers `b` and `a`, given which nodes
are matched. -/
inductive Justified (trees : TreePair) (evidence : Evidence) (matched : NodeId → NodeId → Prop)
    (b a : NodeId) (before after : Node) : Prop
  /-- Equal names, at the roots or below matched parents. -/
  | named : before.scope = after.scope → before.name = after.name →
      (before.parent = none ∧ after.parent = none) ∨ ParentsMatched matched before after →
      Justified trees evidence matched b a before after
  /-- Equal signatures below matched parents. -/
  | signed : before.kind = after.kind → before.name = after.name → before.params = after.params →
      ParentsMatched matched before after → Justified trees evidence matched b a before after
  | similar : before.kind = after.kind → evidence.similar b a = true →
      Justified trees evidence matched b a before after
  /-- Similar names and children in common. -/
  | inhabited : SharesChildren trees matched b a → evidence.nameSimilar b a = true →
      Justified trees evidence matched b a before after

section Mono

variable {trees : TreePair} {evidence : Evidence} {matched matched' : NodeId → NodeId → Prop}
  {b a : NodeId} {before after : Node}

theorem ParentsMatched.mono (hmono : ∀ p q, matched p q → matched' p q)
    (h : ParentsMatched matched before after) : ParentsMatched matched' before after := by
  obtain ⟨p, q, hp, hq, hpair⟩ := h
  exact ⟨p, q, hp, hq, hmono p q hpair⟩

theorem SharesChildren.mono (hmono : ∀ p q, matched p q → matched' p q)
    (h : SharesChildren trees matched b a) : SharesChildren trees matched' b a := by
  obtain ⟨c, hc, c', hc', hne, ⟨d, hd, hpair⟩, d', hd', hpair'⟩ := h
  exact ⟨c, hc, c', hc', hne, ⟨d, hd, hmono c d hpair⟩, d', hd', hmono c' d' hpair'⟩

theorem Justified.mono (hmono : ∀ p q, matched p q → matched' p q)
    (h : Justified trees evidence matched b a before after) :
    Justified trees evidence matched' b a before after := by
  cases h with
  | named hscope hname hparents => exact .named hscope hname (hparents.imp_right (.mono hmono))
  | signed hkind hname hparams hparents => exact .signed hkind hname hparams (hparents.mono hmono)
  | similar hkind hsimilar => exact .similar hkind hsimilar
  | inhabited hchildren hname => exact .inhabited (hchildren.mono hmono) hname

end Mono

namespace TreePair

open Matching (Grows Splits)

variable {trees : TreePair} {evidence : Evidence} {matching : Matching}

/-- There is a reason to confirm a pair in the light of the pairs confirmed so far. -/
def Warranted (trees : TreePair) (evidence : Evidence) (matching : Matching)
    (pair : NodeId × NodeId) : Prop :=
  ∃ before after, trees.before.node? pair.1 = some before ∧
    trees.after.node? pair.2 = some after ∧
    Justified trees evidence (fun p q => (p, q) ∈ matching.pairs) pair.1 pair.2 before after

/-- Every confirmed pair has its reason. -/
def AllWarranted (trees : TreePair) (evidence : Evidence) (matching : Matching) : Prop :=
  ∀ pair ∈ matching.pairs, trees.Warranted evidence matching pair

theorem Warranted.grows {next : Matching} {pair : NodeId × NodeId} (hgrows : Grows matching next)
    (h : trees.Warranted evidence matching pair) : trees.Warranted evidence next pair := by
  obtain ⟨before, after, hbefore, hafter, hjustified⟩ := h
  exact ⟨before, after, hbefore, hafter, hjustified.mono fun _ _ => hgrows.mem_pairs⟩

theorem holds_iff {relation : Node → Node → Bool} {b a : NodeId} :
    trees.holds relation b a = true ↔ ∃ before after, trees.before.node? b = some before ∧
      trees.after.node? a = some after ∧ relation before after = true := by
  unfold holds
  split
  · next before after hbefore hafter => simp [hbefore, hafter]
  · next hnone =>
    constructor
    · intro h
      cases h
    · rintro ⟨before, after, hbefore, hafter, -⟩
      exact absurd hafter (hnone before after hbefore)

theorem mem_sameNamed_iff {befores afters : List NodeId} {pair : NodeId × NodeId} :
    pair ∈ trees.sameNamed befores afters ↔
      pair.1 ∈ befores ∧ pair.2 ∈ afters ∧ trees.sameName pair.1 pair.2 = true := by
  simp only [sameNamed, List.mem_flatMap, List.mem_map, List.mem_filter]
  constructor
  · rintro ⟨b, hb, a, ⟨ha, hname⟩, rfl⟩
    exact ⟨hb, ha, hname⟩
  · rintro ⟨hb, ha, hname⟩
    exact ⟨pair.1, hb, pair.2, ⟨ha, hname⟩, rfl⟩

theorem warranted_of_sameName {b a : NodeId} (hname : trees.sameName b a = true)
    (hplace : (trees.before.parent? b = none ∧ trees.after.parent? a = none) ∨
      ∃ p q, trees.before.parent? b = some p ∧ trees.after.parent? a = some q ∧
        (p, q) ∈ matching.pairs) :
    trees.Warranted evidence matching (b, a) := by
  obtain ⟨before, after, hbefore, hafter, hsame⟩ := holds_iff.mp hname
  rw [Bool.and_eq_true, beq_iff_eq, beq_iff_eq] at hsame
  have hparent : trees.before.parent? b = before.parent := by simp [CodeTree.parent?, hbefore]
  have hparent' : trees.after.parent? a = after.parent := by simp [CodeTree.parent?, hafter]
  rw [hparent, hparent'] at hplace
  exact ⟨before, after, hbefore, hafter, .named hsame.1 hsame.2 hplace⟩

theorem warranted_root (hbefore : trees.before.Coherent) (hafter : trees.after.Coherent)
    {pair : NodeId × NodeId}
    (h : pair ∈ trees.sameNamed trees.before.roots trees.after.roots) :
    trees.Warranted evidence matching pair := by
  obtain ⟨hb, ha, hname⟩ := mem_sameNamed_iff.mp h
  exact warranted_of_sameName hname
    (Or.inl ⟨((hbefore.mem_roots_iff _).mp hb).2, ((hafter.mem_roots_iff _).mp ha).2⟩)

theorem warranted_child (hbefore : trees.before.Coherent) (hafter : trees.after.Coherent)
    {b a : NodeId} (hpair : (b, a) ∈ matching.pairs) {child : NodeId × NodeId}
    (h : child ∈ trees.namedChildren b a) : trees.Warranted evidence matching child := by
  obtain ⟨hb, ha, hname⟩ := mem_sameNamed_iff.mp h
  exact warranted_of_sameName hname
    (Or.inr ⟨b, a, (hbefore.mem_children_iff _ _).mp hb, (hafter.mem_children_iff _ _).mp ha,
      hpair⟩)

theorem allWarranted_cascade (hbefore : trees.before.Coherent) (hafter : trees.after.Coherent)
    {agenda : List (NodeId × NodeId)} (hpairs : trees.AllWarranted evidence matching)
    (hagenda : ∀ pair ∈ agenda, trees.Warranted evidence matching pair) :
    trees.AllWarranted evidence (trees.cascade matching agenda) := by
  fun_induction cascade trees matching agenda with
  | case1 matching => exact hpairs
  | case2 matching b a agenda hfree ih =>
      have hgrows : Grows matching (matching.confirm b a) :=
        Grows.confirm hfree Relation.ReflTransGen.refl
      obtain ⟨hfirst, hrest⟩ := List.forall_mem_cons.mp hagenda
      refine ih ?_ ?_
      · intro pair hpair
        rcases List.mem_append.mp hpair with hpair | hpair
        · exact (hpairs pair hpair).grows hgrows
        · cases List.mem_singleton.mp hpair
          exact hfirst.grows hgrows
      · intro pair hpair
        rcases List.mem_append.mp hpair with hpair | hpair
        · exact warranted_child hbefore hafter (by simp [Matching.confirm]) hpair
        · exact (hrest pair hpair).grows hgrows
  | case3 matching b a agenda hfree ih => exact ih hpairs (List.forall_mem_cons.mp hagenda).2

theorem allWarranted_scan (hbefore : trees.before.Coherent) (hafter : trees.after.Coherent)
    {befores afters : List NodeId} {accept : Matching → NodeId → NodeId → Bool}
    (hsplits : Splits befores afters matching) (hpairs : trees.AllWarranted evidence matching)
    (haccept : ∀ current b a, Splits befores afters current → trees.AllWarranted evidence current →
      current.isFree b a = true → accept current b a = true →
        trees.Warranted evidence current (b, a)) :
    trees.AllWarranted evidence (trees.scan accept matching) := by
  refine (scan_induction (motive := fun current =>
    Splits befores afters current ∧ trees.AllWarranted evidence current) ⟨hsplits, hpairs⟩ ?_).2
  rintro current b a ⟨hcurrent, hwarranted⟩ hfree haccepted
  refine ⟨hcurrent.grows (trees.grows_cascade current _), ?_⟩
  refine allWarranted_cascade hbefore hafter hwarranted ?_
  intro pair hpair
  cases List.mem_singleton.mp hpair
  exact haccept current b a hcurrent hwarranted hfree haccepted

theorem isSome_classify? (b a : NodeId) :
    (trees.classify? evidence matching b a).isSome = (trees.sameKind b a &&
      (trees.sameSignature b a && trees.sameParent matching b a || evidence.similar b a)) := by
  simp only [classify?]
  cases trees.sameKind b a <;> cases trees.sameSignature b a <;>
    cases trees.sameParent matching b a <;> cases evidence.similar b a <;> rfl

theorem classify?_isSome_iff {b a : NodeId} :
    (trees.classify? evidence matching b a).isSome = true ↔ trees.sameKind b a = true ∧
      ((trees.sameSignature b a = true ∧ trees.sameParent matching b a = true) ∨
        evidence.similar b a = true) := by
  rw [isSome_classify?, Bool.and_eq_true, Bool.or_eq_true, Bool.and_eq_true]

theorem warranted_of_classify? {befores afters : List NodeId}
    (h : Splits befores afters matching) {b a : NodeId}
    (hclassified : (trees.classify? evidence matching b a).isSome = true) :
    trees.Warranted evidence matching (b, a) := by
  obtain ⟨hkind, hreason⟩ := classify?_isSome_iff.mp hclassified
  obtain ⟨before, after, hbefore, hafter, hkind⟩ := holds_iff.mp hkind
  rw [beq_iff_eq] at hkind
  refine ⟨before, after, hbefore, hafter, ?_⟩
  rcases hreason with ⟨hsignature, hparent⟩ | hsimilar
  · simp only [sameSignature, sameParent, holds, hbefore, hafter, Bool.and_eq_true, beq_iff_eq]
      at hsignature hparent
    split at hparent
    · next p q hp hq =>
      have hpair := h.partner?_eq_some_iff.mp (beq_iff_eq.mp hparent)
      exact .signed hkind hsignature.1 hsignature.2 ⟨p, q, hp, hq, hpair⟩
    · next hp hq => exact .named (beq_iff_eq.mp hparent) hsignature.1 (Or.inl ⟨hp, hq⟩)
    · cases hparent
  · exact .similar hkind hsimilar

theorem one_lt_matchedChildren_iff (hbefore : trees.before.Coherent) {befores afters : List NodeId}
    (h : Splits befores afters matching) {b a : NodeId} :
    1 < trees.matchedChildren matching b a ↔
      SharesChildren trees (fun p q => (p, q) ∈ matching.pairs) b a := by
  have hnodup : (trees.before.children b).Nodup := (hbefore.children_sorted b).imp Nat.ne_of_lt
  have htest : ∀ child, ((matching.partner? child).any (· ∈ trees.after.children a) = true) ↔
      ∃ d ∈ trees.after.children a, (child, d) ∈ matching.pairs := by
    intro child
    rw [Option.any_eq_true]
    constructor
    · rintro ⟨d, hpartner, hd⟩
      exact ⟨d, of_decide_eq_true hd, h.partner?_eq_some_iff.mp hpartner⟩
    · rintro ⟨d, hd, hpair⟩
      exact ⟨d, h.partner?_eq_some_iff.mpr hpair, decide_eq_true hd⟩
  rw [matchedChildren, List.countP_eq_length_filter,
    ← List.toFinset_card_of_nodup (hnodup.filter _), Finset.one_lt_card_iff]
  simp only [List.mem_toFinset, List.mem_filter, htest, SharesChildren]
  constructor
  · rintro ⟨c, c', ⟨hc, hd⟩, ⟨hc', hd'⟩, hne⟩
    exact ⟨c, hc, c', hc', hne, hd, hd'⟩
  · rintro ⟨c, hc, c', hc', hne, hd, hd'⟩
    exact ⟨c, c', ⟨hc, hd⟩, ⟨hc', hd'⟩, hne⟩

theorem warranted_of_matchedChildren (hbefore : trees.before.Coherent)
    {befores afters : List NodeId} (h : Splits befores afters matching) {b a : NodeId}
    (haccepted : 1 < trees.matchedChildren matching b a ∧ evidence.nameSimilar b a = true) :
    trees.Warranted evidence matching (b, a) := by
  have hshares := (one_lt_matchedChildren_iff hbefore h).mp haccepted.1
  have ⟨c, hc, _, _, _, ⟨d, hd, _⟩, _⟩ := hshares
  obtain ⟨before, hb⟩ := CodeTree.exists_node?_of_mem_children hc
  obtain ⟨after, ha⟩ := CodeTree.exists_node?_of_mem_children hd
  exact ⟨before, after, hb, ha, .inhabited hshares haccepted.2⟩

theorem allWarranted_matchByName (hbefore : trees.before.Coherent)
    (hafter : trees.after.Coherent) (evidence : Evidence) :
    trees.AllWarranted evidence (trees.matchByName (.start trees.before trees.after)) := by
  refine allWarranted_cascade hbefore hafter (by simp [AllWarranted, Matching.start]) ?_
  intro pair hpair
  exact warranted_root hbefore hafter hpair

/-- All pairs have a reason in the sense of `other`, if what the passes accept has one. -/
theorem allWarranted_of_passes (hbefore : trees.before.Coherent) (hafter : trees.after.Coherent)
    {other : Evidence}
    (hsimilar : ∀ current b a, Splits trees.before.levelOrder trees.after.levelOrder current →
      (trees.classify? evidence current b a).isSome = true → trees.Warranted other current (b, a))
    (hchildren : ∀ current b a, Splits trees.before.levelOrder trees.after.levelOrder current →
      trees.AllWarranted other current → current.isFree b a = true →
      1 < trees.matchedChildren current b a ∧ evidence.nameSimilar b a = true →
        trees.Warranted other current (b, a)) :
    trees.AllWarranted other (trees.matching evidence) := by
  have hnamed := splits_matchByName hbefore hafter
  have hpassed := hnamed.grows (trees.grows_scan
    (fun matching b a => (trees.classify? evidence matching b a).isSome) _)
  refine allWarranted_scan hbefore hafter hpassed ?_ ?_
  · refine allWarranted_scan hbefore hafter hnamed ?_ ?_
    · exact allWarranted_matchByName hbefore hafter other
    · intro current b a hcurrent _ _ haccepted
      exact hsimilar current b a hcurrent haccepted
  · intro current b a hcurrent hpairs hfree haccepted
    rw [Bool.and_eq_true, decide_eq_true_eq] at haccepted
    exact hchildren current b a hcurrent hpairs hfree haccepted

theorem allWarranted_matching (hbefore : trees.before.Coherent) (hafter : trees.after.Coherent)
    (evidence : Evidence) : trees.AllWarranted evidence (trees.matching evidence) := by
  refine allWarranted_of_passes hbefore hafter ?_ ?_
  · intro current b a hcurrent haccepted
    exact warranted_of_classify? hcurrent haccepted
  · intro current b a hcurrent _ _ haccepted
    exact warranted_of_matchedChildren hbefore hcurrent haccepted

end TreePair

/-- Every two-sided matching relationship that the finder returns has its reason in the result. -/
theorem every_match_is_justified (before after : Snapshot) (hbefore : before.tree.Built)
    (hafter : after.tree.Built) :
    EveryFinding before after fun evidence found =>
      ∀ relationship ∈ found, relationship.IsMatch →
        ∃ b a x y, relationship.before = some b ∧ relationship.after = some a ∧
          before.tree.node? b = some x ∧ after.tree.node? a = some y ∧
          Justified ⟨before.tree, after.tree⟩ evidence (Relationship.Matched found) b a x y := by
  refine everyFinding_of_changes ?_
  intro evidence relationship hmem hmatch
  have h := @TreePair.splits_matching ⟨before.tree, after.tree⟩ hbefore.coherent hafter.coherent
    evidence
  obtain ⟨b, a, hpair, rfl⟩ := ((TreePair.mem_changes_iff h).mp hmem).of_isMatch hmatch
  obtain ⟨x, y, hx, hy, hjustified⟩ := TreePair.allWarranted_matching hbefore.coherent
    hafter.coherent evidence (b, a) hpair
  exact ⟨b, a, x, y, rfl, rfl, hx, hy,
    hjustified.mono fun _ _ => (TreePair.matched_changes_iff h).mpr⟩

theorem loader_matches_are_justified :
    (loader "parse").tree.Built ∧ (loader "read").tree.Built ∧
      ∃ evidence found, findRelationships {} (loader "parse") (loader "read") = .ok found ∧
        ∀ relationship ∈ found, relationship.IsMatch →
          ∃ b a x y, relationship.before = some b ∧ relationship.after = some a ∧
            (loader "parse").tree.node? b = some x ∧ (loader "read").tree.node? a = some y ∧
            Justified ⟨(loader "parse").tree, (loader "read").tree⟩ evidence
              (Relationship.Matched found) b a x y := by
  obtain ⟨scorer, hscorer⟩ := exists_scorer_loader
  have h := every_match_is_justified (loader "parse") (loader "read") (grown_loader _).built
    (grown_loader _).built
  exact ⟨(grown_loader _).built, (grown_loader _).built, _, h.2 {} scorer (by decide) hscorer⟩

end Lineage
