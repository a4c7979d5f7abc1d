import Mathlib.Logic.Relation
import Mathlib.Data.List.Nodup
import Lineage.Matching
import Lineage.Proofs.Construction

/-!
Matchings grow by confirming free pairs, and by nothing else. An invariant of that one step holds of
the three passes together; the one proved here says that a matching splits the nodes of each tree
into those in exactly one pair and the free ones, in level order.
-/

namespace Lineage.Matching

theorem isFree_iff {matching : Matching} {before after : NodeId} :
    matching.isFree before after = true ↔
      before ∈ matching.freeBefore ∧ after ∈ matching.freeAfter := by
  simp [isFree]

/-- One confirmation of a pair of free nodes. -/
def Step (matching next : Matching) : Prop :=
  ∃ before after, matching.isFree before after = true ∧ next = matching.confirm before after

/-- Any number of confirmations. -/
def Grows : Matching → Matching → Prop :=
  Relation.ReflTransGen Step

theorem Grows.confirm {matching next : Matching} {before after : NodeId}
    (hfree : matching.isFree before after = true)
    (h : Grows (matching.confirm before after) next) : Grows matching next :=
  Relation.ReflTransGen.head ⟨before, after, hfree, rfl⟩ h

theorem Grows.pairs_prefix {matching next : Matching} (h : Grows matching next) :
    matching.pairs <+: next.pairs := by
  induction h with
  | refl => exact List.prefix_refl _
  | tail _ hstep ih =>
      obtain ⟨before, after, -, rfl⟩ := hstep
      exact ih.trans (List.prefix_append _ _)

theorem Grows.mem_pairs {matching next : Matching} (h : Grows matching next)
    {pair : NodeId × NodeId} (hpair : pair ∈ matching.pairs) : pair ∈ next.pairs :=
  h.pairs_prefix.subset hpair

theorem Grows.free_subset {matching next : Matching} (h : Grows matching next) :
    next.freeBefore ⊆ matching.freeBefore ∧ next.freeAfter ⊆ matching.freeAfter := by
  induction h with
  | refl => exact ⟨List.Subset.refl _, List.Subset.refl _⟩
  | tail _ hstep ih =>
      obtain ⟨before, after, -, rfl⟩ := hstep
      exact ⟨List.Subset.trans List.erase_subset ih.1, List.Subset.trans List.erase_subset ih.2⟩

theorem Grows.isFree_of_isFree {matching next : Matching} (h : Grows matching next)
    {before after : NodeId} (hfree : next.isFree before after = true) :
    matching.isFree before after = true := by
  rw [isFree_iff] at hfree ⊢
  exact ⟨h.free_subset.1 hfree.1, h.free_subset.2 hfree.2⟩

/-- The nodes that are to be matched on each side are either in exactly one pair or free. -/
structure Splits (befores afters : List NodeId) (matching : Matching) : Prop where
  nodup_befores : befores.Nodup
  nodup_afters : afters.Nodup
  nodup_fst : (matching.pairs.map Prod.fst).Nodup
  nodup_snd : (matching.pairs.map Prod.snd).Nodup
  fst_subset : matching.pairs.map Prod.fst ⊆ befores
  snd_subset : matching.pairs.map Prod.snd ⊆ afters
  freeBefore_eq : matching.freeBefore = befores.filter (· ∉ matching.pairs.map Prod.fst)
  freeAfter_eq : matching.freeAfter = afters.filter (· ∉ matching.pairs.map Prod.snd)

theorem Splits.start {before after : CodeTree} (hbefore : before.Coherent)
    (hafter : after.Coherent) :
    Splits before.levelOrder after.levelOrder (.start before after) where
  nodup_befores := hbefore.nodup_levelOrder
  nodup_afters := hafter.nodup_levelOrder
  nodup_fst := List.nodup_nil
  nodup_snd := List.nodup_nil
  fst_subset := List.nil_subset _
  snd_subset := List.nil_subset _
  freeBefore_eq := by simp [Matching.start]
  freeAfter_eq := by simp [Matching.start]

theorem erase_filter_notMem {all taken : List NodeId} (hall : all.Nodup) (id : NodeId) :
    (all.filter (· ∉ taken)).erase id = all.filter (· ∉ taken ++ [id]) := by
  rw [(hall.filter _).erase_eq_filter, List.filter_filter]
  refine List.filter_congr ?_
  intro other _
  by_cases hother : other = id <;> simp [hother]

theorem append_filter_notMem_perm {all taken : List NodeId} (hall : all.Nodup)
    (htaken : taken.Nodup) (hsubset : taken ⊆ all) :
    (taken ++ all.filter (· ∉ taken)).Perm all := by
  have hdisjoint : List.Disjoint taken (all.filter (· ∉ taken)) := by
    intro id hid hfree
    simp [hid] at hfree
  have hnodup := htaken.append (hall.filter (· ∉ taken)) hdisjoint
  refine (List.perm_ext_iff_of_nodup hnodup hall).mpr ?_
  intro id
  rw [List.mem_append, List.mem_filter, decide_eq_true_eq]
  constructor
  · rintro (hid | hid)
    · exact hsubset hid
    · exact hid.1
  · intro hid
    by_cases hpair : id ∈ taken
    · exact Or.inl hpair
    · exact Or.inr ⟨hid, hpair⟩

namespace Splits

variable {befores afters : List NodeId} {matching : Matching}

theorem mem_freeBefore_iff (h : Splits befores afters matching) {id : NodeId} :
    id ∈ matching.freeBefore ↔ id ∈ befores ∧ id ∉ matching.pairs.map Prod.fst := by
  rw [h.freeBefore_eq]
  simp

theorem mem_freeAfter_iff (h : Splits befores afters matching) {id : NodeId} :
    id ∈ matching.freeAfter ↔ id ∈ afters ∧ id ∉ matching.pairs.map Prod.snd := by
  rw [h.freeAfter_eq]
  simp

theorem confirm (h : Splits befores afters matching) {before after : NodeId}
    (hfree : matching.isFree before after = true) :
    Splits befores afters (matching.confirm before after) := by
  rw [isFree_iff, h.mem_freeBefore_iff, h.mem_freeAfter_iff] at hfree
  obtain ⟨⟨hbefore, hnewBefore⟩, hafter, hnewAfter⟩ := hfree
  refine ⟨h.nodup_befores, h.nodup_afters, ?_, ?_, ?_, ?_, ?_, ?_⟩
  · rw [Matching.confirm, List.map_append]
    exact h.nodup_fst.append (List.nodup_singleton _) (by simpa using hnewBefore)
  · rw [Matching.confirm, List.map_append]
    exact h.nodup_snd.append (List.nodup_singleton _) (by simpa using hnewAfter)
  · rw [Matching.confirm, List.map_append]
    exact List.append_subset.mpr ⟨h.fst_subset, by simpa using hbefore⟩
  · rw [Matching.confirm, List.map_append]
    exact List.append_subset.mpr ⟨h.snd_subset, by simpa using hafter⟩
  · simp only [Matching.confirm, List.map_append]
    rw [h.freeBefore_eq]
    exact erase_filter_notMem h.nodup_befores before
  · simp only [Matching.confirm, List.map_append]
    rw [h.freeAfter_eq]
    exact erase_filter_notMem h.nodup_afters after

theorem grows (h : Splits befores afters matching) {next : Matching}
    (hgrows : Grows matching next) : Splits befores afters next := by
  induction hgrows with
  | refl => exact h
  | tail _ hstep ih =>
      obtain ⟨before, after, hfree, rfl⟩ := hstep
      exact ih.confirm hfree

theorem fst_mem (h : Splits befores afters matching) {pair : NodeId × NodeId}
    (hpair : pair ∈ matching.pairs) : pair.1 ∈ befores :=
  h.fst_subset (List.mem_map_of_mem hpair)

theorem snd_mem (h : Splits befores afters matching) {pair : NodeId × NodeId}
    (hpair : pair ∈ matching.pairs) : pair.2 ∈ afters :=
  h.snd_subset (List.mem_map_of_mem hpair)

theorem before_perm (h : Splits befores afters matching) :
    (matching.pairs.map Prod.fst ++ matching.freeBefore).Perm befores := by
  rw [h.freeBefore_eq]
  exact append_filter_notMem_perm h.nodup_befores h.nodup_fst h.fst_subset

theorem after_perm (h : Splits befores afters matching) :
    (matching.pairs.map Prod.snd ++ matching.freeAfter).Perm afters := by
  rw [h.freeAfter_eq]
  exact append_filter_notMem_perm h.nodup_afters h.nodup_snd h.snd_subset

theorem eq_of_fst_eq (h : Splits befores afters matching) {left right : NodeId × NodeId}
    (hleft : left ∈ matching.pairs) (hright : right ∈ matching.pairs) (heq : left.1 = right.1) :
    left = right :=
  List.inj_on_of_nodup_map h.nodup_fst hleft hright heq

theorem eq_of_snd_eq (h : Splits befores afters matching) {left right : NodeId × NodeId}
    (hleft : left ∈ matching.pairs) (hright : right ∈ matching.pairs) (heq : left.2 = right.2) :
    left = right :=
  List.inj_on_of_nodup_map h.nodup_snd hleft hright heq

theorem not_isFree_of_mem (h : Splits befores afters matching) {pair : NodeId × NodeId}
    (hpair : pair ∈ matching.pairs) : matching.isFree pair.1 pair.2 = false := by
  rw [Bool.eq_false_iff, Ne, isFree_iff, h.mem_freeBefore_iff]
  exact fun hfree => hfree.1.2 (List.mem_map_of_mem hpair)

theorem partner?_eq_some_iff (h : Splits befores afters matching) {before after : NodeId} :
    matching.partner? before = some after ↔ (before, after) ∈ matching.pairs := by
  rw [partner?]
  constructor
  · intro hlookup
    obtain ⟨front, back, heq, -⟩ := List.lookup_eq_some_iff.mp hlookup
    simp [heq]
  · intro hmem
    cases hlookup : matching.pairs.lookup before with
    | none =>
        rw [List.lookup_eq_none_iff] at hlookup
        exact absurd (hlookup _ hmem) (by simp)
    | some other =>
        obtain ⟨front, back, heq, -⟩ := List.lookup_eq_some_iff.mp hlookup
        have hother : (before, other) ∈ matching.pairs := by simp [heq]
        have := h.eq_of_fst_eq hother hmem rfl
        simp_all

end Splits

end Lineage.Matching

namespace Lineage.TreePair

open Matching (Grows Splits)

theorem grows_cascade (trees : TreePair) (matching : Matching) (agenda : List (NodeId × NodeId)) :
    Grows matching (trees.cascade matching agenda) := by
  fun_induction cascade trees matching agenda with
  | case1 matching => exact Relation.ReflTransGen.refl
  | case2 matching before after agenda hfree ih => exact ih.confirm hfree
  | case3 matching before after agenda _ ih => exact ih

/-- What comes first on the agenda is through, with all that it brings along, before the rest. -/
theorem cascade_append (trees : TreePair) (matching : Matching)
    (front back : List (NodeId × NodeId)) :
    trees.cascade matching (front ++ back) = trees.cascade (trees.cascade matching front) back := by
  fun_induction cascade trees matching front with
  | case1 matching => rfl
  | case2 matching before after front hfree ih =>
      rw [List.cons_append, cascade, if_pos hfree, ← List.append_assoc, ih]
  | case3 matching before after front hfree ih =>
      rw [List.cons_append, cascade, if_neg hfree, ih]

section Short

variable {trees : TreePair} {matching : Matching}

theorem cascade_eq_self {agenda : List (NodeId × NodeId)}
    (h : ∀ pair ∈ agenda, matching.isFree pair.1 pair.2 = false) :
    trees.cascade matching agenda = matching := by
  induction agenda with
  | nil => rw [cascade]
  | cons pair rest ih =>
      obtain ⟨hfirst, hrest⟩ := List.forall_mem_cons.mp h
      rw [cascade, if_neg (by simp [hfirst]), ih hrest]

theorem cascade_eq_confirm {b a : NodeId} (hfree : matching.isFree b a = true)
    (hchildren : ∀ child ∈ trees.namedChildren b a,
      (matching.confirm b a).isFree child.1 child.2 = false) :
    trees.cascade matching [(b, a)] = matching.confirm b a := by
  rw [cascade, if_pos hfree, List.append_nil, cascade_eq_self hchildren]

end Short

/-- A pass keeps what a cascade keeps that starts from one acceptable pair of free nodes. -/
theorem scan_induction {trees : TreePair} {accept : Matching → NodeId → NodeId → Bool}
    {motive : Matching → Prop} {matching : Matching} (hstart : motive matching)
    (hcascade : ∀ current before after, motive current → current.isFree before after = true →
      accept current before after = true → motive (trees.cascade current [(before, after)])) :
    motive (trees.scan accept matching) := by
  refine List.foldlRecOn _ _ hstart ?_
  intro current hcurrent before _
  split
  · next hbefore =>
    split
    · next after hfind =>
      refine hcascade current before after hcurrent ?_ (List.find?_some hfind)
      exact Matching.isFree_iff.mpr ⟨hbefore, List.mem_of_find?_eq_some hfind⟩
    · exact hcurrent
  · exact hcurrent

theorem grows_scan (trees : TreePair) (accept : Matching → NodeId → NodeId → Bool)
    (matching : Matching) : Grows matching (trees.scan accept matching) := by
  refine scan_induction (motive := Grows matching) Relation.ReflTransGen.refl ?_
  intro current before after hcurrent _ _
  exact hcurrent.trans (trees.grows_cascade current _)

theorem grows_matchByName (trees : TreePair) (evidence : Evidence) :
    Grows (trees.matchByName (.start trees.before trees.after)) (trees.matching evidence) :=
  (trees.grows_scan _ _).trans (trees.grows_scan _ _)

theorem grows_matching (trees : TreePair) (evidence : Evidence) :
    Grows (.start trees.before trees.after) (trees.matching evidence) :=
  (trees.grows_cascade _ _).trans (trees.grows_matchByName evidence)

theorem splits_matchByName {trees : TreePair} (hbefore : trees.before.Coherent)
    (hafter : trees.after.Coherent) :
    Splits trees.before.levelOrder trees.after.levelOrder
      (trees.matchByName (.start trees.before trees.after)) :=
  (Splits.start hbefore hafter).grows (trees.grows_cascade _ _)

theorem splits_matching {trees : TreePair} (hbefore : trees.before.Coherent)
    (hafter : trees.after.Coherent) (evidence : Evidence) :
    Splits trees.before.levelOrder trees.after.levelOrder (trees.matching evidence) :=
  (Splits.start hbefore hafter).grows (trees.grows_matching evidence)

section Agenda

variable {trees : TreePair} {befores afters : List NodeId} {matching : Matching}
  {agenda : List (NodeId × NodeId)}

theorem not_isFree_cascade (hsplits : Splits befores afters matching) {pair : NodeId × NodeId}
    (hpair : pair ∈ agenda) : (trees.cascade matching agenda).isFree pair.1 pair.2 = false := by
  fun_induction cascade trees matching agenda with
  | case1 matching => simp at hpair
  | case2 matching before after agenda hfree ih =>
      have hnext := hsplits.confirm hfree
      rcases List.mem_cons.mp hpair with rfl | hpair
      · have hgrows := trees.grows_cascade (matching.confirm before after)
          (trees.namedChildren before after ++ agenda)
        exact (hnext.grows hgrows).not_isFree_of_mem (hgrows.mem_pairs (by simp [Matching.confirm]))
      · exact ih hnext (List.mem_append_right _ hpair)
  | case3 matching before after agenda hfree ih =>
      rcases List.mem_cons.mp hpair with rfl | hpair
      · rw [Bool.eq_false_iff]
        exact fun hfinal => hfree ((trees.grows_cascade _ _).isFree_of_isFree hfinal)
      · exact ih hsplits hpair

/-- A cascade leaves no equally named children of a confirmed pair free together, if at its start
those that are free together are on the agenda. -/
theorem saturated_cascade (hsplits : Splits befores afters matching)
    (hagenda : ∀ pair ∈ matching.pairs, ∀ child ∈ trees.namedChildren pair.1 pair.2,
      matching.isFree child.1 child.2 = false ∨ child ∈ agenda) :
    ∀ pair ∈ (trees.cascade matching agenda).pairs,
      ∀ child ∈ trees.namedChildren pair.1 pair.2,
        (trees.cascade matching agenda).isFree child.1 child.2 = false := by
  fun_induction cascade trees matching agenda with
  | case1 matching =>
      intro pair hpair child hchild
      simpa using hagenda pair hpair child hchild
  | case2 matching before after agenda hfree ih =>
      refine ih (hsplits.confirm hfree) ?_
      intro pair hpair child hchild
      rcases List.mem_append.mp hpair with hpair | hpair
      · rcases hagenda pair hpair child hchild with hold | hold
        · left
          rw [Bool.eq_false_iff] at hold ⊢
          exact fun hnew => hold
            ((Grows.confirm hfree Relation.ReflTransGen.refl).isFree_of_isFree hnew)
        · rcases List.mem_cons.mp hold with rfl | hold
          · exact Or.inl ((hsplits.confirm hfree).not_isFree_of_mem (by simp [Matching.confirm]))
          · exact Or.inr (List.mem_append_right _ hold)
      · cases List.mem_singleton.mp hpair
        exact Or.inr (List.mem_append_left _ hchild)
  | case3 matching before after agenda hfree ih =>
      refine ih hsplits ?_
      intro pair hpair child hchild
      rcases hagenda pair hpair child hchild with hold | hold
      · exact Or.inl hold
      · rcases List.mem_cons.mp hold with rfl | hold
        · exact Or.inl (Bool.eq_false_iff.mpr hfree)
        · exact Or.inr hold

end Agenda

end Lineage.TreePair
