import Mathlib.Data.List.Forall2
import Lineage.Proofs.Finding

/-!
Trees that are copies of each other. The cascade from the roots confirms the pairs of a node and its
copy and no other ones, however many nodes share a name: a pair of two others always comes after a
pair that takes one of its nodes away.
-/

namespace Lineage.TreePair

open Matching (Splits Grows)

theorem sameNamed_cons_append {trees : TreePair} {b a : NodeId} {befores front afters : List NodeId}
    (hname : trees.sameName b a = true) :
    trees.sameNamed (b :: befores) (front ++ a :: afters) =
      (front.filter (trees.sameName b)).map (b, ·) ++
        ((b, a) :: (afters.filter (trees.sameName b)).map (b, ·) ++
          trees.sameNamed befores (front ++ [a] ++ afters)) := by
  simp [sameNamed, hname]

section Screening

variable (related : NodeId → NodeId → Prop)

/-- An agenda in which each pair that is not related shares a node with a related pair before it, or
with a pair that is `done`. -/
def Screened (done : NodeId × NodeId → Prop) : (agenda : List (NodeId × NodeId)) → Prop
  | [] => True
  | pair :: agenda =>
    (related pair.1 pair.2 ∨ ∃ other, done other ∧ (other.1 = pair.1 ∨ other.2 = pair.2)) ∧
      Screened (fun other => done other ∨ other = pair ∧ related pair.1 pair.2) agenda

variable {related} {done done' : NodeId × NodeId → Prop}

theorem Screened.mono {agenda : List (NodeId × NodeId)} (h : Screened related done agenda)
    (hdone : ∀ pair, done pair → done' pair) : Screened related done' agenda := by
  induction agenda generalizing done done' with
  | nil => trivial
  | cons pair agenda ih =>
      obtain ⟨hpair, hagenda⟩ := h
      refine ⟨hpair.imp_right ?_, ih hagenda ?_⟩
      · rintro ⟨other, hother, hshared⟩
        exact ⟨other, hdone other hother, hshared⟩
      · intro other hother
        exact hother.imp_left (hdone other)

theorem Screened.append {front back : List (NodeId × NodeId)} (hfront : Screened related done front)
    (hback : Screened related
      (fun other => done other ∨ other ∈ front ∧ related other.1 other.2) back) :
    Screened related done (front ++ back) := by
  induction front generalizing done with
  | nil => exact hback.mono fun pair hpair => hpair.elim id fun hmem => by cases hmem.1
  | cons pair front ih =>
      refine ⟨hfront.1, ih hfront.2 (hback.mono ?_)⟩
      rintro other (hdone | ⟨hmem, hrelated⟩)
      · exact Or.inl (Or.inl hdone)
      · rcases List.mem_cons.mp hmem with rfl | hmem
        · exact Or.inl (Or.inr ⟨rfl, hrelated⟩)
        · exact Or.inr ⟨hmem, hrelated⟩

theorem screened_of_related {agenda : List (NodeId × NodeId)}
    (h : ∀ pair ∈ agenda, related pair.1 pair.2) : Screened related done agenda := by
  induction agenda generalizing done with
  | nil => trivial
  | cons pair agenda ih =>
      obtain ⟨hpair, hagenda⟩ := List.forall_mem_cons.mp h
      exact ⟨Or.inl hpair, ih hagenda⟩

theorem screened_of_done {agenda : List (NodeId × NodeId)}
    (h : ∀ pair ∈ agenda, ∃ other, done other ∧ (other.1 = pair.1 ∨ other.2 = pair.2)) :
    Screened related done agenda := by
  induction agenda generalizing done with
  | nil => trivial
  | cons pair agenda ih =>
      obtain ⟨hpair, hagenda⟩ := List.forall_mem_cons.mp h
      refine ⟨Or.inr hpair, ih ?_⟩
      intro other hother
      obtain ⟨earlier, hearlier, hshared⟩ := hagenda other hother
      exact ⟨earlier, Or.inl hearlier, hshared⟩

/-- The equally named pairs of two lists that go together are screened. The nodes of `front` are
those whose pairs are done. -/
theorem screened_sameNamed {trees : TreePair}
    (hname : ∀ b a, related b a → trees.sameName b a = true) {befores afters : List NodeId}
    (h : List.Forall₂ related befores afters) (front : List NodeId)
    (hfront : ∀ a ∈ front, ∃ b, done (b, a)) :
    Screened related done (trees.sameNamed befores (front ++ afters)) := by
  induction h generalizing front done with
  | nil => trivial
  | @cons b a befores afters hrelated _ ih =>
      rw [sameNamed_cons_append (hname b a hrelated)]
      refine Screened.append (screened_of_done ?_) (Screened.append ⟨Or.inl hrelated, ?_⟩ ?_)
      · intro pair hpair
        obtain ⟨other, hother, rfl⟩ := List.mem_map.mp hpair
        obtain ⟨earlier, hearlier⟩ := hfront other (List.mem_filter.mp hother).1
        exact ⟨_, hearlier, Or.inr rfl⟩
      · refine screened_of_done ?_
        intro pair hpair
        obtain ⟨other, -, rfl⟩ := List.mem_map.mp hpair
        exact ⟨(b, a), Or.inr ⟨rfl, hrelated⟩, Or.inl rfl⟩
      · refine ih (front ++ [a]) ?_
        intro other hother
        rcases List.mem_append.mp hother with hother | hother
        · obtain ⟨earlier, hearlier⟩ := hfront other hother
          exact ⟨earlier, Or.inl (Or.inl hearlier)⟩
        · rw [List.mem_singleton.mp hother]
          exact ⟨b, Or.inr ⟨List.mem_cons_self, hrelated⟩⟩

end Screening

/-- Two nodes that differ in their place only. -/
structure Alike (related : NodeId → NodeId → Prop) (before after : Node) : Prop where
  element_eq : before.toElement = after.toElement
  parent : Option.Rel related before.parent after.parent
  children : List.Forall₂ related before.children after.children

/-- Two trees that are copies of each other: every node has one copy, and roots of the same name are
copies. -/
structure Copies (trees : TreePair) (related : NodeId → NodeId → Prop) : Prop where
  before_grown : trees.before.Grown
  after_grown : trees.after.Grown
  exists_alike : ∀ b a, related b a → ∃ x y, trees.before.node? b = some x ∧
    trees.after.node? a = some y ∧ Alike related x y
  after_unique : ∀ b a a', related b a → related b a' → a = a'
  before_unique : ∀ b b' a, related b a → related b' a → b = b'
  exists_after : ∀ b < trees.before.size, ∃ a, related b a
  exists_before : ∀ a < trees.after.size, ∃ b, related b a
  roots : ∀ b ∈ trees.before.roots, ∀ a ∈ trees.after.roots,
    trees.sameName b a = true → related b a

theorem rel_cases {related : NodeId → NodeId → Prop} {left right : Option NodeId}
    (h : Option.Rel related left right) :
    (left = none ∧ right = none) ∨ ∃ p q, left = some p ∧ right = some q ∧ related p q := by
  cases h with
  | none => exact Or.inl ⟨rfl, rfl⟩
  | some hrelated => exact Or.inr ⟨_, _, rfl, rfl, hrelated⟩

namespace Copies

variable {trees : TreePair} {related : NodeId → NodeId → Prop} {b a : NodeId}

theorem sameName (h : Copies trees related) (hrelated : related b a) :
    trees.sameName b a = true := by
  obtain ⟨x, y, hx, hy, halike⟩ := h.exists_alike b a hrelated
  have hname : x.name = y.name := congrArg Element.name halike.element_eq
  have hscope : x.scope = y.scope := congrArg Element.scope halike.element_eq
  simp [TreePair.sameName, holds, hx, hy, hname, hscope]

theorem mem_levelOrder (h : Copies trees related) (hrelated : related b a) :
    b ∈ trees.before.levelOrder ∧ a ∈ trees.after.levelOrder := by
  obtain ⟨x, y, hx, hy, -⟩ := h.exists_alike b a hrelated
  exact ⟨h.before_grown.mem_levelOrder_iff.mpr (CodeTree.lt_size_of_node? hx),
    h.after_grown.mem_levelOrder_iff.mpr (CodeTree.lt_size_of_node? hy)⟩

section Cascade

variable {matching : Matching} {agenda : List (NodeId × NodeId)}

theorem mem_pairs_of_not_isFree (h : Copies trees related)
    (hsplits : Splits trees.before.levelOrder trees.after.levelOrder matching)
    (hpairs : ∀ pair ∈ matching.pairs, related pair.1 pair.2) (hrelated : related b a)
    (hfree : matching.isFree b a = false) : (b, a) ∈ matching.pairs := by
  obtain ⟨hb, ha⟩ := h.mem_levelOrder hrelated
  rw [Bool.eq_false_iff, Ne, Matching.isFree_iff, hsplits.mem_freeBefore_iff,
    hsplits.mem_freeAfter_iff] at hfree
  by_cases hbefore : b ∈ matching.pairs.map Prod.fst
  · obtain ⟨⟨_, a'⟩, hpair, rfl⟩ := List.mem_map.mp hbefore
    rwa [h.after_unique _ _ _ hrelated (hpairs _ hpair)]
  · by_cases hafter : a ∈ matching.pairs.map Prod.snd
    · obtain ⟨⟨b', _⟩, hpair, rfl⟩ := List.mem_map.mp hafter
      rwa [h.before_unique _ _ _ hrelated (hpairs _ hpair)]
    · exact absurd ⟨⟨hb, hbefore⟩, ha, hafter⟩ hfree

theorem related_of_mem_cascade (h : Copies trees related)
    (hsplits : Splits trees.before.levelOrder trees.after.levelOrder matching)
    (hpairs : ∀ pair ∈ matching.pairs, related pair.1 pair.2)
    (hagenda : Screened related (· ∈ matching.pairs) agenda) :
    ∀ pair ∈ (trees.cascade matching agenda).pairs, related pair.1 pair.2 := by
  fun_induction cascade trees matching agenda with
  | case1 matching => exact hpairs
  | case2 matching b a agenda hfree ih =>
      obtain ⟨hscreened, hrest⟩ := hagenda
      have hrelated : related b a := by
        refine hscreened.resolve_right ?_
        rintro ⟨other, hother, hshared⟩
        rw [Matching.isFree_iff, hsplits.mem_freeBefore_iff, hsplits.mem_freeAfter_iff] at hfree
        rcases hshared with rfl | rfl
        · exact hfree.1.2 (List.mem_map_of_mem hother)
        · exact hfree.2.2 (List.mem_map_of_mem hother)
      obtain ⟨x, y, hx, hy, halike⟩ := h.exists_alike b a hrelated
      have hchildren : List.Forall₂ related (trees.before.children b) (trees.after.children a) := by
        simpa [CodeTree.children, hx, hy] using halike.children
      refine ih (hsplits.confirm hfree) ?_ (Screened.append ?_ (hrest.mono ?_))
      · intro pair hpair
        rcases List.mem_append.mp hpair with hpair | hpair
        · exact hpairs pair hpair
        · rw [List.mem_singleton.mp hpair]
          exact hrelated
      · exact screened_sameNamed (fun _ _ => h.sameName) hchildren [] (by simp)
      · rintro pair (hpair | ⟨rfl, -⟩)
        · exact Or.inl (List.mem_append_left _ hpair)
        · exact Or.inl (List.mem_append_right _ (List.mem_singleton_self _))
  | case3 matching b a agenda hfree ih =>
      obtain ⟨-, hrest⟩ := hagenda
      refine ih hsplits hpairs (hrest.mono ?_)
      rintro pair (hpair | ⟨rfl, hrelated⟩)
      · exact hpair
      · exact h.mem_pairs_of_not_isFree hsplits hpairs hrelated (Bool.eq_false_iff.mpr hfree)

end Cascade

theorem parent_related (h : Copies trees related) (hrelated : related b a) :
    Option.Rel related (trees.before.parent? b) (trees.after.parent? a) := by
  obtain ⟨x, y, hx, hy, halike⟩ := h.exists_alike b a hrelated
  simpa [CodeTree.parent?, hx, hy] using halike.parent

theorem mem_sameNamed_of_related (h : Copies trees related) (hrelated : related b a)
    {befores afters : List NodeId} (hb : b ∈ befores) (ha : a ∈ afters) :
    (b, a) ∈ trees.sameNamed befores afters := by
  refine List.mem_flatMap.mpr ⟨b, hb, List.mem_map.mpr ⟨a, ?_, rfl⟩⟩
  exact List.mem_filter.mpr ⟨ha, h.sameName hrelated⟩

theorem mem_matchByName_iff (h : Copies trees related) {pair : NodeId × NodeId} :
    pair ∈ (trees.matchByName (.start trees.before trees.after)).pairs ↔
      related pair.1 pair.2 := by
  have hbefore := h.before_grown.built.coherent
  have hafter := h.after_grown.built.coherent
  have hstart := Splits.start hbefore hafter
  have hfinal := splits_matchByName hbefore hafter
  have hpairs : ∀ pair ∈ (trees.matchByName (.start trees.before trees.after)).pairs,
      related pair.1 pair.2 := by
    refine h.related_of_mem_cascade hstart (by simp [Matching.start]) (screened_of_related ?_)
    intro pair hpair
    obtain ⟨b, hb, hpair⟩ := List.mem_flatMap.mp hpair
    obtain ⟨a, ha, rfl⟩ := List.mem_map.mp hpair
    obtain ⟨ha, hname⟩ := List.mem_filter.mp ha
    exact h.roots b hb a ha hname
  refine ⟨hpairs pair, ?_⟩
  obtain ⟨b, a⟩ := pair
  -- From the roots down: the pair of the parents brings that of the children onto the agenda.
  induction b using Nat.strongRecOn generalizing a with
  | ind b ih =>
      intro hrelated
      obtain ⟨x, y, hx, hy, -⟩ := h.exists_alike b a hrelated
      refine h.mem_pairs_of_not_isFree hfinal hpairs hrelated ?_
      rcases rel_cases (h.parent_related hrelated) with
        ⟨hparent, hparent'⟩ | ⟨p, q, hparent, hparent', hrelated'⟩
      · refine not_isFree_cascade hstart (h.mem_sameNamed_of_related hrelated ?_ ?_)
        · exact (hbefore.mem_roots_iff b).mpr ⟨CodeTree.lt_size_of_node? hx, hparent⟩
        · exact (hafter.mem_roots_iff a).mpr ⟨CodeTree.lt_size_of_node? hy, hparent'⟩
      · have hmem := ih p (h.before_grown.parent_lt hparent) q hrelated'
        refine saturated_cascade hstart (by simp [Matching.start]) (p, q) hmem (b, a)
          (h.mem_sameNamed_of_related hrelated ?_ ?_)
        · exact (hbefore.mem_children_iff p b).mpr hparent
        · exact (hafter.mem_children_iff q a).mpr hparent'

section Result

variable (evidence : Evidence)

theorem splits (h : Copies trees related) :
    Splits trees.before.levelOrder trees.after.levelOrder (trees.matching evidence) :=
  splits_matching h.before_grown.built.coherent h.after_grown.built.coherent evidence

theorem mem_matching_iff (h : Copies trees related) (pair : NodeId × NodeId) :
    pair ∈ (trees.matching evidence).pairs ↔ related pair.1 pair.2 := by
  have hgrows := trees.grows_matchByName evidence
  constructor
  · intro hpair
    have hsize := h.before_grown.mem_levelOrder_iff.mp ((h.splits evidence).fst_mem hpair)
    obtain ⟨a, hrelated⟩ := h.exists_after pair.1 hsize
    have hcopy : (pair.1, a) ∈ (trees.matching evidence).pairs :=
      hgrows.mem_pairs (h.mem_matchByName_iff.mpr hrelated)
    rw [(h.splits evidence).eq_of_fst_eq hpair hcopy rfl]
    exact hrelated
  · intro hrelated
    exact hgrows.mem_pairs (h.mem_matchByName_iff.mpr hrelated)

theorem newNodes_eq_nil (h : Copies trees related) :
    trees.newNodes (trees.matching evidence) = [] := by
  refine List.filter_eq_nil_iff.mpr ?_
  intro a ha
  obtain ⟨b, hrelated⟩ := h.exists_before a (h.after_grown.mem_levelOrder_iff.mp ha)
  have hmem : a ∈ (trees.matching evidence).pairs.map Prod.snd :=
    List.mem_map.mpr ⟨(b, a), (h.mem_matching_iff evidence _).mpr hrelated, rfl⟩
  simpa using hmem

theorem oldNodes_eq_nil (h : Copies trees related) :
    trees.oldNodes (trees.matching evidence) = [] := by
  refine List.filter_eq_nil_iff.mpr ?_
  intro b hb
  obtain ⟨a, hrelated⟩ := h.exists_after b (h.before_grown.mem_levelOrder_iff.mp hb)
  have hmem : b ∈ (trees.matching evidence).pairs.map Prod.fst :=
    List.mem_map.mpr ⟨(b, a), (h.mem_matching_iff evidence _).mpr hrelated, rfl⟩
  simpa using hmem

theorem classify_eq_same (h : Copies trees related) (hrelated : related b a) :
    trees.classify evidence (trees.matching evidence) b a = .same := by
  obtain ⟨x, y, hx, hy, helement, hparent, -⟩ := h.exists_alike b a hrelated
  have hname : x.name = y.name := congrArg Element.name helement
  have hscope : x.scope = y.scope := congrArg Element.scope helement
  have hkind : x.kind = y.kind := congrArg Element.kind helement
  have hparams : x.params = y.params := congrArg Element.params helement
  have hsame : trees.sameParent (trees.matching evidence) b a = true := by
    rw [sameParent, holds, hx, hy]
    rcases rel_cases hparent with ⟨hp, hq⟩ | ⟨p, q, hp, hq, hrelated'⟩
    · simpa [hp, hq] using hscope
    · have hpair := (h.mem_matching_iff evidence (p, q)).mpr hrelated'
      simpa [hp, hq] using (h.splits evidence).partner?_eq_some_iff.mpr hpair
  rw [classify_eq]
  simp [sameKind, sameSignature, holds, hx, hy, hkind, hname, hparams, hsame]

theorem mem_changes_iff (h : Copies trees related) {relationship : Relationship} :
    relationship ∈ trees.changes evidence ↔
      ∃ b a, related b a ∧ relationship = .pair b a .same := by
  rw [TreePair.mem_changes_iff (h.splits evidence)]
  constructor
  · intro harises
    cases harises with
    | @paired b a hpair =>
        have hrelated := (h.mem_matching_iff evidence _).mp hpair
        exact ⟨b, a, hrelated, by rw [h.classify_eq_same evidence hrelated]⟩
    | extracted _ hnew | moved _ hnew | added hnew =>
        rw [h.newNodes_eq_nil evidence] at hnew
        cases hnew
    | inlined _ hold | removed hold =>
        rw [h.oldNodes_eq_nil evidence] at hold
        cases hold
  · rintro ⟨b, a, hrelated, rfl⟩
    rw [← h.classify_eq_same evidence hrelated]
    exact .paired ((h.mem_matching_iff evidence _).mpr hrelated)

end Result

end Copies

end Lineage.TreePair
