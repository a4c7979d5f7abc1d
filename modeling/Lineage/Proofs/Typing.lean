import Lineage.Proofs.Finding

namespace Lineage

/-- Two nodes share a parent in the light of a result: they are roots of one namespace, or the
result matches their parents to each other. -/
def SharesParent (found : List Relationship) (before after : Node) : Prop :=
  (before.parent = none ∧ after.parent = none ∧ before.scope = after.scope) ∨
    ∃ p q, before.parent = some p ∧ after.parent = some q ∧ Relationship.Matched found p q

theorem SharesParent.scope_eq {found : List Relationship} {before after : Node}
    (h : SharesParent found before after) (hroot : before.parent = none) :
    before.scope = after.scope := by
  rcases h with ⟨-, -, hscope⟩ | ⟨p, q, hp, -⟩
  · exact hscope
  · cases hroot.symm.trans hp

/-- The kind that a result gives to a pair of nodes says what they have in common. -/
structure WellTyped (found : List Relationship) (before after : Node) (kind : RelationKind) :
    Prop where
  convertType_iff : kind = .convertType ↔ before.kind ≠ after.kind
  same_iff : before.kind = after.kind → (kind = .same ↔
    before.name = after.name ∧ before.params = after.params ∧ SharesParent found before after)
  changeSignature_iff : before.kind = after.kind → (kind = .changeSignature ↔
    before.name = after.name ∧ SharesParent found before after ∧ before.params ≠ after.params)
  move_iff : before.kind = after.kind → (kind = .move ↔
    before.name = after.name ∧ ¬SharesParent found before after)
  rename_iff : before.kind = after.kind → (kind = .rename ↔
    before.name ≠ after.name ∧ SharesParent found before after)
  moveAndRename_iff : before.kind = after.kind → (kind = .moveAndRename ↔
    before.name ≠ after.name ∧ ¬SharesParent found before after)

theorem wellTyped_of_tests {found : List Relationship} {before after : Node}
    {sameKind sameName sameParams sameParent : Bool}
    (hkind : sameKind = true ↔ before.kind = after.kind)
    (hname : sameName = true ↔ before.name = after.name)
    (hparams : sameParams = true ↔ before.params = after.params)
    (hparent : sameParent = true ↔ SharesParent found before after) :
    WellTyped found before after
      (if sameKind then
        if (sameName && sameParams) && sameParent then .same
        else TreePair.renameOrMove sameName sameParent
      else .convertType) := by
  constructor <;> simp only [Ne, ← hkind, ← hname, ← hparams, ← hparent]
  all_goals
    clear hkind hname hparams hparent
    revert sameKind sameName sameParams sameParent
    decide

namespace TreePair

open Matching (Splits)

variable {trees : TreePair} {evidence : Evidence} {matching : Matching}

theorem holds_of_node? {relation : Node → Node → Bool} {b a : NodeId} {before after : Node}
    (hbefore : trees.before.node? b = some before) (hafter : trees.after.node? a = some after) :
    trees.holds relation b a = relation before after := by
  simp [holds, hbefore, hafter]

/-- The parents that typing reads are those that the result matches. -/
theorem sameParent_iff_sharesParent
    (h : Splits trees.before.levelOrder trees.after.levelOrder (trees.matching evidence))
    {b a : NodeId} {before after : Node} (hbefore : trees.before.node? b = some before)
    (hafter : trees.after.node? a = some after) :
    trees.sameParent (trees.matching evidence) b a = true ↔
      SharesParent (trees.changes evidence) before after := by
  rw [sameParent, holds_of_node? hbefore hafter, SharesParent]
  cases before.parent with
  | none => cases after.parent <;> simp
  | some p =>
      cases after.parent with
      | none => simp
      | some q => simp [matched_changes_iff h, ← h.partner?_eq_some_iff]

theorem wellTyped_classify
    (h : Splits trees.before.levelOrder trees.after.levelOrder (trees.matching evidence))
    {b a : NodeId} {before after : Node} (hbefore : trees.before.node? b = some before)
    (hafter : trees.after.node? a = some after) :
    WellTyped (trees.changes evidence) before after
      (trees.classify evidence (trees.matching evidence) b a) := by
  rw [classify_eq, sameKind, sameSignature, sameLocalName, holds_of_node? hbefore hafter,
    holds_of_node? hbefore hafter, holds_of_node? hbefore hafter]
  exact wellTyped_of_tests beq_iff_eq beq_iff_eq beq_iff_eq
    (sameParent_iff_sharesParent h hbefore hafter)

theorem exists_of_same (hbefore : trees.before.Built) (hafter : trees.after.Built)
    {r : Relationship} (hr : r ∈ trees.changes evidence) (hkind : r.kind = .same) :
    ∃ b a before after, r = .pair b a .same ∧
      trees.before.node? b = some before ∧ trees.after.node? a = some after ∧
      before.kind = after.kind ∧ before.name = after.name ∧
      SharesParent (trees.changes evidence) before after := by
  have h := splits_matching hbefore.coherent hafter.coherent evidence
  cases (mem_changes_iff h).mp hr with
  | extracted | moved | inlined | removed | added => cases hkind
  | @paired b a hpair =>
      obtain ⟨before, hb⟩ := CodeTree.exists_node?_of_lt_size
        (hbefore.coherent.lt_size_of_mem_levelOrder (h.fst_mem hpair))
      obtain ⟨after, ha⟩ := CodeTree.exists_node?_of_lt_size
        (hafter.coherent.lt_size_of_mem_levelOrder (h.snd_mem hpair))
      have hkind : trees.classify evidence (trees.matching evidence) b a = .same := hkind
      have htyped := @wellTyped_classify trees evidence h b a before after hb ha
      have hsameKind : before.kind = after.kind := by
        by_contra hne
        cases hkind.symm.trans (htyped.convertType_iff.mpr hne)
      obtain ⟨hname, -, hparent⟩ := (htyped.same_iff hsameKind).mp hkind
      exact ⟨b, a, before, after, by rw [hkind], hb, ha, hsameKind, hname, hparent⟩

end TreePair

/-- Every two-sided matching relationship that the finder returns has the kind that its nodes and
the final matching ask for. -/
theorem matches_are_well_typed (before after : Snapshot) (hbefore : before.tree.Built)
    (hafter : after.tree.Built) :
    EveryFinding before after fun _ found =>
      ∀ relationship ∈ found, relationship.IsMatch →
        ∃ b a, relationship.before.bind before.tree.node? = some b ∧
          relationship.after.bind after.tree.node? = some a ∧
          WellTyped found b a relationship.kind := by
  refine everyFinding_of_changes ?_
  intro evidence relationship hmem hmatch
  have h := @TreePair.splits_matching ⟨before.tree, after.tree⟩ hbefore.coherent hafter.coherent
    evidence
  obtain ⟨b, a, hpair, rfl⟩ := ((TreePair.mem_changes_iff h).mp hmem).of_isMatch hmatch
  obtain ⟨x, hx⟩ := CodeTree.exists_node?_of_lt_size
    (hbefore.coherent.lt_size_of_mem_levelOrder (h.fst_mem hpair))
  obtain ⟨y, hy⟩ := CodeTree.exists_node?_of_lt_size
    (hafter.coherent.lt_size_of_mem_levelOrder (h.snd_mem hpair))
  exact ⟨x, y, hx, hy, TreePair.wellTyped_classify h hx hy⟩

theorem loader_matches_are_well_typed :
    (loader "parse").tree.Built ∧ (loader "read").tree.Built ∧
      ∃ found, findRelationships {} (loader "parse") (loader "read") = .ok found ∧
        ∀ relationship ∈ found, relationship.IsMatch →
          ∃ b a, relationship.before.bind (loader "parse").tree.node? = some b ∧
            relationship.after.bind (loader "read").tree.node? = some a ∧
            WellTyped found b a relationship.kind := by
  obtain ⟨scorer, hscorer⟩ := exists_scorer_loader
  have h := matches_are_well_typed (loader "parse") (loader "read") (grown_loader _).built
    (grown_loader _).built
  exact ⟨(grown_loader _).built, (grown_loader _).built, h.2 {} scorer (by decide) hscorer⟩

end Lineage
