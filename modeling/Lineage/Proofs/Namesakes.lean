import Lineage.Proofs.Confirmation
import Lineage.Proofs.PreOrder

/-!
The pass by names as a rule about rows of nodes. In two rows, the `k`-th node under a key is paired
with the `k`-th node under it, for as long as both have one; the same goes for the children of each
pair. The pass goes through all pairs of namesakes and is held back only by what is taken, but what
it confirms are the pairs of that rule, each one right before those of its children.
-/

namespace Lineage

namespace CodeTree

/-- Namespace and name of a node. -/
def key? (tree : CodeTree) (id : NodeId) : Option (Option String × String) :=
  (tree.node? id).map fun node => (node.scope, node.name)

/-- The nodes of a list under a key, in their order. -/
def under (tree : CodeTree) (key : Option String × String) (ids : List NodeId) : List NodeId :=
  ids.filter fun id => tree.key? id = some key

section Under

variable {tree : CodeTree} {key : Option String × String} {id : NodeId} {ids : List NodeId}

theorem under_cons_of_key (h : tree.key? id = some key) :
    tree.under key (id :: ids) = id :: tree.under key ids :=
  List.filter_cons_of_pos (by simpa using h)

theorem under_cons_of_ne (h : tree.key? id ≠ some key) :
    tree.under key (id :: ids) = tree.under key ids :=
  List.filter_cons_of_neg (by simpa using h)

theorem under_erase : tree.under key (ids.erase id) = (tree.under key ids).erase id :=
  List.erase_filter.symm

theorem under_erase_of_ne (h : tree.key? id ≠ some key) :
    tree.under key (ids.erase id) = tree.under key ids := by
  rw [under_erase]
  apply List.erase_of_not_mem
  intro hmem
  exact h (by simpa using List.of_mem_filter hmem)

end Under

/-- A row whose nodes are free, with all that is below them. -/
structure FreeRow (tree : CodeTree) (free row order : List NodeId) : Prop where
  pre_order : tree.PreOrder row order
  nodup : order.Nodup
  subset : order ⊆ free

section FreeRow

variable {tree : CodeTree} {free row order below after : List NodeId}

theorem FreeRow.part (h : tree.FreeRow free row order) {row' order' : List NodeId}
    (horder : tree.PreOrder row' order') (hsublist : order'.Sublist order) :
    tree.FreeRow free row' order' :=
  ⟨horder, hsublist.nodup h.nodup, fun _ hid => h.subset (hsublist.subset hid)⟩

theorem FreeRow.take (h : tree.FreeRow free row order) {id : NodeId} (hid : id ∈ row) :
    ∃ below others, tree.FreeRow free (tree.children id) below ∧
      tree.FreeRow free (row.erase id) others ∧ order.Perm (id :: (below ++ others)) := by
  obtain ⟨front, back, -, hrow, herase⟩ := List.exists_erase_eq hid
  have horder := h.pre_order
  rw [hrow] at horder
  obtain ⟨first, second, hfirst, hsecond, rfl⟩ := horder.exists_append
  cases hsecond with
  | @cons _ _ below after hbelow hafter =>
      have hothers : tree.PreOrder (row.erase id) (first ++ after) := by
        rw [herase]
        exact hfirst.append hafter
      refine ⟨below, first ++ after, h.part hbelow ?_, h.part hothers ?_, ?_⟩
      · exact ((List.sublist_append_left below after).cons id).trans
          (List.sublist_append_right first _)
      · exact ((List.sublist_append_right below after).cons id).append_left first
      · refine List.perm_middle.trans (List.Perm.cons id ?_)
        rw [← List.append_assoc, ← List.append_assoc]
        exact List.perm_append_comm.append_right after

theorem FreeRow.stays (h : tree.FreeRow free row order) {done free' : List NodeId}
    (hdone : done.Disjoint order) (hfree : ∀ id ∈ free, id ∉ done → id ∈ free') :
    tree.FreeRow free' row order := by
  refine ⟨h.pre_order, h.nodup, ?_⟩
  intro id hid
  exact hfree id (h.subset hid) fun hmem => hdone hmem hid

theorem disjoint_of_nodup_cons {id : NodeId} (h : (id :: (below ++ after)).Nodup) :
    [id].Disjoint below ∧ ∀ done ⊆ below, (id :: done).Disjoint after := by
  constructor
  · exact List.singleton_disjoint.mpr fun hmem => h.notMem (List.mem_append_left after hmem)
  · intro done hdone
    have hdisjoint := @List.disjoint_of_nodup_append _ (id :: below) after h
    exact List.disjoint_of_subset_left (List.cons_subset_cons id hdone) hdisjoint

end FreeRow

end CodeTree

namespace TreePair

open Matching (Grows Splits)

section Rows

variable (trees : TreePair)

/-- The counterpart of a node in two rows: the `k`-th one under its key, if the node itself is the
`k`-th. -/
def counterpart? (befores afters : List NodeId) (b : NodeId) : Option NodeId :=
  (trees.before.key? b).bind fun key =>
    (trees.after.under key afters)[(trees.before.under key befores).idxOf b]?

/-- The nodes of a row with their counterparts. -/
def pairUp (befores afters : List NodeId) : List (NodeId × NodeId) :=
  befores.filterMap fun b => (trees.counterpart? befores afters b).map (b, ·)

/-- The pairs of a row, each one right before those of its children. -/
inductive Aligned : (row order : List (NodeId × NodeId)) → Prop
  | nil : Aligned [] []
  | cons {b a : NodeId} {rest below after : List (NodeId × NodeId)} :
      Aligned (trees.pairUp (trees.before.children b) (trees.after.children a)) below →
      Aligned rest after → Aligned ((b, a) :: rest) ((b, a) :: (below ++ after))

variable {trees} {b a : NodeId} {rest afters others : List NodeId}

theorem Aligned.unique {row order order' : List (NodeId × NodeId)} (h : trees.Aligned row order)
    (h' : trees.Aligned row order') : order = order' := by
  induction h generalizing order' with
  | nil =>
      cases h'
      rfl
  | cons _ _ ihBelow ihAfter =>
      cases h' with
      | cons hbelow hafter => rw [ihBelow hbelow, ihAfter hafter]

theorem filter_sameName (b : NodeId) (afters : List NodeId) :
    afters.filter (trees.sameName b) =
      ((trees.before.key? b).map (trees.after.under · afters)).getD [] := by
  rw [CodeTree.key?]
  cases hnode : trees.before.node? b with
  | none => simp [sameName, holds, hnode]
  | some node =>
      apply List.filter_congr
      intro a _
      rw [sameName, holds, hnode, CodeTree.key?, Bool.eq_iff_iff]
      cases trees.after.node? a with
      | none => simp
      | some other =>
          simp only [Option.map_some, Bool.and_eq_true, beq_iff_eq, decide_eq_true_eq,
            Option.some.injEq, Prod.mk.injEq]
          exact and_congr eq_comm eq_comm

theorem pairUp_cons_of_nil (hnone : afters.filter (trees.sameName b) = []) :
    trees.pairUp (b :: rest) afters = trees.pairUp rest afters := by
  rw [filter_sameName] at hnone
  have hown : trees.counterpart? (b :: rest) afters b = none := by
    rw [counterpart?, Option.bind_eq_none_iff]
    intro key hkey
    rw [hkey, Option.map_some, Option.getD_some] at hnone
    rw [hnone, List.getElem?_nil]
  have hothers : ∀ other ∈ rest,
      trees.counterpart? (b :: rest) afters other = trees.counterpart? rest afters other := by
    intro other _
    rw [counterpart?, counterpart?]
    apply Option.bind_congr
    intro key _
    by_cases hkey : trees.before.key? b = some key
    · rw [hkey, Option.map_some, Option.getD_some] at hnone
      rw [hnone, List.getElem?_nil, List.getElem?_nil]
    · rw [CodeTree.under_cons_of_ne hkey]
  rw [pairUp, List.filterMap_cons_none (by rw [hown]; rfl)]
  apply List.filterMap_congr
  intro other hother
  rw [hothers other hother]

theorem pairUp_cons_of_cons (hb : b ∉ rest)
    (hfirst : afters.filter (trees.sameName b) = a :: others) :
    trees.pairUp (b :: rest) afters = (b, a) :: trees.pairUp rest (afters.erase a) := by
  rw [filter_sameName] at hfirst
  obtain ⟨key, hkey⟩ : ∃ key, trees.before.key? b = some key := by
    cases hkey : trees.before.key? b with
    | none => simp [hkey] at hfirst
    | some key => exact ⟨key, rfl⟩
  rw [hkey, Option.map_some, Option.getD_some] at hfirst
  have ha : trees.after.key? a = some key := by
    have hmem : a ∈ trees.after.under key afters := hfirst ▸ List.mem_cons_self
    simpa using List.of_mem_filter hmem
  have hown : trees.counterpart? (b :: rest) afters b = some a := by
    rw [counterpart?, hkey, Option.bind_some, hfirst, CodeTree.under_cons_of_key hkey,
      List.idxOf_cons_self]
    rfl
  have hothers : ∀ other ∈ rest, trees.counterpart? (b :: rest) afters other =
      trees.counterpart? rest (afters.erase a) other := by
    intro other hother
    have hne : b ≠ other := fun heq => hb (heq ▸ hother)
    rw [counterpart?, counterpart?]
    apply Option.bind_congr
    intro key' _
    by_cases hsame : key = key'
    · subst hsame
      rw [hfirst, CodeTree.under_cons_of_key hkey, List.idxOf_cons_ne _ hne,
        List.getElem?_cons_succ, CodeTree.under_erase, hfirst, List.erase_cons_head]
    · rw [CodeTree.under_cons_of_ne (by simpa [hkey] using hsame),
        CodeTree.under_erase_of_ne (by simpa [ha] using hsame)]
  rw [pairUp, List.filterMap_cons_some (by rw [hown]; rfl)]
  congr 1
  apply List.filterMap_congr
  intro other hother
  rw [hothers other hother]

end Rows

section Cascade

variable {trees : TreePair} {matching next : Matching} {b a : NodeId}
  {befores afters rest : List NodeId}

theorem cascade_row_of_taken (hb : b ∉ matching.freeBefore) :
    trees.cascade matching (afters.map (b, ·)) = matching := by
  apply cascade_eq_self
  intro pair hpair
  obtain ⟨a, -, rfl⟩ := List.mem_map.mp hpair
  rw [Bool.eq_false_iff, Ne, Matching.isFree_iff]
  exact fun hfree => hb hfree.1

theorem cascade_filter {keep : NodeId × NodeId → Bool} {agenda : List (NodeId × NodeId)}
    (h : ∀ pair ∈ agenda, keep pair = false → matching.isFree pair.1 pair.2 = false) :
    trees.cascade matching (agenda.filter keep) = trees.cascade matching agenda := by
  induction agenda generalizing matching with
  | nil => rfl
  | cons pair rest ih =>
      obtain ⟨hpair, hrest⟩ := List.forall_mem_cons.mp h
      cases hkeep : keep pair with
      | true =>
          rw [List.filter_cons_of_pos hkeep, ← List.singleton_append, cascade_append,
            ← @List.singleton_append _ pair rest, cascade_append]
          apply ih
          intro other hother hdropped
          have hold := hrest other hother hdropped
          rw [Bool.eq_false_iff] at hold ⊢
          exact fun hnew => hold ((trees.grows_cascade _ _).isFree_of_isFree hnew)
      | false =>
          rw [List.filter_cons_of_neg (by simp [hkeep]), ih hrest, cascade]
          exact (if_neg (by simp [hpair hkeep])).symm

theorem sameNamed_erase (hafters : afters.Nodup) :
    trees.sameNamed rest (afters.erase a) =
      (trees.sameNamed rest afters).filter (·.2 != a) := by
  rw [sameNamed, sameNamed, List.filter_flatMap, hafters.erase_eq_filter]
  congr 1
  funext b
  rw [List.filter_map, List.filter_filter, List.filter_filter]
  congr 2
  funext other
  exact Bool.and_comm _ _

theorem cascade_sameNamed_erase (hafters : afters.Nodup) (ha : a ∉ matching.freeAfter) :
    trees.cascade matching (trees.sameNamed rest (afters.erase a)) =
      trees.cascade matching (trees.sameNamed rest afters) := by
  rw [sameNamed_erase hafters]
  apply cascade_filter
  intro pair _ hdropped
  have hsnd : pair.2 = a := by simpa using hdropped
  rw [Bool.eq_false_iff, Ne, Matching.isFree_iff, hsnd]
  exact fun hfree => ha hfree.2

theorem free_of_pairs_eq {lefts rights : List NodeId} {done : List (NodeId × NodeId)}
    (hsplits : Splits lefts rights matching) (hnext : Splits lefts rights next)
    (hpairs : next.pairs = matching.pairs ++ done) :
    (∀ id ∈ matching.freeBefore, id ∉ done.map Prod.fst → id ∈ next.freeBefore) ∧
      ∀ id ∈ matching.freeAfter, id ∉ done.map Prod.snd → id ∈ next.freeAfter := by
  constructor
  · intro id hfree hid
    rw [hsplits.mem_freeBefore_iff] at hfree
    rw [hnext.mem_freeBefore_iff, hpairs, List.map_append, List.mem_append, not_or]
    exact ⟨hfree.1, hfree.2, hid⟩
  · intro id hfree hid
    rw [hsplits.mem_freeAfter_iff] at hfree
    rw [hnext.mem_freeAfter_iff, hpairs, List.map_append, List.mem_append, not_or]
    exact ⟨hfree.1, hfree.2, hid⟩

/-- The pairs that a cascade over the namesakes in two rows adds to a matching. -/
structure Adds (trees : TreePair) (matching : Matching) (befores afters order order' : List NodeId)
    (added : List (NodeId × NodeId)) : Prop where
  pairs_eq : (trees.cascade matching (trees.sameNamed befores afters)).pairs =
    matching.pairs ++ added
  aligned : trees.Aligned (trees.pairUp befores afters) added
  fst_sublist : (added.map Prod.fst).Sublist order
  snd_subset : added.map Prod.snd ⊆ order'

theorem Adds.skip {order order' : List NodeId} {added : List (NodeId × NodeId)}
    (hrow : afters.filter (trees.sameName b) = [])
    (h : trees.Adds matching rest afters order order' added) :
    trees.Adds matching (b :: rest) afters order order' added where
  pairs_eq := by
    rw [sameNamed, List.flatMap_cons, hrow]
    exact h.pairs_eq
  aligned := by
    rw [pairUp_cons_of_nil hrow]
    exact h.aligned
  fst_sublist := h.fst_sublist
  snd_subset := h.snd_subset

theorem Adds.cons {lefts rights others below below' after after' : List NodeId}
    {inside later : List (NodeId × NodeId)} (hsplits : Splits lefts rights matching)
    (hb : b ∉ rest) (hafters : afters.Nodup)
    (hrow : afters.filter (trees.sameName b) = a :: others) (hfree : matching.isFree b a = true)
    (hinside : trees.Adds (matching.confirm b a) (trees.before.children b)
      (trees.after.children a) below below' inside)
    (hlater : trees.Adds (trees.cascade (matching.confirm b a) (trees.namedChildren b a)) rest
      (afters.erase a) after after' later) :
    trees.Adds matching (b :: rest) afters (b :: (below ++ after)) (a :: (below' ++ after'))
      ((b, a) :: (inside ++ later)) where
  pairs_eq := by
    have hgrows := trees.grows_cascade (matching.confirm b a) (trees.namedChildren b a)
    have hinner := hsplits.grows (Grows.confirm hfree hgrows)
    have hpair := hgrows.mem_pairs (List.mem_append_right matching.pairs List.mem_cons_self)
    have hbefore := fun hmem => (hinner.mem_freeBefore_iff.mp hmem).2 (List.mem_map_of_mem hpair)
    have hafter := fun hmem => (hinner.mem_freeAfter_iff.mp hmem).2 (List.mem_map_of_mem hpair)
    have hagenda : trees.sameNamed (b :: rest) afters =
        (b, a) :: (others.map (b, ·) ++ trees.sameNamed rest afters) := by
      rw [sameNamed, List.flatMap_cons, hrow]
      rfl
    rw [hagenda, cascade, if_pos hfree, cascade_append, cascade_append,
      cascade_row_of_taken hbefore, ← cascade_sameNamed_erase hafters hafter, hlater.pairs_eq,
      namedChildren, hinside.pairs_eq, Matching.confirm]
    simp only [List.append_assoc, List.cons_append, List.nil_append]
  aligned := by
    rw [pairUp_cons_of_cons hb hrow]
    exact .cons hinside.aligned hlater.aligned
  fst_sublist := by
    rw [List.map_cons, List.map_append]
    exact (hinside.fst_sublist.append hlater.fst_sublist).cons_cons b
  snd_subset := by
    rw [List.map_cons, List.map_append]
    apply List.cons_subset_cons
    exact List.append_subset.mpr ⟨List.subset_append_of_subset_left _ hinside.snd_subset,
      List.subset_append_of_subset_right _ hlater.snd_subset⟩

/-- Over two rows that are free with all that is below them, the cascade confirms what the rule
says. -/
theorem exists_adds {lefts rights order order' : List NodeId}
    (hsplits : Splits lefts rights matching)
    (hbefores : trees.before.FreeRow matching.freeBefore befores order)
    (hafters : trees.after.FreeRow matching.freeAfter afters order') :
    ∃ added, trees.Adds matching befores afters order order' added := by
  have horder := hbefores.pre_order
  induction horder generalizing matching afters order' with
  | nil =>
      refine ⟨[], ⟨?_, .nil, .slnil, List.nil_subset _⟩⟩
      rw [sameNamed, List.flatMap_nil, cascade, List.append_nil]
  | @cons b rest below after hbelowOrder hafterOrder ihBelow ihRest =>
      have hbelow := hbefores.part hbelowOrder ((List.sublist_append_left below after).cons b)
      have hafter := hbefores.part hafterOrder ((List.sublist_append_right below after).cons b)
      cases hrow : afters.filter (trees.sameName b) with
      | nil =>
          obtain ⟨added, hadded⟩ := ihRest hsplits hafter hafters
          have hskip := hadded.skip hrow
          refine ⟨added, ⟨hskip.pairs_eq, hskip.aligned, ?_, hskip.snd_subset⟩⟩
          exact hskip.fst_sublist.trans ((List.sublist_append_right below after).cons b)
      | cons a others =>
          have ha : a ∈ afters := List.mem_of_mem_filter (hrow ▸ List.mem_cons_self)
          obtain ⟨below', after', hbelow', hafter', hperm⟩ := hafters.take ha
          have hdisjoint := CodeTree.disjoint_of_nodup_cons hbefores.nodup
          have hdisjoint' := CodeTree.disjoint_of_nodup_cons (hperm.nodup_iff.mp hafters.nodup)
          have hfree : matching.isFree b a = true := by
            rw [Matching.isFree_iff]
            exact ⟨hbefores.subset List.mem_cons_self,
              hafters.subset (hperm.mem_iff.mpr List.mem_cons_self)⟩
          -- What is below the pair is still free when the pair is confirmed.
          have hconfirm := hsplits.confirm hfree
          obtain ⟨hkept, hkept'⟩ := @free_of_pairs_eq _ _ _ _ [(b, a)] hsplits hconfirm rfl
          obtain ⟨inside, hinside⟩ := ihBelow hconfirm
            (hbelow.stays hdisjoint.1 hkept) (hbelow'.stays hdisjoint'.1 hkept')
          let inner := trees.cascade (matching.confirm b a) (trees.namedChildren b a)
          have hgrows : Grows matching inner := Grows.confirm hfree (trees.grows_cascade _ _)
          have hinner := hsplits.grows hgrows
          have hpairs : inner.pairs = matching.pairs ++ (b, a) :: inside := by
            rw [← List.singleton_append, ← List.append_assoc]
            exact hinside.pairs_eq
          obtain ⟨hkept, hkept'⟩ := free_of_pairs_eq hsplits hinner hpairs
          obtain ⟨later, hlater⟩ := ihRest hinner
            (hafter.stays (hdisjoint.2 _ hinside.fst_sublist.subset) hkept)
            (hafter'.stays (hdisjoint'.2 _ hinside.snd_subset) hkept')
          have hb : b ∉ rest := (hbefores.pre_order.row_sublist.nodup hbefores.nodup).notMem
          have hnodup := hafters.pre_order.row_sublist.nodup hafters.nodup
          have hadds := hinside.cons hsplits hb hnodup hrow hfree hlater
          refine ⟨_, hadds.pairs_eq, hadds.aligned, hadds.fst_sublist, ?_⟩
          exact fun id hid => hperm.mem_iff.mpr (hadds.snd_subset hid)

end Cascade

theorem freeRow_roots {tree : CodeTree} (h : tree.Built) :
    ∃ order, tree.FreeRow tree.levelOrder tree.roots order := by
  obtain ⟨order, horder⟩ := h.exists_preOrder
  exact ⟨order, horder, h.nodup_preOrder horder, (h.preOrder_perm_levelOrder horder).subset⟩

theorem aligned_matchByName {trees : TreePair} (hbefore : trees.before.Built)
    (hafter : trees.after.Built) :
    trees.Aligned (trees.pairUp trees.before.roots trees.after.roots)
        (trees.matchByName (.start trees.before trees.after)).pairs ∧
      ∃ forest, trees.before.PreOrder trees.before.roots forest ∧
        ((trees.matchByName (.start trees.before trees.after)).pairs.map Prod.fst).Sublist
          forest := by
  obtain ⟨forest, hforest⟩ := freeRow_roots hbefore
  obtain ⟨forest', hforest'⟩ := freeRow_roots hafter
  have hstart := Splits.start hbefore.coherent hafter.coherent
  obtain ⟨added, hadded⟩ := @exists_adds trees _ _ _ _ _ _ _ hstart hforest hforest'
  have hpairs : (trees.matchByName (.start trees.before trees.after)).pairs = added :=
    hadded.pairs_eq
  rw [hpairs]
  exact ⟨hadded.aligned, forest, hforest.pre_order, hadded.fst_sublist⟩

/-- The pass by names confirms the pairs of one rule and in one order: in the rows of roots, and
then in the rows of children of each pair, the `k`-th node under a key with the `k`-th node under
it. The older nodes come in depth-first order. -/
theorem namesakes_are_paired_in_turn (trees : TreePair) (hbefore : trees.before.Built)
    (hafter : trees.after.Built) :
    (∀ order, trees.Aligned (trees.pairUp trees.before.roots trees.after.roots) order ↔
        order = (trees.matchByName (.start trees.before trees.after)).pairs) ∧
      ∃ forest, trees.before.PreOrder trees.before.roots forest ∧
        ((trees.matchByName (.start trees.before trees.after)).pairs.map Prod.fst).Sublist
          forest := by
  obtain ⟨haligned, hforest⟩ := aligned_matchByName hbefore hafter
  refine ⟨?_, hforest⟩
  intro order
  constructor
  · exact fun horder => horder.unique haligned
  · rintro rfl
    exact haligned

end TreePair

/-- Two roots, two classes below the first of them and two functions below the first of those, each
time under one name. -/
def namesakeTree : CodeTree :=
  let location : Location :=
    { file := ⟨"a.js"⟩, lineStart := 1, lineStop := 1, start := 0, stop := 3 }
  let file : Element := { kind := .file, name := "a.js", location }
  let outer : Element := { kind := .classDecl, name := "A", location }
  let inner : Element := { kind := .function, name := "f", location }
  let roots := ((CodeTree.addRoot {} file).addRoot file).setTokens ⟨"a.js"⟩
    { tokens := #[⟨0, 1⟩, ⟨1, 3⟩] }
  let first := (roots.addChild 0 outer).getD roots
  let both := (first.addChild 0 outer).getD first
  let other := (both.addChild 1 inner).getD both
  let deep := (other.addChild 2 inner).getD other
  let deeper := (deep.addChild 2 inner).getD deep
  deeper.addCall 5 6

theorem grown_namesakeTree : namesakeTree.Grown := by
  refine .addCall 5 6 (.addChild_getD (.addChild_getD (.addChild_getD (.addChild_getD
    (.addChild_getD (.setTokens _ _ (.addRoot _ (.addRoot _ .empty))) ?_ _) ?_ _) ?_ _) ?_ _) ?_ _)
  all_goals decide

/-- As `namesakeTree`, but with the first root only and one function below each of its classes. -/
def thinnedTree : CodeTree :=
  let location : Location :=
    { file := ⟨"a.js"⟩, lineStart := 1, lineStop := 1, start := 0, stop := 3 }
  let outer : Element := { kind := .classDecl, name := "A", location }
  let inner : Element := { kind := .function, name := "f", location }
  let root := CodeTree.addRoot {} { kind := .file, name := "a.js", location }
  let first := (root.addChild 0 outer).getD root
  let both := (first.addChild 0 outer).getD first
  let deep := (both.addChild 1 inner).getD both
  (deep.addChild 2 inner).getD deep

theorem grown_thinnedTree : thinnedTree.Grown := by
  unfold thinnedTree
  refine .addChild_getD (.addChild_getD (.addChild_getD (.addChild_getD (.addRoot _ .empty)
    ?_ _) ?_ _) ?_ _) ?_ _
  all_goals decide

theorem thinned_namesakes_are_paired_in_turn :
    namesakeTree.Built ∧ thinnedTree.Built ∧
      (TreePair.matchByName ⟨namesakeTree, thinnedTree⟩ (.start namesakeTree thinnedTree)).pairs =
        [(0, 0), (2, 1), (5, 3), (3, 2)] := by
  have hbefore : namesakeTree.Built := grown_namesakeTree.built
  have hafter : thinnedTree.Built := grown_thinnedTree.built
  have hpaired := TreePair.namesakes_are_paired_in_turn ⟨namesakeTree, thinnedTree⟩ hbefore hafter
  refine ⟨hbefore, hafter, ((hpaired.1 _).mp ?_).symm⟩
  have hroots : TreePair.pairUp ⟨namesakeTree, thinnedTree⟩ namesakeTree.roots thinnedTree.roots =
      [(0, 0)] := by decide
  have hclasses : TreePair.pairUp ⟨namesakeTree, thinnedTree⟩ (namesakeTree.children 0)
      (thinnedTree.children 0) = [(2, 1), (3, 2)] := by decide
  have hfunctions : TreePair.pairUp ⟨namesakeTree, thinnedTree⟩ (namesakeTree.children 2)
      (thinnedTree.children 1) = [(5, 3)] := by decide
  rw [hroots]
  refine @TreePair.Aligned.cons _ 0 0 [] [(2, 1), (5, 3), (3, 2)] [] ?_ .nil
  rw [hclasses]
  refine @TreePair.Aligned.cons _ 2 1 [(3, 2)] [(5, 3)] [(3, 2)] ?_ ?_
  · rw [hfunctions]
    exact @TreePair.Aligned.cons _ 5 3 [] [] [] .nil .nil
  · exact @TreePair.Aligned.cons _ 3 2 [] [] [] .nil .nil

end Lineage
