import Lineage.Relationship
import Lineage.Snapshot

/-!
Pairing the declarations of two trees. Pairs are confirmed in three passes: equal names from the
roots down, similar declarations, and declarations that share matched children. Each confirmed pair
brings along its equally named children. What the scores say enters as `Evidence` only.
-/

namespace Lineage

/-- What the scores say about nodes of two snapshots. -/
structure Evidence where
  /-- A node before and a node after are alike. -/
  similar : NodeId → NodeId → Bool
  /-- They have similar names. -/
  nameSimilar : NodeId → NodeId → Bool
  /-- For `extracted before after new`: `new` is made of code that left `before` on the way to
  `after`. -/
  extracted : NodeId → NodeId → NodeId → Bool
  /-- For `inlined before after old`: `after` gained the code of `old` over `before`. -/
  inlined : NodeId → NodeId → NodeId → Bool

/-- The pairs confirmed so far and the nodes that are in none of them. -/
structure Matching where
  /-- The pairs in the order of confirmation. -/
  pairs : List (NodeId × NodeId) := []
  freeBefore : List NodeId
  freeAfter : List NodeId
  deriving Repr, DecidableEq

namespace Matching

/-- Nothing is matched yet. -/
def start (before after : CodeTree) : Matching where
  freeBefore := before.levelOrder
  freeAfter := after.levelOrder

def isFree (matching : Matching) (before after : NodeId) : Bool :=
  before ∈ matching.freeBefore && after ∈ matching.freeAfter

def confirm (matching : Matching) (before after : NodeId) : Matching where
  pairs := matching.pairs ++ [(before, after)]
  freeBefore := matching.freeBefore.erase before
  freeAfter := matching.freeAfter.erase after

/-- The counterpart of a node of the older tree. -/
def partner? (matching : Matching) (before : NodeId) : Option NodeId :=
  matching.pairs.lookup before

end Matching

/-- The two trees that are compared. -/
structure TreePair where
  before : CodeTree
  after : CodeTree

namespace TreePair

/-- Whether a relation holds between a node before and a node after, both of which must exist. -/
def holds (trees : TreePair) (relation : Node → Node → Bool) (before after : NodeId) : Bool :=
  match trees.before.node? before, trees.after.node? after with
  | some b, some a => relation b a
  | _, _ => false

/-- Equal namespace and equal name. -/
def sameName (trees : TreePair) : NodeId → NodeId → Bool :=
  trees.holds fun b a => b.scope == a.scope && b.name == a.name

/-- The pairs with equal namespace and name, by the older list first. -/
def sameNamed (trees : TreePair) (before after : List NodeId) : List (NodeId × NodeId) :=
  before.flatMap fun b => (after.filter (trees.sameName b)).map fun a => (b, a)

/-- Equally named children of two nodes. -/
def namedChildren (trees : TreePair) (before after : NodeId) : List (NodeId × NodeId) :=
  trees.sameNamed (trees.before.children before) (trees.after.children after)

/-- Confirms the pairs of the agenda one after the other, unless one of their nodes is taken. The
equally named children of a confirmed pair come next. -/
def cascade (trees : TreePair) (matching : Matching) : (agenda : List (NodeId × NodeId)) → Matching
  | [] => matching
  | (b, a) :: agenda =>
    if matching.isFree b a then
      trees.cascade (matching.confirm b a) (trees.namedChildren b a ++ agenda)
    else trees.cascade matching agenda
termination_by agenda => (matching.freeBefore.length, agenda.length)
decreasing_by
  · next h =>
    simp only [Matching.isFree, Bool.and_eq_true, decide_eq_true_eq] at h
    apply Prod.Lex.left
    simp only [Matching.confirm, List.length_erase_of_mem h.1]
    have := List.length_pos_of_mem h.1
    omega
  · apply Prod.Lex.right
    simp

/-- Gives each free node before, in order, the first free node after that is acceptable by then. -/
def scan (trees : TreePair) (accept : Matching → NodeId → NodeId → Bool) (matching : Matching) :
    Matching :=
  matching.freeBefore.foldl (fun matching b =>
    if b ∈ matching.freeBefore then
      match matching.freeAfter.find? (accept matching b) with
      | some a => trees.cascade matching [(b, a)]
      | none => matching
    else matching) matching

/-- Roots share a parent when their namespaces agree, other nodes when their parents are matched to
each other. -/
def sameParent (trees : TreePair) (matching : Matching) (before after : NodeId) : Bool :=
  trees.holds (fun b a =>
    match b.parent, a.parent with
    | some p, some q => matching.partner? p == some q
    | none, none => b.scope == a.scope
    | _, _ => false) before after

def sameKind (trees : TreePair) : NodeId → NodeId → Bool :=
  trees.holds fun b a => b.kind == a.kind

def sameLocalName (trees : TreePair) : NodeId → NodeId → Bool :=
  trees.holds fun b a => b.name == a.name

/-- Equal names and equal parameter lists. -/
def sameSignature (trees : TreePair) : NodeId → NodeId → Bool :=
  trees.holds fun b a => b.name == a.name && b.params == a.params

/-- The kind of a change, by whether it kept the name and the parent. -/
def renameOrMove (sameName sameParent : Bool) : RelationKind :=
  match sameName, sameParent with
  | true, true => .changeSignature
  | true, false => .move
  | false, true => .rename
  | false, false => .moveAndRename

/-- The kind of a pair that stands on its own: nodes of one kind with the same signature and parent,
or similar ones. -/
def classify? (trees : TreePair) (evidence : Evidence) (matching : Matching)
    (before after : NodeId) : Option RelationKind :=
  let sameParent := trees.sameParent matching before after
  if !trees.sameKind before after then none
  else if trees.sameSignature before after && sameParent then some .same
  else if evidence.similar before after then
    some (renameOrMove (trees.sameLocalName before after) sameParent)
  else none

/-- The kind of a confirmed pair. -/
def classify (trees : TreePair) (evidence : Evidence) (matching : Matching)
    (before after : NodeId) : RelationKind :=
  match trees.classify? evidence matching before after with
  | some kind => kind
  | none =>
    if !trees.sameKind before after then .convertType
    else renameOrMove (trees.sameLocalName before after) (trees.sameParent matching before after)

/-- How many children of `before` are matched to children of `after`. -/
def matchedChildren (trees : TreePair) (matching : Matching) (before after : NodeId) : Nat :=
  (trees.before.children before).countP fun child =>
    (matching.partner? child).any (· ∈ trees.after.children after)

/-- Pairs equally named roots, and their descendants. -/
def matchByName (trees : TreePair) (matching : Matching) : Matching :=
  trees.cascade matching (trees.sameNamed trees.before.roots trees.after.roots)

/-- Pairs what can be classified on its own. -/
def matchBySimilarity (trees : TreePair) (evidence : Evidence) : Matching → Matching :=
  trees.scan fun matching b a => (trees.classify? evidence matching b a).isSome

/-- Pairs nodes with similar names and more than one pair of matched children. -/
def matchByChildren (trees : TreePair) (evidence : Evidence) : Matching → Matching :=
  trees.scan fun matching b a =>
    1 < trees.matchedChildren matching b a && evidence.nameSimilar b a

/-- The pairs of all three passes. -/
def matching (trees : TreePair) (evidence : Evidence) : Matching :=
  trees.matchByChildren evidence
    (trees.matchBySimilarity evidence (trees.matchByName (.start trees.before trees.after)))

end TreePair

end Lineage
