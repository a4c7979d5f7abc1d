import Lineage.CodeTree
import Lineage.Error

/-!
What became of a declaration: a kind of change together with the node before it, the node after it,
or both.
-/

namespace Lineage

/-- Kinds of change, in their order. -/
inductive RelationKind where
  | same
  | convertType
  | pullUp
  | pushDown
  | changeSignature
  | move
  | rename
  | moveAndRename
  | extractSuperType
  | extract
  | extractAndMove
  | inline
  | added
  | removed
  deriving Repr, DecidableEq, Inhabited

namespace RelationKind

def all : List RelationKind :=
  [same, convertType, pullUp, pushDown, changeSignature, move, rename, moveAndRename,
    extractSuperType, extract, extractAndMove, inline, added, removed]

/-- The position among all kinds. -/
def rank (kind : RelationKind) : Nat :=
  all.idxOf kind

def label : RelationKind → String
  | same => "same"
  | convertType => "convertType"
  | pullUp => "pullUp"
  | pushDown => "pushDown"
  | changeSignature => "changeSignature"
  | move => "move"
  | rename => "rename"
  | moveAndRename => "moveAndRename"
  | extractSuperType => "extractSuperType"
  | extract => "extract"
  | extractAndMove => "extractAndMove"
  | inline => "inline"
  | added => "added"
  | removed => "removed"

def ofLabel? (label : String) : Option RelationKind :=
  all.find? (·.label == label)

/-- Whether the two sides are no counterparts of each other: a part went from one to the other. -/
def isNonMatching : RelationKind → Bool
  | extractSuperType | extract | extractAndMove | inline => true
  | _ => false

def sort (kinds : List RelationKind) : List RelationKind :=
  kinds.mergeSort fun a b => a.rank ≤ b.rank

theorem isNonMatching_iff_rank (kind : RelationKind) :
    kind.isNonMatching ↔ extractSuperType.rank ≤ kind.rank ∧ kind.rank ≤ inline.rank := by
  cases kind <;> decide

theorem ofLabel?_label (kind : RelationKind) : ofLabel? kind.label = some kind := by
  cases kind <;> decide

end RelationKind

structure Relationship where
  before : Option NodeId
  after : Option NodeId
  kind : RelationKind
  deriving Repr, DecidableEq, Inhabited

namespace Relationship

/-- A relationship with the given sides, of which there must be one. -/
def ofSides (before after : Option NodeId) (kind : RelationKind) : Except Error Relationship :=
  if before.isNone && after.isNone then .error .emptyRelationship
  else .ok { before, after, kind }

def pair (before after : NodeId) (kind : RelationKind) : Relationship :=
  { before := some before, after := some after, kind }

def added (after : NodeId) : Relationship :=
  { before := none, after := some after, kind := .added }

def removed (before : NodeId) : Relationship :=
  { before := some before, after := none, kind := .removed }

def isNonMatching (relationship : Relationship) : Bool :=
  relationship.kind.isNonMatching

end Relationship

end Lineage
