import Lineage.Location
import Lineage.Token

/-!
The declarations of one snapshot. Nodes are numbered in the order of creation and refer to each
other by number; `CodeTree.levelOrder` lists them row by row from the roots.
-/

namespace Lineage

inductive NodeKind where
  | file
  | classDecl
  | function
  deriving Repr, DecidableEq, Inhabited

namespace NodeKind

def all : List NodeKind :=
  [file, classDecl, function]

def label : NodeKind → String
  | file => "File"
  | classDecl => "Class"
  | function => "Function"

def ofLabel? (label : String) : Option NodeKind :=
  all.find? (·.label == label)

theorem ofLabel?_label (kind : NodeKind) : ofLabel? kind.label = some kind := by
  cases kind <;> decide

end NodeKind

/-- The number of a node in its own tree. Trees stay below 2 ^ 32 nodes: numbers of 32 bits would be
enough, and none of them wraps around. -/
abbrev NodeId := Nat

/-- What is known of a declaration before it has a place in a tree. -/
structure Element where
  kind : NodeKind
  name : String
  /-- The namespace; having none differs from an empty one. -/
  scope : Option String := none
  /-- Parameter names; having no list differs from an empty one. -/
  params : Option (List String) := none
  location : Location
  deriving Repr, DecidableEq, Inhabited

structure Node extends Element where
  parent : Option NodeId := none
  children : List NodeId := []
  /-- The nodes that this one calls, in the order in which the calls were recorded. -/
  calls : List NodeId := []
  deriving Repr, DecidableEq, Inhabited

namespace Node

def isFile (node : Node) : Bool :=
  node.kind == .file

/-- Namespace and name joined by a slash, or the bare name. -/
def qualifiedName (node : Node) : String :=
  match node.scope with
  | some scope => if scope.isEmpty then node.name else scope ++ "/" ++ node.name
  | none => node.name

end Node

/-- The nodes of a snapshot and the tokens of its files. -/
structure CodeTree where
  nodes : Array Node := #[]
  roots : List NodeId := []
  tokens : PathMap TokenIndex := {}
  deriving Inhabited

namespace CodeTree

def size (tree : CodeTree) : Nat :=
  tree.nodes.size

def node? (tree : CodeTree) (id : NodeId) : Option Node :=
  tree.nodes[id]?

def addRoot (tree : CodeTree) (element : Element) : CodeTree :=
  { tree with
    nodes := tree.nodes.push { element with }
    roots := tree.roots ++ [tree.size] }

/-- Adds a node below `parent`, after its other children. The new node is in the tree by the time
its parent is looked up; there is no result if the parent is not in it. -/
def addChild (tree : CodeTree) (parent : NodeId) (element : Element) : Option CodeTree :=
  let nodes := tree.nodes.push { element with parent := some parent }
  if parent < nodes.size then
    some { tree with
      nodes := nodes.modify parent fun node =>
        { node with children := node.children ++ [tree.size] } }
  else none

/-- Whether a call would be a new edge between two nodes of the tree. -/
def isNewCall (tree : CodeTree) (caller callee : NodeId) : Bool :=
  callee < tree.size && (tree.node? caller).any (callee ∉ ·.calls)

/-- Records a call; repeated ones and those with an end outside the tree change nothing. -/
def addCall (tree : CodeTree) (caller callee : NodeId) : CodeTree :=
  if tree.isNewCall caller callee then
    { tree with
      nodes := tree.nodes.modify caller fun node => { node with calls := node.calls ++ [callee] } }
  else tree

/-- Sets the tokens of a file, in place of those it had. -/
def setTokens (tree : CodeTree) (file : Path) (index : TokenIndex) : CodeTree :=
  { tree with tokens := tree.tokens.insert file index }

def tokensOf? (tree : CodeTree) (file : Path) : Option TokenIndex :=
  tree.tokens.find? file

def parent? (tree : CodeTree) (id : NodeId) : Option NodeId :=
  (tree.node? id).bind (·.parent)

def children (tree : CodeTree) (id : NodeId) : List NodeId :=
  ((tree.node? id).map (·.children)).getD []

/-- The nodes above `id`, its parent first. Parents are older than their children, so the numbers
go down. -/
def ancestors (tree : CodeTree) (id : NodeId) : List NodeId :=
  match tree.parent? id with
  | none => []
  | some parent => if parent < id then parent :: tree.ancestors parent else []
termination_by id

def depth (tree : CodeTree) (id : NodeId) : Nat :=
  (tree.ancestors id).length

/-- The first `count` rows of nodes from `row` on: each one holds the children of the one before,
and an empty row is the last. -/
def rows (tree : CodeTree) : (count : Nat) → (row : List NodeId) → List (List NodeId)
  | 0, _ => []
  | _ + 1, [] => []
  | count + 1, row => row :: tree.rows count (row.flatMap tree.children)

/-- All nodes that can be reached from the roots, row by row. There are no more rows than nodes. -/
def levelOrder (tree : CodeTree) : List NodeId :=
  (tree.rows tree.size tree.roots).flatten

@[simp] theorem size_addRoot (tree : CodeTree) (element : Element) :
    (tree.addRoot element).size = tree.size + 1 := by
  simp [addRoot, size]

@[simp] theorem size_addCall (tree : CodeTree) (caller callee : NodeId) :
    (tree.addCall caller callee).size = tree.size := by
  unfold addCall; split <;> simp [size]

theorem addChild_isSome_iff (tree : CodeTree) (parent : NodeId) (element : Element) :
    (tree.addChild parent element).isSome ↔ parent ≤ tree.size := by
  simp only [addChild, Array.size_push, size]
  split
  · next h => simpa using Nat.lt_succ_iff.mp h
  · next h => simpa using Nat.lt_of_not_le (fun hle => h (Nat.lt_succ_of_le hle))

end CodeTree

end Lineage
