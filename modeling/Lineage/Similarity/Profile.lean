import Lineage.Bag
import Lineage.Error
import Lineage.Name
import Lineage.Snapshot
import Lineage.Text.Utf8

/-!
Profiles of declarations: the bags of tokens that scores are computed from. Profiling a snapshot
also counts in how many declarations each token occurs.
-/

namespace Lineage

/-- What a declaration is scored by. -/
structure Profile where
  /-- The tokens of the whole extent. -/
  tokens : Bag String := {}
  /-- The tokens of the body, if there is a separable body. -/
  body : Option (Bag String) := none
  /-- The segments of the name, once for each level of nesting. -/
  name : Bag String := {}
  params : List String := []
  deriving Inhabited

namespace Profile

/-- The tokens of the body; none without a separable body. -/
def bodyTokens (profile : Profile) : Bag String :=
  profile.body.getD {}

/-- The text of a token. -/
def tokenText (contents : ByteArray) (token : Token) : String :=
  Utf8.lossyText (contents.extract token.start token.stop)

def isInside (contents : ByteArray) (token : Token) : Bool :=
  token.start ≤ token.stop && token.stop ≤ contents.size

/-- The tokens and contents of a file. All tokens must lie in the contents, not only those that are
asked for. -/
def source (snapshot : Snapshot) (file : Path) : Except Error (TokenIndex × ByteArray) :=
  match snapshot.tree.tokensOf? file with
  | none => .error (.missingTokens file)
  | some index =>
    match snapshot.files.find? file with
    | none => .error (.missingContents file)
    | some contents =>
      match index.tokens.toList.find? (!isInside contents ·) with
      | some token => .error (.tokenOutOfBounds file token.start token.stop contents.size)
      | none => .ok (index, contents)

/-- The tokens of the extent of a declaration. -/
def spanTokens (index : TokenIndex) (location : Location) : List Token :=
  (index.within location.start location.stop).map Prod.fst

/-- Those tokens of the extent that lie in the body. -/
def bodySpanTokens (index : TokenIndex) (location : Location) : List Token :=
  (spanTokens index location).filter fun token =>
    location.bodyStart ≤ token.start && token.stop ≤ location.bodyStop

/-- The segments of a name, `depth + 1` times. -/
def nameSegments (name : String) (depth : Nat) : List String :=
  (List.replicate (depth + 1) (Name.segments name)).flatten

def ofNode (snapshot : Snapshot) (id : NodeId) (node : Node) : Except Error Profile :=
  (source snapshot node.location.file).map fun (index, contents) =>
    { tokens := Bag.ofList ((spanTokens index node.location).map (tokenText contents))
      body :=
        if node.location.hasBody then
          some (Bag.ofList ((bodySpanTokens index node.location).map (tokenText contents)))
        else none
      name := Bag.ofList (nameSegments node.name (snapshot.tree.depth id))
      params := node.params.getD [] }

end Profile

/-- The profiles of a snapshot. -/
structure SnapshotProfile where
  /-- Each node that can be reached with its profile, row by row. -/
  profiles : List (NodeId × Profile) := []
  deriving Inhabited

namespace SnapshotProfile

/-- Profiles all nodes; the first one that cannot be profiled decides the error. -/
def ofSnapshot (snapshot : Snapshot) : Except Error SnapshotProfile :=
  let nodes := snapshot.tree.levelOrder.filterMap fun id =>
    (snapshot.tree.node? id).map fun node => (id, node)
  let profiles := nodes.mapM fun (id, node) =>
    (Profile.ofNode snapshot id node).map fun profile => (id, profile)
  profiles.map fun profiles => { profiles }

def find (profile : SnapshotProfile) (id : NodeId) : Profile :=
  (profile.profiles.lookup id).getD {}

/-- In how many nodes each token occurs. -/
def tokenFrequency (profile : SnapshotProfile) : Bag String :=
  Bag.ofList (profile.profiles.flatMap fun (_, p) => p.tokens.keys)

/-- In how many nodes each segment of a name occurs. -/
def nameFrequency (profile : SnapshotProfile) : Bag String :=
  Bag.ofList (profile.profiles.flatMap fun (_, p) => p.name.keys)

end SnapshotProfile

end Lineage
