import Lineage.Json.Record
import Lineage.Location
import Lineage.Text.Utf8
import Lineage.Token

/-!
Concrete syntax trees of JavaScript files, as a grammar gives them: every node has the kind that the
grammar calls it, the field it fills in its parent, and its extent in bytes.
-/

namespace Lineage.JavaScript

/-- A node of a syntax tree. A node without a field has the empty one; anonymous nodes are those
that the grammar spells out, such as punctuation. -/
inductive SyntaxTree where
  | node (kind field : String) (named : Bool) (start stop : Nat) (children : List SyntaxTree)
  deriving Inhabited

namespace SyntaxTree

def kind : SyntaxTree → String
  | node kind _ _ _ _ _ => kind

def field : SyntaxTree → String
  | node _ field _ _ _ _ => field

def isNamed : SyntaxTree → Bool
  | node _ _ named _ _ _ => named

def start : SyntaxTree → Nat
  | node _ _ _ start _ _ => start

def stop : SyntaxTree → Nat
  | node _ _ _ _ stop _ => stop

def children : SyntaxTree → List SyntaxTree
  | node _ _ _ _ _ children => children

def namedChildren (tree : SyntaxTree) : List SyntaxTree :=
  tree.children.filter isNamed

/-- The first child that fills a field. -/
def child? (tree : SyntaxTree) (name : String) : Option SyntaxTree :=
  tree.children.find? (·.field == name)

/-- The source text of a node, if it is well-formed UTF-8. -/
def text? (source : ByteArray) (tree : SyntaxTree) : Option String :=
  (slice? source tree.start tree.stop).bind Utf8.text?

/-- Comments do not count as code. -/
def isComment (kind : String) : Bool :=
  kind == "comment" || kind == "html_comment"

/-- Literals are one token each, whatever structure the grammar gives them. -/
def isAtomic (kind : String) : Bool :=
  kind == "string" || kind == "regex" || kind == "number"

mutual

/-- The tokens of a tree from left to right: its leaves and literals, without comments and without
nodes of no extent. -/
def tokens : SyntaxTree → List Token
  | node kind _ _ start stop children =>
    if isComment kind then []
    else if children.isEmpty || isAtomic kind then if start < stop then [{ start, stop }] else []
    else forestTokens children

def forestTokens : List SyntaxTree → List Token
  | [] => []
  | tree :: trees => tokens tree ++ forestTokens trees

end

/-- A node as a row of a listing that gives for each node the number of its children. -/
structure Row where
  kind : String
  field : String
  named : Bool
  start : Nat
  stop : Nat
  childCount : Nat

/-- The trees of a listing in which every node comes before its children. -/
def forestOfRows (rows : List Row) : List SyntaxTree :=
  rows.foldr (fun row trees =>
    node row.kind row.field row.named row.start row.stop (trees.take row.childCount)
      :: trees.drop row.childCount) []

/-- The tree of a listing, if it lists one tree. -/
def ofRows? (rows : List Row) : Option SyntaxTree :=
  match forestOfRows rows with
  | [tree] => some tree
  | _ => none

def Row.ofJson? : Json → Option Row
  | .array [kind, field, named, start, stop, childCount] => do
    return {
      kind := ← kind.text?
      field := ← field.text?
      named := (← named.size?) == 1
      start := ← start.size?
      stop := ← stop.size?
      childCount := ← childCount.size? }
  | _ => none

/-- Reads a listing with an array for each row. -/
def ofJson? (value : Json) : Option SyntaxTree :=
  (value.array? Row.ofJson?).bind ofRows?

end SyntaxTree

/-- The syntax tree of each file's bytes. -/
abbrev Grammar := ByteArray → SyntaxTree

/-- A grammar that knows some files; anything else is a program without statements. -/
def Grammar.ofList (known : List (ByteArray × SyntaxTree)) : Grammar := fun bytes =>
  match known.find? (·.1 == bytes) with
  | some (_, tree) => tree
  | none => .node "program" "" true 0 bytes.size []

end Lineage.JavaScript
