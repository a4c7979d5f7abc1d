import Lineage.Report
import Lineage.Table

namespace Lineage

inductive OutputFormat where
  | table
  | json
  deriving Repr, DecidableEq

namespace Report

def header : List String :=
  ["file", "element", "kind", "change"]

def fileRow (file : FileReport) : List String :=
  [file.label, "-", file.kind.label, file.description]

/-- The line where a declaration starts, by preference in the newer version. -/
def lineMark (entry : Entry) : String :=
  match entry.after.or entry.before with
  | some summary => ":" ++ toString summary.lineStart
  | none => ""

def entryRow (file : FileReport) (entry : Entry) : List String :=
  [file.label, entry.nodeKind.label ++ " " ++ entry.label ++ lineMark entry, entry.kind.label,
    entry.description]

/-- A row for each file, followed by those of its entries. -/
def rows (report : Report) : List (List String) :=
  report.files.flatMap fun file => fileRow file :: file.entries.map (entryRow file)

def render (report : Report) : OutputFormat → String
  | .json => report.toJson.pretty
  | .table => if report.files.isEmpty then "No changes." else Table.render header report.rows

end Report

namespace CodeTree

def header : List String :=
  ["id", "kind", "name", "parent", "location", "calls"]

/-- A node number as it is shown. -/
def idMark (id : NodeId) : String :=
  "#" ++ toString id

/-- The name of a node with its parameters, or with its namespace if it has no parameter list. -/
def title (node : Node) : String :=
  match node.params with
  | some params => node.name ++ "(" ++ ", ".intercalate params ++ ")"
  | none => node.qualifiedName

def row (tree : CodeTree) (id : NodeId) (node : Node) : List String :=
  let location := node.location
  [idMark id, node.kind.label, title node, node.parent.elim "-" idMark,
    location.file.text ++ ":" ++ toString location.lineStart ++ "-" ++ toString location.lineStop,
    ", ".intercalate (node.calls.map fun callee => ((tree.node? callee).map (·.name)).getD "")]

/-- A row for each node, level by level. -/
def render (tree : CodeTree) : String :=
  Table.render header (tree.levelOrder.filterMap fun id => (tree.node? id).map (tree.row id))

/-- How many nodes and files there are. -/
def summary (tree : CodeTree) : String :=
  toString tree.size ++ " nodes in " ++ toString tree.roots.length ++ " files"

end CodeTree

end Lineage
