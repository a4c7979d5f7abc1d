import Lineage.Codec
import Lineage.Snapshot

/-!
Relationships grouped by file. Each relationship between files has a report of its own, and the
other ones are entries in the reports of the files they touch. Extracted and inlined code gives no
entries; it is noted at the entry of the declaration that it came from or went to.
-/

namespace Lineage

/-- What is shown of a node. -/
structure NodeSummary where
  name : String
  kind : NodeKind
  file : String
  lineStart : Nat
  lineStop : Nat
  start : Nat
  stop : Nat
  deriving Repr, DecidableEq

def NodeSummary.ofNode (node : Node) : NodeSummary where
  name := node.name
  kind := node.kind
  file := node.location.file.text
  lineStart := node.location.lineStart
  lineStop := node.location.lineStop
  start := node.location.start
  stop := node.location.stop

/-- A declaration in the report of a file. -/
structure Entry where
  label : String
  description : String
  kind : RelationKind
  nodeKind : NodeKind
  modified : Bool
  before : Option NodeSummary
  after : Option NodeSummary
  /-- The extracted or inlined declaration that explains part of the change. -/
  related : Option NodeSummary
  deriving Repr, DecidableEq

structure FileReport where
  label : String
  description : String
  kind : RelationKind
  modified : Bool
  before : Option NodeSummary
  after : Option NodeSummary
  entries : List Entry := []
  deriving Repr, DecidableEq

def Entry.isChange (entry : Entry) : Bool :=
  entry.kind != .same || entry.modified || entry.related.isSome

/-- Whether a file has nothing to show. -/
def FileReport.isUnchanged (file : FileReport) : Bool :=
  file.kind == .same && !file.modified && file.entries.isEmpty

structure Report where
  files : List FileReport := []
  deriving Repr, DecidableEq

namespace Report

/-- The snapshots that relationships are about. -/
structure Context where
  before : Snapshot
  after : Snapshot

namespace Context

def beforeNode? (context : Context) (relationship : Relationship) : Option Node :=
  relationship.before.bind context.before.tree.node?

def afterNode? (context : Context) (relationship : Relationship) : Option Node :=
  relationship.after.bind context.after.tree.node?

/-- The node that a relationship is filed under: the one before, if there is one. -/
def primary? (context : Context) (relationship : Relationship) : Option Node :=
  match relationship.before with
  | some _ => context.beforeNode? relationship
  | none => context.afterNode? relationship

/-- Whether a relationship is filed under a file. -/
def isFile (context : Context) (relationship : Relationship) : Bool :=
  (context.primary? relationship).any Node.isFile

/-- Whether a relationship is filed under a class or a function. -/
def isInner (context : Context) (relationship : Relationship) : Bool :=
  (context.primary? relationship).any (!·.isFile)

end Context

def contents (snapshot : Snapshot) (file : Path) : Except Error ByteArray :=
  match snapshot.files.find? file with
  | some bytes => .ok bytes
  | none => .error (.missingContents file)

/-- Compares a part of the files of the two sides; nothing differs when a side is missing. -/
def modified (context : Context) (relationship : Relationship)
    (part : Location → ByteArray → Option ByteArray) : Except Error Bool :=
  match context.beforeNode? relationship, context.afterNode? relationship with
  | some b, some a => do
    let before ← contents context.before b.location.file
    let after ← contents context.after a.location.file
    return part b.location before != part a.location after
  | _, _ => return false

/-- Whether the files of the two sides differ. -/
def fileModified (context : Context) (relationship : Relationship) : Except Error Bool :=
  modified context relationship fun _ bytes => some bytes

/-- Whether the bodies of the two sides differ. -/
def bodyModified (context : Context) (relationship : Relationship) : Except Error Bool :=
  modified context relationship fun location bytes =>
    slice? bytes location.bodyStart location.bodyStop

def fileLabel (context : Context) (relationship : Relationship) : String :=
  let name := ((context.primary? relationship).map Node.qualifiedName).getD ""
  match context.beforeNode? relationship, context.afterNode? relationship with
  | some b, some a =>
    if b.qualifiedName != a.qualifiedName then b.qualifiedName ++ "->" ++ a.qualifiedName else name
  | _, _ => name

def fileDescription (kind : RelationKind) (modified : Bool) : String :=
  let change :=
    match kind with
    | .rename => "Renamed"
    | .added => "Added"
    | .removed => "Removed"
    | _ => ""
  if modified then
    (if change.isEmpty then "" else change ++ ", ") ++ "content modified"
  else change

def fileReport (context : Context) (relationship : Relationship) : Except Error FileReport := do
  let modified ← fileModified context relationship
  return {
    label := fileLabel context relationship
    description := fileDescription relationship.kind modified
    kind := relationship.kind
    modified
    before := (context.beforeNode? relationship).map .ofNode
    after := (context.afterNode? relationship).map .ofNode }

/-- The last position in a list that passes a test. -/
def lastIdx? {α : Type} (test : α → Bool) (xs : List α) : Option Nat :=
  (xs.zipIdx.reverse.find? fun (x, _) => test x).map Prod.snd

/-- The report of a file on one side: the last relationship of files that has the file there. -/
def target? (node? : Relationship → Option Node) (files : List Relationship) (file : Path) :
    Option Nat :=
  lastIdx? (fun relationship => (node? relationship).any (·.location.file.same file)) files

/-- The reports that a relationship is entered in: that of its file before, then that of its file
after, without repetition. -/
def targets (context : Context) (files : List Relationship) (relationship : Relationship) :
    List Nat :=
  let before := (context.beforeNode? relationship).bind fun node =>
    target? context.beforeNode? files node.location.file
  let after := (context.afterNode? relationship).bind fun node =>
    target? context.afterNode? files node.location.file
  before.toList ++ if after = before then [] else after.toList

/-- The extraction from a node before that is noted at its entry: the last one. -/
def extraction? (context : Context) (relationships : List Relationship) (before : NodeId) :
    Option Relationship :=
  relationships.reverse.find? fun r =>
    context.isInner r && (r.kind == .extract || r.kind == .extractAndMove)
      && r.before == some before

/-- The inlining into a node after that is noted at its entry: the last one. -/
def inlining? (context : Context) (relationships : List Relationship) (after : NodeId) :
    Option Relationship :=
  relationships.reverse.find? fun r =>
    context.isInner r && r.kind == .inline && r.after == some after

/-- The extraction or else the inlining that explains part of a two-sided change. -/
def explanation? (context : Context) (relationships : List Relationship)
    (relationship : Relationship) : Option Relationship :=
  match relationship.before, relationship.after with
  | some b, some a =>
    (extraction? context relationships b).or (inlining? context relationships a)
  | _, _ => none

/-- The declaration that an explanation is about. -/
def explainedNode? (context : Context) (explanation : Relationship) : Option Node :=
  if explanation.kind = .inline then context.beforeNode? explanation
  else context.afterNode? explanation

/-- The name of the inlined or the extracted declaration, after a plus. -/
def plusName (context : Context) (explanation : Option Relationship) (inline : Bool) : String :=
  match explanation.filter fun r => (r.kind == .inline) == inline with
  | some r => ((explainedNode? context r).map fun node => "+" ++ node.name).getD ""
  | none => ""

def entryLabel (context : Context) (relationship : Relationship)
    (explanation : Option Relationship) : String :=
  match context.beforeNode? relationship, context.afterNode? relationship with
  | some b, some a =>
    b.name ++ plusName context explanation true ++ "->" ++ a.name
      ++ plusName context explanation false
  | _, _ => ((context.primary? relationship).map (·.name)).getD ""

/-- Which end of a move the report of a file shows. -/
def moveText (context : Context) (file : FileReport) (relationship : Relationship) : String :=
  match context.afterNode? relationship, file.after with
  | some a, some f => if a.location.file.text == f.file then "Moved here" else "Moved from here"
  | _, _ => "Moved from here"

def changeText (context : Context) (file : FileReport) (relationship : Relationship)
    (modified : Bool) : String :=
  match relationship.kind with
  | .same => if modified then "Same signature" else ""
  | .changeSignature => "Signature changed"
  | .move => moveText context file relationship
  | .rename => "Renamed"
  | .moveAndRename => moveText context file relationship ++ " & renamed"
  | .added => "Added"
  | .removed => "Removed"
  | _ => ""

def explanationText (context : Context) (explanation : Relationship) : String :=
  match explainedNode? context explanation, explanation.kind with
  | some node, .extract => ", " ++ node.name ++ " was extracted"
  | some node, .extractAndMove => ", " ++ node.name ++ " was extracted and moved"
  | some node, .inline => ", " ++ node.name ++ " was inlined"
  | _, _ => ""

def entry (context : Context) (file : FileReport) (relationship : Relationship)
    (explanation : Option Relationship) : Except Error Entry := do
  let modified ← bodyModified context relationship
  return {
    label := entryLabel context relationship explanation
    description := changeText context file relationship modified
      ++ (if modified then ", body modified" else "")
      ++ (explanation.map (explanationText context)).getD ""
    kind := relationship.kind
    nodeKind := ((context.primary? relationship).map (·.kind)).getD .function
    modified
    before := (context.beforeNode? relationship).map .ofNode
    after := (context.afterNode? relationship).map .ofNode
    related := (explanation.bind (explainedNode? context)).map .ofNode }

/-- The entries that a relationship gives, each with the position of its report. -/
def placedEntries (context : Context) (relationships files : List Relationship)
    (reports : List FileReport) (relationship : Relationship) : Except Error (List (Nat × Entry)) :=
  let explanation := explanation? context relationships relationship
  ((targets context files relationship).filterMap fun i => reports[i]?.map (i, ·)).mapM
    fun (i, file) => (entry context file relationship explanation).map (i, ·)

/-- The report of a list of relationships between two snapshots. -/
def build (before after : Snapshot) (relationships : List Relationship) : Except Error Report := do
  let context : Context := ⟨before, after⟩
  let files := relationships.filter context.isFile
  let reports ← files.mapM (fileReport context)
  let inner := relationships.filter fun r => context.isInner r && !r.isNonMatching
  let placed := (← inner.mapM (placedEntries context relationships files reports)).flatten
  return {
    files := reports.zipIdx.map fun (report, i) =>
      { report with entries := placed.filterMap fun (j, e) => if j = i then some e else none } }

/-- Leaves out unchanged entries, and files with nothing left to show. -/
def onlyChanges (report : Report) : Report where
  files := (report.files.map fun file =>
    { file with entries := file.entries.filter Entry.isChange }).filter (!·.isUnchanged)

/-- All entries, each with the report it stands in. -/
def entries (report : Report) : List (FileReport × Entry) :=
  report.files.flatMap fun file => file.entries.map (file, ·)

end Report

def NodeSummary.toJson (summary : NodeSummary) : Json :=
  .record
    [("name", .text summary.name), ("kind", summary.kind.toJson), ("file", .text summary.file),
      ("line_start", .nat summary.lineStart), ("line_end", .nat summary.lineStop),
      ("begin", .nat summary.start), ("end", .nat summary.stop)]

def Entry.toJson (entry : Entry) : Json :=
  .record
    [("label", .text entry.label), ("description", .text entry.description),
      ("kind", entry.kind.toJson), ("node_kind", entry.nodeKind.toJson),
      ("modified", .bool entry.modified),
      ("before", .ofOption (entry.before.map NodeSummary.toJson)),
      ("after", .ofOption (entry.after.map NodeSummary.toJson)),
      ("related", .ofOption (entry.related.map NodeSummary.toJson))]

def FileReport.toJson (file : FileReport) : Json :=
  .record
    [("label", .text file.label), ("description", .text file.description),
      ("kind", file.kind.toJson), ("modified", .bool file.modified),
      ("before", .ofOption (file.before.map NodeSummary.toJson)),
      ("after", .ofOption (file.after.map NodeSummary.toJson)),
      ("entries", .array (file.entries.map Entry.toJson))]

def Report.toJson (report : Report) : Json :=
  .record [("files", .array (report.files.map FileReport.toJson))]

end Lineage
