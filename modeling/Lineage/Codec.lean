import Lineage.Json.Record
import Lineage.Relationship

/-!
JSON shapes of locations, tokens, node numbers, kinds and relationships. What is written is a record
with all fields in order; what is read may also be the array form, or leave out an optional side.
-/

namespace Lineage

namespace NodeKind

def toJson (kind : NodeKind) : Json :=
  .text kind.label

def ofJson? (value : Json) : Option NodeKind :=
  value.alternative?.bind ofLabel?

end NodeKind

namespace RelationKind

def toJson (kind : RelationKind) : Json :=
  .text kind.label

def ofJson? (value : Json) : Option RelationKind :=
  value.alternative?.bind ofLabel?

end RelationKind

namespace NodeId

def toJson (id : NodeId) : Json :=
  .nat id

/-- Node numbers have 32 bits. -/
def ofJson? (value : Json) : Option NodeId :=
  value.natBelow? UInt32.size

end NodeId

namespace Location

def fields : List String :=
  ["file", "line_start", "line_end", "begin", "end", "body_begin", "body_end"]

def toJson (location : Location) : Json :=
  .record
    [("file", .text location.file.text), ("line_start", .nat location.lineStart),
      ("line_end", .nat location.lineStop), ("begin", .nat location.start),
      ("end", .nat location.stop), ("body_begin", .nat location.bodyStart),
      ("body_end", .nat location.bodyStop)]

def ofJson? (value : Json) : Option Location :=
  match value.record? fields with
  | some [some file, some lineStart, some lineStop, some start, some stop, some bodyStart,
      some bodyStop] => do
    let file ← file.text?
    let lineStart ← lineStart.size?
    let lineStop ← lineStop.size?
    let start ← start.size?
    let stop ← stop.size?
    let bodyStart ← bodyStart.size?
    let bodyStop ← bodyStop.size?
    return { file := ⟨file⟩, lineStart, lineStop, start, stop, bodyStart, bodyStop }
  | _ => none

end Location

namespace Token

def fields : List String :=
  ["start", "end"]

def toJson (token : Token) : Json :=
  .record [("start", .nat token.start), ("end", .nat token.stop)]

def ofJson? (value : Json) : Option Token :=
  match value.record? fields with
  | some [some start, some stop] => do return { start := ← start.size?, stop := ← stop.size? }
  | _ => none

end Token

namespace TokenIndex

def fields : List String :=
  ["tokens"]

def toJson (index : TokenIndex) : Json :=
  .record [("tokens", .array (index.tokens.toList.map Token.toJson))]

def ofJson? (value : Json) : Option TokenIndex :=
  match value.record? fields with
  | some [some tokens] => do return { tokens := (← tokens.array? Token.ofJson?).toArray }
  | _ => none

end TokenIndex

namespace Relationship

def fields : List String :=
  ["before", "after", "kind"]

def toJson (relationship : Relationship) : Json :=
  .record
    [("before", .ofOption (relationship.before.map NodeId.toJson)),
      ("after", .ofOption (relationship.after.map NodeId.toJson)),
      ("kind", relationship.kind.toJson)]

/-- A side that is left out is absent, like one that is `null`; both may be. -/
def ofJson? (value : Json) : Option Relationship :=
  match value.record? fields with
  | some [before, after, some kind] => do
    let before ← (before.getD .null).optional? NodeId.ofJson?
    let after ← (after.getD .null).optional? NodeId.ofJson?
    let kind ← RelationKind.ofJson? kind
    return { before, after, kind }
  | _ => none

end Relationship

end Lineage
