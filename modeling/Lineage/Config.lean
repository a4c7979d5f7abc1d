import Lineage.Error
import Lineage.Json.Record
import Lineage.Text.Utf8

/-!
Settings of a comparison and where they come from: the command line goes before the file, and the
file before the defaults. A file must be valid even if the command line overrides it.
-/

namespace Lineage

structure Config where
  /-- The score that a pair of declarations must exceed to be taken for the same. -/
  threshold : Float := 0.5

namespace Config

def isValid (config : Config) : Bool :=
  config.threshold.isFinite && 0 ≤ config.threshold && config.threshold ≤ 1

/-- The settings, if the threshold is in the unit interval. -/
def validate (config : Config) : Except Error Config :=
  if config.isValid then .ok config else .error (.invalidThreshold config.threshold)

def fields : List String :=
  ["threshold"]

/-- Settings are a closed record; what is left out keeps its default, even at an array's end. -/
def ofJson? (value : Json) : Option Config :=
  match value with
  | .array [] => some {}
  | _ =>
    match value.closedRecord? fields with
    | some [none] => some {}
    | some [some threshold] => threshold.float?.map fun threshold => { threshold }
    | _ => none

def toJson (config : Config) : Json :=
  .record [("threshold", .number (.ofFloat config.threshold))]

/-- The settings in a file's bytes. -/
def read (bytes : ByteArray) : Except Error Config :=
  match Utf8.text? bytes with
  | none => .error (.access .notText)
  | some text =>
    match (Json.parse? text).bind ofJson? with
    | none => .error .json
    | some config => config.validate

/-- The settings to use, given what reading the file brought, if there is one, and the threshold of
the command line. -/
def resolve (file : Option (Except DiskFault ByteArray)) (threshold : Option Float) :
    Except Error Config :=
  let base : Except Error Config :=
    match file with
    | none => .ok {}
    | some (.error fault) => .error (.access fault)
    | some (.ok bytes) => read bytes
  base.bind fun config => { config with threshold := threshold.getD config.threshold }.validate

end Config

/-- The directory for log files below a home directory, or below the working directory. -/
def homeLogDirectory (home : Option String) : Path :=
  (Path.join ⟨home.getD "."⟩ ".refdiff").join "logs"

/-- The directory for log files: the one asked for, if it has a name. -/
def logDirectory (explicit home : Option String) : Path :=
  match explicit with
  | some directory => if directory.isEmpty then homeLogDirectory home else ⟨directory⟩
  | none => homeLogDirectory home

end Lineage
