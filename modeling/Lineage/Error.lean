import Lineage.Decimal
import Lineage.Path

namespace Lineage

/-- Why an access to the file system failed. -/
inductive DiskFault where
  | notFound
  | alreadyExists
  | notADirectory
  | isADirectory
  | nameTooLong
  | nulInName
  | notText
  deriving Repr, DecidableEq

def DiskFault.message : DiskFault → String
  | notFound => "No such file or directory (os error 2)"
  | alreadyExists => "File exists (os error 17)"
  | notADirectory => "Not a directory (os error 20)"
  | isADirectory => "Is a directory (os error 21)"
  | nameTooLong => "File name too long (os error 36)"
  | nulInName => "file name contained an unexpected NUL byte"
  | notText => "stream did not contain valid UTF-8"

inductive Error where
  /-- Reading or creating one file failed. -/
  | access (fault : DiskFault)
  /-- Listing the files below a path failed. -/
  | walk (path : Path) (fault : DiskFault)
  /-- A text is not JSON, or not of the shape that was asked for. -/
  | json
  /-- A relationship was given neither side. -/
  | emptyRelationship
  | missingTokens (file : Path)
  | missingContents (file : Path)
  | tokenOutOfBounds (file : Path) (start stop size : Nat)
  | invalidThreshold (threshold : Float)

namespace Error

def message : Error → String
  | access fault => "I/O error: " ++ fault.message
  | walk path fault => "I/O error: IO error for operation on " ++ path.text ++ ": " ++ fault.message
  | json => "JSON serialization/deserialization error: "
  | emptyRelationship => "Relationship must have at least one side"
  | missingTokens file => "No token index registered for " ++ file.text
  | missingContents file => "No contents provided for " ++ file.text
  | tokenOutOfBounds file start stop size =>
    s!"Token {start}..{stop} is outside of {file.text} ({size} bytes)"
  | invalidThreshold threshold =>
    "Invalid configuration: threshold must be within [0, 1], got " ++ Decimal.plainText threshold

end Error

end Lineage
