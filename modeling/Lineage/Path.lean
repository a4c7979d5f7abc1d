/-!
Paths. A path keeps the text it was written with and is looked up by its components, so `a//b/.`
and `a/b` name the same file. `PathMap` is a map from paths that keeps the order of insertion.
-/

namespace Lineage

/-- A path as it was written. -/
structure Path where
  text : String
  deriving Repr, DecidableEq, Inhabited

namespace Path

inductive Component where
  /-- The root of the file system. -/
  | root
  /-- A `.` at the front. -/
  | here
  /-- A `..`, which is not resolved. -/
  | up
  | name (text : List Char)
  deriving Repr, DecidableEq

/-- The text between slashes, empty stretches included. -/
def segments (path : Path) : List (List Char) :=
  path.text.toList.splitOn '/'

/-- What a segment after the first one contributes. -/
def innerComponent : List Char → Option Component
  | [] => none
  | ['.'] => none
  | ['.', '.'] => some .up
  | text => some (.name text)

/-- The components of a path: repeated and trailing slashes do not count, nor does a `.` that is not
at the front. -/
def components (path : Path) : List Component :=
  match path.segments with
  | [] => []
  | [[]] => []
  | [] :: rest => .root :: rest.filterMap innerComponent
  | ['.'] :: rest => .here :: rest.filterMap innerComponent
  | rest => rest.filterMap innerComponent

/-- Whether two paths name the same file. -/
def same (left right : Path) : Bool :=
  left.components == right.components

/-- Drops what does not count from the end of a path, given its segments from last to first. -/
def dropIgnored : List (List Char) → List (List Char)
  | [] => []
  | [segment] => [segment]
  | segment :: before :: rest =>
    if segment = [] ∨ segment = ['.'] then dropIgnored (before :: rest)
    else segment :: before :: rest

/-- The last component, if it is an ordinary name. -/
def fileName? (path : Path) : Option String :=
  match dropIgnored path.segments.reverse with
  | segment :: _ =>
    match innerComponent segment with
    | some (.name text) => some (String.ofList text)
    | _ => none
  | [] => none

/-- The text without the last component; the root and the empty path have no parent. -/
def parent? (path : Path) : Option Path :=
  match dropIgnored path.segments.reverse with
  | [] => none
  | [[]] => none
  | [_] => some ⟨""⟩
  | _ :: before =>
    match dropIgnored before with
    | [[]] => some ⟨"/"⟩
    | kept => some ⟨String.ofList (List.intercalate ['/'] kept.reverse)⟩

/-- What follows the last dot of the file name; a dot at its front does not count. -/
def extension? (path : Path) : Option String :=
  match path.fileName? with
  | none => none
  | some name =>
    match (name.toList.splitOn '.').reverse with
    | [] => none
    | [_] => none
    | [_, []] => none
    | last :: _ => some (String.ofList last)

/-- The path of `name` below `base`. -/
def join (base : Path) (name : String) : Path :=
  if base.text.isEmpty ∨ base.text.toList.getLast? = some '/' then ⟨base.text ++ name⟩
  else ⟨base.text ++ "/" ++ name⟩

/-- The segments after a number of inner components and after what does not count behind them. -/
def dropComponents : (count : Nat) → List (List Char) → List (List Char)
  | 0, segments => segments.dropWhile fun segment => (innerComponent segment).isNone
  | count + 1, segments =>
    dropComponents count (segments.dropWhile fun segment => (innerComponent segment).isNone).tail

/-- A path without what does not count at its end. -/
def trimmed (path : Path) : Path :=
  match dropIgnored path.segments.reverse with
  | [[]] => if path.text.isEmpty then path else ⟨"/"⟩
  | kept => ⟨String.ofList (List.intercalate ['/'] kept.reverse)⟩

/-- The path from `base` to `path`, if `path` starts with the components of `base`. Every component
but the first one is an inner one. -/
def below? (path base : Path) : Option Path :=
  if base.components.isPrefixOf path.components then
    match base.components.length with
    | 0 => some path.trimmed
    | count + 1 =>
      let kept := (dropIgnored (dropComponents count path.segments.tail).reverse).reverse
      some ⟨String.ofList (List.intercalate ['/'] kept)⟩
  else none

end Path

/-- A map from paths, in the order of insertion. -/
structure PathMap (α : Type) where
  entries : List (Path × α) := []
  deriving Repr, Inhabited

namespace PathMap

variable {α : Type}

def find? (map : PathMap α) (path : Path) : Option α :=
  (map.entries.find? fun entry => entry.1.same path).map Prod.snd

/-- Replaces the value of `path` where it stands, and puts a new path last. -/
def put (path : Path) (value : α) : List (Path × α) → List (Path × α)
  | [] => [(path, value)]
  | entry :: rest =>
    if entry.1.same path then (entry.1, value) :: rest else entry :: put path value rest

def insert (map : PathMap α) (path : Path) (value : α) : PathMap α :=
  ⟨put path value map.entries⟩

def ofList (entries : List (Path × α)) : PathMap α :=
  entries.foldl (fun map entry => map.insert entry.1 entry.2) {}

def size (map : PathMap α) : Nat :=
  map.entries.length

theorem find?_insert_self (map : PathMap α) (path : Path) (value : α) :
    (map.insert path value).find? path = some value := by
  obtain ⟨entries⟩ := map
  simp only [insert, find?]
  induction entries with
  | nil => simp [put, Path.same]
  | cons entry rest ih =>
    by_cases h : entry.1.same path
    · simp [put, h]
    · simpa [put, h] using ih

end PathMap

end Lineage
