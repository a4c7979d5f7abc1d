import Lineage.Error

/-!
A file system in memory: looking up paths, making directories and listing files. A path is resolved
from the working directory, segment by segment; every segment but the last must be a directory, and
an empty segment or a `.` asks for one, too. Names and paths have a greatest length in bytes.
-/

namespace Lineage

inductive Item where
  | file (bytes : ByteArray)
  | directory (entries : List (String × Item))
  deriving Inhabited

namespace Item

/-- The item at a list of names below this one. -/
def at? : Item → List String → Option Item
  | item, [] => some item
  | .directory entries, name :: names =>
    match entries.lookup name with
    | some item => item.at? names
    | none => none
  | .file _, _ :: _ => none

/-- Replaces the entry of `name` or adds one. -/
def setEntry (name : String) (item : Item) : List (String × Item) → List (String × Item)
  | [] => [(name, item)]
  | entry :: entries =>
    if entry.1 = name then (name, item) :: entries else entry :: setEntry name item entries

/-- Puts an item at a list of names below this one, with the directories in between. Nothing can be
put below a file. -/
def put : Item → (names : List String) → (item : Item) → Item
  | _, [], item => item
  | .directory entries, name :: names, item =>
    let below := (entries.lookup name).getD (.directory [])
    .directory (setEntry name (below.put names item) entries)
  | .file bytes, _ :: _, _ => .file bytes

/-- Sorts what is known of the entries of a directory by their names. -/
def sortByName {α : Type} (entries : List (String × α)) : List (String × α) :=
  entries.mergeSort fun a b => !(b.1 < a.1)

mutual

/-- An item and everything below it with the names on the way there, depth first and sorted by
name. A directory comes before its entries. -/
def walk : Item → List (List String × Item)
  | .file bytes => [([], .file bytes)]
  | .directory entries =>
    ([], .directory entries) :: (sortByName (walkEntries entries)).flatMap fun (name, found) =>
      found.map fun (names, item) => (name :: names, item)

def walkEntries : List (String × Item) → List (String × List (List String × Item))
  | [] => []
  | (name, item) :: entries => (name, walk item) :: walkEntries entries

end

/-- The files of a walk. -/
def files (item : Item) : List (List String × ByteArray) :=
  item.walk.filterMap fun (names, found) =>
    match found with
    | .file bytes => some (names, bytes)
    | .directory _ => none

mutual

/-- The directories below an item with the names on the way to them. -/
def directories : Item → List (List String)
  | .file _ => []
  | .directory entries => directoriesOfEntries entries

def directoriesOfEntries : List (String × Item) → List (List String)
  | [] => []
  | (_, .file _) :: entries => directoriesOfEntries entries
  | (name, .directory inner) :: entries =>
    [name] :: (directories (.directory inner)).map (name :: ·) ++ directoriesOfEntries entries

end

end Item

/-- A file system with a working directory. -/
structure Disk where
  root : Item := .directory []
  workingDirectory : List String := []
  deriving Inhabited

namespace Disk

/-- The bytes of the longest name of an entry. -/
def longestName : Nat := 255

/-- The bytes of the longest path that can be looked up. -/
def longestPath : Nat := 4095

/-- Goes from a directory, given by the names on the way to it, along one segment of a path. -/
def step (disk : Disk) (place : List String) (segment : List Char) :
    Except DiskFault (List String) :=
  match disk.root.at? place with
  | none => .error .notFound
  | some (.file _) => .error .notADirectory
  | some (.directory entries) =>
    match segment with
    | [] => .ok place
    | ['.'] => .ok place
    | ['.', '.'] => .ok place.dropLast
    | _ =>
      let name := String.ofList segment
      if longestName < name.utf8ByteSize then .error .nameTooLong
      else if (entries.lookup name).isSome then .ok (place ++ [name])
      else .error .notFound

/-- Where a relative path starts. -/
def origin (disk : Disk) (path : Path) : List String :=
  if path.text.toList.head? = some '/' then [] else disk.workingDirectory

/-- Follows segments from where `path` starts, if the path as a whole can be looked up. -/
def follow (disk : Disk) (path : Path) (segments : List (List Char)) :
    Except DiskFault (List String) :=
  if path.text.toList.contains '\x00' then .error .nulInName
  else if path.text.isEmpty then .error .notFound
  else if longestPath < path.text.utf8ByteSize then .error .nameTooLong
  else segments.foldlM disk.step (disk.origin path)

/-- The place that a path leads to. -/
def resolve (disk : Disk) (path : Path) : Except DiskFault (List String) :=
  disk.follow path path.segments

def find (disk : Disk) (path : Path) : Except DiskFault Item :=
  (disk.resolve path).bind fun place =>
    match disk.root.at? place with
    | some item => .ok item
    | none => .error .notFound

def isDirectory (disk : Disk) (path : Path) : Bool :=
  match disk.find path with
  | .ok (.directory _) => true
  | _ => false

/-- The bytes of a file. -/
def read (disk : Disk) (path : Path) : Except DiskFault ByteArray :=
  (disk.find path).bind fun item =>
    match item with
    | .file bytes => .ok bytes
    | .directory _ => .error .isADirectory

/-- Makes one directory. Its parent must be there, and it must not; a `.` or `..` at the end names a
directory that is there. -/
def makeDirectory (disk : Disk) (path : Path) : Except DiskFault Disk :=
  match path.segments.reverse.dropWhile (·.isEmpty) with
  | [] => (disk.follow path []).bind fun _ => .error .alreadyExists
  | last :: before => do
    let place ← disk.follow path before.reverse
    match disk.step place last with
    | .ok _ => .error .alreadyExists
    | .error .notFound =>
      .ok { disk with root := disk.root.put (place ++ [String.ofList last]) (.directory []) }
    | .error fault => .error fault

/-- The path, its parent, and so on, until no text is left. No path has more parents than
characters. -/
def selfAndParents (path : Path) : (count : Nat) → List Path
  | 0 => []
  | count + 1 =>
    if path.text.isEmpty then []
    else
      match path.parent? with
      | some parent => path :: selfAndParents parent count
      | none => [path]

/-- Makes a directory, or leaves one that is there already. -/
def makeOrKeep (disk : Disk) (path : Path) : Disk × Option DiskFault :=
  match disk.makeDirectory path with
  | .ok disk => (disk, none)
  | .error fault => (disk, if disk.isDirectory path then none else some fault)

/-- Makes the first directory of a list, after those that follow if it lacks its parent. What was
made before a failure stays. -/
def makeFirst (disk : Disk) : List Path → Disk × Option DiskFault
  | [] => (disk, none)
  | path :: parents =>
    match disk.makeDirectory path with
    | .error .notFound =>
      match disk.makeFirst parents with
      | (disk, none) => disk.makeOrKeep path
      | failed => failed
    | _ => disk.makeOrKeep path

/-- Makes a directory with all its parents. -/
def makeDirectories (disk : Disk) (path : Path) : Disk × Option DiskFault :=
  disk.makeFirst (selfAndParents path (path.text.length + 1))

def hasExtension (extensions : List String) (path : Path) : Bool :=
  path.extension?.any (· ∈ extensions)

/-- Visits an item on a walk from `root`: a directory is opened, and a file with one of the
extensions is read and kept under its path from there. A path that did not start with the root would
be kept whole. -/
def visit (disk : Disk) (root : Path) (extensions : List String) (files : PathMap ByteArray)
    (visited : List String × Item) : Except Error (PathMap ByteArray) :=
  let path := visited.1.foldl Path.join root
  match visited.2 with
  | .directory _ =>
    match disk.find path with
    | .error fault => .error (.walk path fault)
    | .ok _ => .ok files
  | .file _ =>
    if hasExtension extensions path then
      match disk.read path with
      | .error fault => .error (.access fault)
      | .ok bytes => .ok (files.insert ((path.below? root).getD path) bytes)
    else .ok files

/-- The source files of a snapshot: a single file under its own name, or all files below a directory
that have one of the extensions. -/
def load (disk : Disk) (root : Path) (extensions : List String) :
    Except Error (PathMap ByteArray) :=
  match disk.find root with
  | .error fault => .error (.walk root fault)
  | .ok (.file bytes) =>
    .ok (.ofList [((root.fileName?.map Path.mk).getD root, bytes)])
  | .ok directory => directory.walk.foldlM (disk.visit root extensions) {}

end Disk

end Lineage
