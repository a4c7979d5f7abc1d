import Lineage.Program

/-!
The executable. It reads what the arguments name from the real file system, runs the program on
that, and carries out the result. Syntax trees are read from listings: that of `a.js` is `a.js.cst`
beside it.
-/

namespace Lineage.Executable

/-- Reads a file or a directory with everything below it; nothing if there is none. -/
partial def readItem (path : String) : IO (Option Item) := do
  let place := (← IO.currentDir) / path
  unless ← place.pathExists do
    return none
  if ← place.isDir then
    let entries ← place.readDir
    let found ← entries.toList.filterMapM fun entry => do
      return (← readItem entry.path.toString).map fun item => (entry.fileName, item)
    return some (.directory found)
  else
    return some (.file (← IO.FS.readBinFile path))

/-- The syntax trees of the source files below an item. -/
def grammarOf (item : Item) : List (ByteArray × JavaScript.SyntaxTree) :=
  item.files.filterMap fun (names, bytes) => do
    let last ← names.getLast?
    let .file listing ← item.at? (names.dropLast ++ [last ++ ".cst"]) | none
    let text ← Utf8.text? listing
    let tree ← (Json.parse? text).bind JavaScript.SyntaxTree.ofJson?
    return (bytes, tree)

/-- The names on the way to a path from the root. -/
def absoluteNames (workingDirectory path : String) : List String :=
  let full := if path.startsWith "/" then path else workingDirectory ++ "/" ++ path
  ((Path.mk full).segments.map String.ofList).foldl (fun names segment =>
    if segment.isEmpty || segment == "." then names
    else if segment == ".." then names.dropLast
    else names ++ [segment]) []

/-- The paths that a request reads or makes; of those, the ones that may be listed as a whole. -/
def pathsOf (environment : Program.Environment) : CommandLine.Request → List String × List String
  | .run shared command =>
    let logDir := (Program.logDirOf environment shared).text
    match command with
    | .diff before after options =>
      ([before.text, after.text] ++ (options.config.map Path.text).toList, [logDir])
    | .tree path => ([path.text], [logDir])
  | _ => ([], [])

/-- Puts what is at the paths into a file system in memory; of the others, only whether they are
directories. -/
def readDisk (whole bare : List String) : IO Disk := do
  let workingDirectory := (← IO.currentDir).toString
  let put (root : Item) (path : String) (item : Item) : Item :=
    root.put (absoluteNames workingDirectory path) item
  let mut root := Item.put (.directory []) (absoluteNames workingDirectory ".") (.directory [])
  for path in bare do
    for ancestor in (Disk.selfAndParents ⟨path⟩ (path.length + 1)).reverse do
      let place := (← IO.currentDir) / ancestor.text
      if ← place.pathExists then
        let item : Item := if ← place.isDir then .directory [] else .file .empty
        root := put root ancestor.text item
  for path in whole do
    if let some item ← readItem path then
      root := put root path item
      if let .file _ := item then
        if let some listing ← readItem (path ++ ".cst") then
          root := put root (path ++ ".cst") listing
  return { root, workingDirectory := absoluteNames workingDirectory "." }

/-- The directories that a run made, each after the one it is in. -/
def madeDirectories (found left : Disk) : List (List String) :=
  left.root.directories.filter (· ∉ found.root.directories)

end Lineage.Executable

open Lineage Lineage.Executable in
def main (args : List String) : IO UInt32 := do
  let environment : Program.Environment :=
    { logDir := ← IO.getEnv "REFDIFF_LOG_DIR", home := ← IO.getEnv "HOME" }
  let (whole, bare) := pathsOf environment (CommandLine.parse args)
  let disk ← readDisk whole bare
  let grammar := JavaScript.Grammar.ofList (grammarOf disk.root)
  let outcome := Program.run grammar environment disk args
  for names in madeDirectories disk outcome.disk do
    IO.FS.createDir ("/" ++ "/".intercalate names)
  IO.print outcome.output
  if let some line := outcome.errorLine then
    IO.eprintln line
  return outcome.exitCode.toUInt32
