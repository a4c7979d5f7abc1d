import Lineage.JavaScript.Declaration
import Lineage.Snapshot

/-!
The declarations of JavaScript files as a code tree. Each file is a root; its declarations are
numbered in the order in which they start, below the innermost declaration around them. Calls are
resolved within the file once all of its declarations are known.
-/

namespace Lineage.JavaScript

/-- A declaration with its place in the tree. -/
structure Found where
  element : Element
  /-- The name that calls use; classes are not called. -/
  key : Option String
  parent : NodeId

/-- What a stretch of a file declares, and which names it calls from where, in text order. -/
structure Outline where
  found : List Found := []
  calls : List (NodeId × String) := []

namespace Outline

def append (left right : Outline) : Outline where
  found := left.found ++ right.found
  calls := left.calls ++ right.calls

end Outline

/-- The file that is outlined. -/
structure Source where
  file : Path
  bytes : ByteArray

/-- The innermost declaration around a syntax node, and the innermost class. -/
structure Place where
  container : NodeId
  className : Option String := none

/-- The extent of a declaration. Line feed assumption: the row that the grammar gives an end of a
node is the number of line feeds before it. Syntax trees have no rows of their own, so the lines are
counted in the text instead. -/
def Source.locate (source : Source) (tree : SyntaxTree) (body : Option SyntaxTree) : Location where
  file := source.file
  lineStart := lineAt source.bytes tree.start
  lineStop := lineAt source.bytes tree.stop
  start := tree.start
  stop := tree.stop
  bodyStart := body.elim tree.start SyntaxTree.start
  bodyStop := body.elim tree.stop SyntaxTree.stop

/-- The element that a declaration becomes. -/
def Source.element (source : Source) (tree : SyntaxTree) (declaration : Declaration) : Element where
  kind := declaration.kind
  name := declaration.name
  params := declaration.params
  location := source.locate tree declaration.body

/-- The place inside a declaration with the number `id`. -/
def Place.enter (place : Place) (id : NodeId) (declaration : Declaration) : Place where
  container := id
  className := if declaration.kind = .classDecl then some declaration.name else place.className

/-- The name under which a declaration is called. -/
def Declaration.callKey (declaration : Declaration) : Option String :=
  if declaration.kind = .classDecl then none else some declaration.key

mutual

/-- Outlines a syntax node at a place; the first declaration in it gets the number `next`. -/
def outlineTree (source : Source) (place : Place) (next : NodeId) : SyntaxTree → Outline
  | .node kind field named start stop children =>
    let tree := SyntaxTree.node kind field named start stop children
    match declaration? source.bytes place.className tree with
    | some declaration =>
      let inner := outlineForest source (place.enter next declaration) (next + 1) children
      let found : Found :=
        { element := source.element tree declaration, key := declaration.callKey,
          parent := place.container }
      { inner with found := found :: inner.found }
    | none =>
      let inner := outlineForest source place next children
      match callee? source.bytes place.className tree with
      | some callee => { inner with calls := (place.container, callee) :: inner.calls }
      | none => inner

/-- Outlines the named nodes of a list. -/
def outlineForest (source : Source) (place : Place) (next : NodeId) : List SyntaxTree → Outline
  | [] => {}
  | tree :: trees =>
    if tree.isNamed then
      let first := outlineTree source place next tree
      first.append (outlineForest source place (next + first.found.length) trees)
    else outlineForest source place next trees

end

/-- The root node of a file. -/
def fileElement (source : Source) : Element where
  kind := .file
  name := source.file.fileName?.getD ""
  scope := some ((source.file.parent?.map Path.text).getD "")
  location :=
    { file := source.file
      lineStart := 1
      lineStop := lineAt source.bytes source.bytes.size
      start := 0
      stop := source.bytes.size }

/-- The declaration that a name refers to: the last one with that name. The declarations of a file
are numbered from `first` on. -/
def resolve? (first : NodeId) (found : List Found) (name : String) : Option NodeId :=
  ((found.zipIdx first).reverse.find? fun (f, _) => f.key == some name).map Prod.snd

/-- Adds the declarations of an outline below their parents. -/
def addFound (tree : CodeTree) (found : List Found) : CodeTree :=
  found.foldl (fun tree f => (tree.addChild f.parent f.element).getD tree) tree

/-- Adds the calls of an outline that can be resolved. -/
def addCalls (first : NodeId) (found : List Found) (tree : CodeTree)
    (calls : List (NodeId × String)) : CodeTree :=
  calls.foldl (fun tree (caller, name) =>
    match resolve? first found name with
    | some callee => tree.addCall caller callee
    | none => tree) tree

/-- Adds a file with all its declarations, calls and tokens. -/
def addFile (tree : CodeTree) (source : Source) (program : SyntaxTree) : CodeTree :=
  let root := tree.size
  let outline := outlineTree source { container := root } (root + 1) program
  let tree := (tree.addRoot (fileElement source)).setTokens source.file
    { tokens := program.tokens.toArray }
  addCalls (root + 1) outline.found (addFound tree outline.found) outline.calls

/-- The code tree of a set of files. -/
def outline (grammar : Grammar) (files : PathMap ByteArray) : CodeTree :=
  files.entries.foldl (fun tree (file, bytes) => addFile tree { file, bytes } (grammar bytes)) {}

/-- The snapshot of a set of files. -/
def snapshot (grammar : Grammar) (files : PathMap ByteArray) : Snapshot where
  tree := outline grammar files
  files := files

/-- The name of the language. -/
def languageName : String := "javascript"

/-- The extensions of file names that hold source code. -/
def extensions : List String := ["js", "mjs", "cjs", "jsx"]

end Lineage.JavaScript
