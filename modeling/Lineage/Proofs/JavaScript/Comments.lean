import Lineage.Proofs.Erasure
import Lineage.Proofs.JavaScript.CallResolution
import Lineage.Proofs.JavaScript.CommentFree

namespace Lineage.JavaScript

section Outlines

/-- The element of a declaration without the comments in its signature. -/
def Source.bareElement (source : Source) (part : SyntaxTree) (declaration : Declaration) :
    Element :=
  { source.element part declaration with
    params := declaration.params.map fun _ =>
      paramsOf source.bytes (callableOf part).withoutComments }

theorem eraseParams_bareElement (source : Source) (part : SyntaxTree) (declaration : Declaration) :
    (source.bareElement part declaration).eraseParams =
      (source.element part declaration).eraseParams := by
  simp [Source.bareElement, Source.element, Element.eraseParams, Function.comp_def]

theorem element_withoutComments (source : Source) (part : SyntaxTree) (declaration : Declaration) :
    source.element part.withoutComments
        (declaration.withoutComments source.bytes (callableOf part)) =
      source.bareElement part declaration := by
  obtain ⟨kind, name, key, params, body⟩ := declaration
  cases body <;> simp [Source.element, Source.bareElement, Source.locate,
    Declaration.withoutComments]

variable {source : Source} {element : SyntaxTree → Declaration → Element} {program : SyntaxTree}
  {file : NodeId} {number : Position → NodeId} {position : Position} {part : SyntaxTree}

theorem silent_of_comment (bytes : ByteArray) (className : Option String)
    (h : SyntaxTree.isComment part.kind = true) :
    declaration? bytes className part = none ∧ callee? bytes className part = none := by
  rcases SyntaxTree.isComment_iff.mp h with hkind | hkind <;> simp [declaration?, callee?, hkind]

theorem outlines_comment (hat : program.at? position = some part)
    (hbare : part.BareComments) (hcomment : SyntaxTree.isComment part.kind = true) :
    Outlines source element program file number (part.positions position) {} := by
  obtain ⟨hdeclared, hcalled⟩ :=
    silent_of_comment source.bytes (classAround? source.bytes program position) hcomment
  rw [← declaredAt?_of_at? hat] at hdeclared
  have hcall : callAt? source program file number position = none := by
    rw [callAt?, calledAt?_of_at? hat, hcalled]
    rfl
  rw [SyntaxTree.positions_eq, hbare.children_eq hcomment, SyntaxTree.forestPositions]
  constructor
  · rw [declaredAmong_cons_of_other hdeclared]
    rfl
  · rw [List.filterMap_cons_none hcall, List.filterMap_nil]

theorem outlined_withoutComments (part : SyntaxTree) (hbare : part.BareComments) :
    Outlined source source.bareElement program file number part part.withoutComments := by
  induction part using SyntaxTree.induct with
  | step part ih =>
      have hpart : StandsFor source source.bareElement part part.withoutComments
          (Declaration.withoutComments source.bytes (callableOf part)) :=
        ⟨declaration?_withoutComments source.bytes hbare, callee?_withoutComments hbare,
          element_withoutComments source part, fun _ => rfl, fun _ _ _ => rfl⟩
      refine hpart.outlined ?_
      intro place next position hat hplace hnumber
      rw [SyntaxTree.children_withoutComments, SyntaxTree.forestWithoutComments_eq]
      refine outlines_forest _ _ SyntaxTree.isNamed_withoutComments ?_ ?_
        (at?_of_namedChildren hat) hplace hnumber
      · intro child hchild _
        exact ih child hchild (hbare.child hchild)
      · intro child hchild hcomment position hat
        exact outlines_comment hat (hbare.child hchild) (by simpa using hcomment)

end Outlines

section Trees

def Found.eraseParams (found : Found) : Found :=
  { found with element := found.element.eraseParams }

theorem eraseParams_addFound (tree : CodeTree) (found : List Found) :
    (addFound tree found).eraseParams =
      addFound tree.eraseParams (found.map Found.eraseParams) := by
  induction found generalizing tree with
  | nil => rfl
  | cons f rest ih =>
      rw [addFound, List.foldl_cons, List.map_cons, addFound, List.foldl_cons]
      refine (ih _).trans ?_
      congr 1
      rw [Found.eraseParams, ← CodeTree.eraseParams_addChild]
      cases tree.addChild f.parent f.element <;> rfl

theorem resolve?_eraseParams (first : NodeId) (found : List Found) (name : String) :
    resolve? first (found.map Found.eraseParams) name = resolve? first found name := by
  rw [resolve?, resolve?, List.zipIdx_map, ← List.map_reverse, List.find?_map, Option.map_map]
  rfl

theorem eraseParams_addCalls (first : NodeId) (found : List Found) (tree : CodeTree)
    (calls : List (NodeId × String)) :
    (addCalls first found tree calls).eraseParams =
      addCalls first (found.map Found.eraseParams) tree.eraseParams calls := by
  induction calls generalizing tree with
  | nil => rfl
  | cons call rest ih =>
      rw [addCalls, List.foldl_cons, addCalls, List.foldl_cons]
      refine (ih _).trans ?_
      congr 1
      simp only [resolve?_eraseParams]
      split
      · exact CodeTree.eraseParams_addCall tree _ _
      · rfl

theorem eraseParams_addFile (tree : CodeTree) (source : Source) (program : SyntaxTree) :
    (addFile tree source program).eraseParams =
      let outline := outlineTree source { container := tree.size } (tree.size + 1) program
      addCalls (tree.size + 1) (outline.found.map Found.eraseParams)
        (addFound (tree.eraseParams.addRoot (fileElement source).eraseParams)
          (outline.found.map Found.eraseParams)) outline.calls := by
  rw [addFile, eraseParams_addCalls, eraseParams_addFound]
  congr 2
  exact CodeTree.eraseParams_addRoot tree (fileElement source)

end Trees

section Survival

/-- A position declares a function with a rest parameter that has a comment before its name. -/
def HidesRestAt (bytes : ByteArray) (program : SyntaxTree) (position : Position) : Prop :=
  ∃ part declaration, program.at? position = some part ∧
    declaredAt? bytes program position = some declaration ∧ declaration.kind = .function ∧
    HidesRest bytes (callableOf part)

/-- The tree of a file without its comments has the same declarations in the same places with the
same calls. It has all parameters that the tree with comments has, and more of them where a comment
hides one. -/
structure LosesHiddenRests (source : Source) (program : SyntaxTree) (file : NodeId)
    (whole bare : CodeTree) : Prop where
  erased_eq : bare.eraseParams = whole.eraseParams
  params : ∀ position ∈ declaredOrder source program, ∃ node node',
    whole.node? (numberAt source program file position) = some node ∧
    bare.node? (numberAt source program file position) = some node' ∧
    (node.params.getD []).Sublist (node'.params.getD []) ∧
    (node' = node ↔ ¬HidesRestAt source.bytes program position)
  all : (∀ id, bare.node? id = whole.node? id) ↔
    ∀ position, ¬HidesRestAt source.bytes program position

variable {source : Source} {program : SyntaxTree}

variable (source) in
theorem outlines_bareProgram (hbare : program.BareComments) (file : NodeId) :
    Outlines source source.bareElement program file (numberAt source program file)
      (program.positions [])
      (outlineTree source { container := file } (file + 1) program.withoutComments) :=
  outlined_withoutComments program hbare _ (file + 1) [] rfl ⟨rfl, rfl⟩
    (numberedFrom_program source program file)

variable (source program) in
theorem outlines_program (file : NodeId) :
    Outlines source source.element program file (numberAt source program file)
      (program.positions []) (outlineTree source { container := file } (file + 1) program) :=
  outlined program _ (file + 1) [] rfl ⟨rfl, rfl⟩ (numberedFrom_program source program file)

theorem map_eraseParams_found (hbare : program.BareComments) (file : NodeId) :
    (outlineTree source { container := file } (file + 1)
        program.withoutComments).found.map Found.eraseParams =
      (outlineTree source { container := file } (file + 1) program).found.map
        Found.eraseParams := by
  have herased (position : Position) :
      (foundAt? source source.bareElement program file (numberAt source program file)
          position).map Found.eraseParams =
        (foundAt? source source.element program file (numberAt source program file)
          position).map Found.eraseParams := by
    simp only [foundAt?, Option.map_bind, Option.map_map, Function.comp_def,
      Found.eraseParams, eraseParams_bareElement]
  have hlift (found : List Found) :
      (found.map Found.eraseParams).map some =
        (found.map some).map (Option.map Found.eraseParams) := by
    simp
  apply List.map_injective_iff.mpr (Option.some_injective Found)
  rw [hlift, hlift, (outlines_bareProgram source hbare file).found_eq,
    (outlines_program source program file).found_eq, List.map_map, List.map_map]
  apply List.map_congr_left
  intro position _
  exact herased position

theorem eraseParams_withoutComments (tree : CodeTree) (source : Source)
    (hbare : program.BareComments) :
    (addFile tree source program.withoutComments).eraseParams =
      (addFile tree source program).eraseParams := by
  rw [eraseParams_addFile, eraseParams_addFile]
  simp only
  rw [map_eraseParams_found hbare, (outlines_bareProgram source hbare tree.size).calls_eq,
    (outlines_program source program tree.size).calls_eq]

theorem exists_bareNode (tree : CodeTree) (hbare : program.BareComments) {position : Position}
    (hposition : position ∈ declaredOrder source program) {part : SyntaxTree}
    {declaration : Declaration} (hpart : program.at? position = some part)
    (hdeclaration : declaration? source.bytes (classAround? source.bytes program position) part =
      some declaration) :
    ∃ node, (addFile tree source program.withoutComments).node?
        (numberAt source program tree.size position) = some node ∧
      node.toElement = source.bareElement part declaration := by
  have hindex : (declaredOrder source program)[(declaredOrder source program).idxOf position]? =
      some position := List.getElem?_idxOf hposition
  have hfound := congrArg (·[(declaredOrder source program).idxOf position]?)
    (outlines_bareProgram source hbare tree.size).found_eq
  simp only [List.getElem?_map] at hfound
  rw [← declaredOrder, hindex, Option.map_some, foundAt?, hpart, Option.bind_some,
    hdeclaration, Option.map_some] at hfound
  obtain ⟨f, hf, heq⟩ := Option.map_eq_some_iff.mp hfound
  cases heq
  obtain ⟨node, hnode, helement, -⟩ := exists_node?_of_birth?
    ((appends_addFile tree source program.withoutComments).declared _ _ hf)
  exact ⟨node, hnode, helement⟩

theorem params_withoutComments {part : SyntaxTree} {declaration : Declaration}
    (hbare : part.BareComments)
    (hdescribes : Describes source.bytes part declaration) :
    (declaration.params.getD []).Sublist ((source.bareElement part declaration).params.getD []) ∧
      ((source.bareElement part declaration).params = declaration.params ↔
        ¬(declaration.kind = .function ∧ HidesRest source.bytes (callableOf part))) := by
  have hcallable : (callableOf part).BareComments := by
    rcases callableOf_cases part with heq | hmem
    · rwa [heq]
    · exact hbare.child hmem
  obtain ⟨hsublist, hiff⟩ := paramsOf_withoutComments source.bytes hcallable
  rw [Source.bareElement]
  rcases hdescribes.signature with ⟨hkind, hparams⟩ | ⟨hkind, hparams⟩
  · simp [hparams, hkind]
  · simpa [hparams, hkind] using ⟨hsublist, hiff⟩

theorem hidesRestAt_iff {bytes : ByteArray} {position : Position} {part : SyntaxTree}
    {declaration : Declaration} (hpart : program.at? position = some part)
    (hdeclared : declaredAt? bytes program position = some declaration) :
    HidesRestAt bytes program position ↔
      declaration.kind = .function ∧ HidesRest bytes (callableOf part) := by
  constructor
  · rintro ⟨other, otherDeclaration, hother, hotherDeclared, hhides⟩
    cases hpart.symm.trans hother
    cases hdeclared.symm.trans hotherDeclared
    exact hhides
  · rintro hhides
    exact ⟨part, declaration, hpart, hdeclared, hhides⟩

theorem eraseParams_node_eq {left right : CodeTree} (h : left.eraseParams = right.eraseParams)
    {id : NodeId} {node node' : Node} (hnode : left.node? id = some node)
    (hnode' : right.node? id = some node') : node.eraseParams = node'.eraseParams := by
  have hid := congrArg (·.node? id) h
  simp only [CodeTree.node?_eraseParams, hnode, hnode', Option.map_some] at hid
  exact Option.some.inj hid

theorem birth?_withoutComments (tree : CodeTree) (source : Source) (program : SyntaxTree)
    {id : NodeId} (hid : id ≤ tree.size) :
    (addFile tree source program.withoutComments).birth? id =
      (addFile tree source program).birth? id := by
  have hbare := appends_addFile tree source program.withoutComments
  have hwhole := appends_addFile tree source program
  rcases Nat.lt_or_eq_of_le hid with hlt | rfl
  · rw [hbare.older id hlt, hwhole.older id hlt]
  · rw [hbare.file, hwhole.file]

theorem exists_nodes_at (tree : CodeTree) (hbare : program.BareComments) {position : Position}
    (hposition : position ∈ declaredOrder source program) :
    ∃ node node',
      (addFile tree source program).node? (numberAt source program tree.size position) =
        some node ∧
      (addFile tree source program.withoutComments).node?
        (numberAt source program tree.size position) = some node' ∧
      (node.params.getD []).Sublist (node'.params.getD []) ∧
      (node' = node ↔ ¬HidesRestAt source.bytes program position) := by
  obtain ⟨part, node, hnode, hholds⟩ := exists_holdsAt tree hposition
  obtain ⟨declaration, hdeclaration, helement⟩ := hholds.declared
  obtain ⟨node', hnode', helement'⟩ :=
    exists_bareNode tree hbare hposition hholds.at?_eq hdeclaration
  obtain ⟨hsublist, hiff⟩ := params_withoutComments (hbare.of_at? hholds.at?_eq)
    (describes_of_declaration? hdeclaration)
  have hdeclared : declaredAt? source.bytes program position = some declaration := by
    rw [declaredAt?_of_at? hholds.at?_eq, hdeclaration]
  have hparams : node.params = declaration.params := congrArg Element.params helement
  have hparams' : node'.params = (source.bareElement part declaration).params :=
    congrArg Element.params helement'
  rw [← hparams, ← hparams'] at hsublist hiff
  refine ⟨node, node', hnode, hnode', hsublist, ?_⟩
  rw [hidesRestAt_iff hholds.at?_eq hdeclared, ← hiff]
  have herased := eraseParams_node_eq (eraseParams_withoutComments tree source hbare) hnode' hnode
  exact ⟨fun heq => heq ▸ rfl, fun heq => Node.eq_of_eraseParams_eq herased heq⟩

/-- Deleting the comments of a file leaves its declarations as they are, up to the names of rest
parameters that come after a comment; and if there are none, it changes nothing. -/
theorem comments_hide_only_rest_parameters (tree : CodeTree) (source : Source)
    (program : SyntaxTree) (hbare : program.BareComments) :
    LosesHiddenRests source program tree.size (addFile tree source program)
      (addFile tree source program.withoutComments) where
  erased_eq := eraseParams_withoutComments tree source hbare
  params position hposition := exists_nodes_at tree hbare hposition
  all := by
    have herased := eraseParams_withoutComments tree source hbare
    constructor
    · intro hsame position hhides
      have hposition : position ∈ declaredOrder source program := by
        obtain ⟨_, declaration, -, hdeclared, -⟩ := hhides
        rw [mem_declaredOrder_iff, hdeclared]
        rfl
      obtain ⟨node, node', hnode, hnode', -, hiff⟩ := exists_nodes_at tree hbare hposition
      rw [hsame, hnode] at hnode'
      exact hiff.mp (Option.some.inj hnode').symm hhides
    · intro hnone id
      have hsize : (addFile tree source program.withoutComments).size =
          (addFile tree source program).size := by
        simpa using congrArg CodeTree.size herased
      rcases Nat.lt_or_ge id (addFile tree source program).size with hlt | hge
      · rcases Nat.lt_or_ge tree.size id with hid | hid
        · obtain ⟨position, hposition, rfl⟩ := exists_numberAt_eq hid hlt
          obtain ⟨node, node', hnode, hnode', -, hiff⟩ := exists_nodes_at tree hbare hposition
          rw [hnode, hnode', hiff.mpr (hnone position)]
        · obtain ⟨node, hnode⟩ := CodeTree.exists_node?_of_lt_size hlt
          obtain ⟨node', hnode'⟩ := CodeTree.exists_node?_of_lt_size (hsize ▸ hlt)
          have hbirth := birth?_withoutComments tree source program hid
          rw [CodeTree.birth?, CodeTree.birth?, hnode, hnode'] at hbirth
          have helement := congrArg Prod.fst (Option.some.inj hbirth)
          rw [hnode, hnode', Node.eq_of_eraseParams_eq (eraseParams_node_eq herased hnode' hnode)
            (congrArg Element.params helement)]
      · rw [CodeTree.node?_eq_none_of_size_le hge, CodeTree.node?_eq_none_of_size_le (hsize ▸ hge)]

/-- A file with the text `function f(.../*c*/r){}`. -/
def restSource : Source where
  file := ⟨"a.js"⟩
  bytes := ⟨#[102, 117, 110, 99, 116, 105, 111, 110, 32, 102, 40, 46, 46, 46, 47, 42, 99, 42,
    47, 114, 41, 123, 125]⟩

def restProgram : SyntaxTree :=
  .node "program" "" true 0 23
    [.node "function_declaration" "" true 0 23
      [.node "function" "" false 0 8 [], .node "identifier" "name" true 9 10 [],
        .node "formal_parameters" "parameters" true 10 21
          [.node "(" "" false 10 11 [],
            .node "rest_pattern" "" true 11 20
              [.node "..." "" false 11 14 [], .node "comment" "" true 14 19 [],
                .node "identifier" "" true 19 20 []],
            .node ")" "" false 20 21 []],
        .node "statement_block" "body" true 21 23
          [.node "\x7b" "" false 21 22 [], .node "\x7d" "" false 22 23 []]]]

theorem bareComments_restProgram : restProgram.BareComments := by
  simp [restProgram, SyntaxTree.bareComments_node_iff, SyntaxTree.isComment]

theorem rest_parameter_after_a_comment_is_lost :
    restProgram.BareComments ∧
      (addFile {} restSource restProgram.withoutComments).eraseParams =
        (addFile {} restSource restProgram).eraseParams ∧
      ∃ position, HidesRestAt restSource.bytes restProgram position := by
  have hlost := comments_hide_only_rest_parameters {} restSource restProgram
    bareComments_restProgram
  refine ⟨bareComments_restProgram, hlost.erased_eq, ?_⟩
  by_contra hnone
  have hsame := hlost.all.mpr (not_exists.mp hnone) 1
  revert hsame
  decide

theorem comment_changes_the_parameters :
    restProgram.BareComments ∧
      ((addFile {} restSource restProgram).node? 1).map (·.params) = some (some []) ∧
      ((addFile {} restSource restProgram.withoutComments).node? 1).map (·.params) =
        some (some ["r"]) :=
  ⟨bareComments_restProgram, by decide, by decide⟩

end Survival

end Lineage.JavaScript
