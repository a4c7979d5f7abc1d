import Lineage.CodeTree
import Lineage.JavaScript.SyntaxTree

/-!
Which syntax nodes declare something, and which ones call something by a name that can be resolved
within the file.
-/

namespace Lineage.JavaScript

/-- A declaration found in a syntax tree. -/
structure Declaration where
  kind : NodeKind
  name : String
  /-- The name that calls use: methods have that of their class in front. -/
  key : String
  params : Option (List String)
  body : Option SyntaxTree

/-- Functions as values. -/
def isFunctionValue (tree : SyntaxTree) : Bool :=
  tree.kind == "function_expression" || tree.kind == "generator_function"
    || tree.kind == "arrow_function"

/-- The tree, if it is an identifier. -/
def identifier? (tree : SyntaxTree) : Option SyntaxTree :=
  if tree.kind == "identifier" then some tree else none

/-- The node of a parameter that binds a plain name: with or without a default, or the rest. -/
def boundName? (param : SyntaxTree) : Option SyntaxTree :=
  match param.kind with
  | "identifier" => some param
  | "assignment_pattern" => (param.child? "left").bind identifier?
  | "rest_pattern" => param.namedChildren.head?.bind identifier?
  | _ => none

/-- The names of the parameters that bind a plain name. -/
def paramNames (source : ByteArray) (params : SyntaxTree) : List String :=
  params.namedChildren.filterMap fun param => (boundName? param).bind (·.text? source)

/-- The parameters of a function: a list, or the single name of an arrow function. -/
def paramsOf (source : ByteArray) (callable : SyntaxTree) : List String :=
  match callable.child? "parameters" with
  | some params => paramNames source params
  | none => ((callable.child? "parameter").bind (·.text? source)).toList

/-- A function with the signature and the body of `callable`. -/
def functionNamed (source : ByteArray) (name : String) (callable : SyntaxTree) : Declaration where
  kind := .function
  name := name
  key := name
  params := some (paramsOf source callable)
  body := callable.child? "body"

/-- A function value that gets the name of another node. -/
def namedValue? (source : ByteArray) (name value : SyntaxTree) : Option Declaration :=
  if isFunctionValue value then (name.text? source).map (functionNamed source · value) else none

/-- The name that an assignment gives: a variable, or a property of any object. -/
def assignedName? (target : SyntaxTree) : Option SyntaxTree :=
  match target.kind with
  | "identifier" => some target
  | "member_expression" => (target.child? "property").filter (·.kind == "property_identifier")
  | _ => none

/-- The name by which methods and calls on `this` go inside a class. -/
def memberKey (className name : String) : String :=
  className ++ "." ++ name

/-- The declaration that a syntax node makes, inside the class `className` if there is one. -/
def declaration? (source : ByteArray) (className : Option String) (tree : SyntaxTree) :
    Option Declaration :=
  match tree.kind with
  | "function_declaration" | "generator_function_declaration" => do
    let name ← (← tree.child? "name").text? source
    return functionNamed source name tree
  | "class_declaration" => do
    let name ← (← tree.child? "name").text? source
    return { kind := .classDecl, name, key := name, params := none, body := tree.child? "body" }
  | "method_definition" => do
    let name ← (← tree.child? "name").text? source
    let method := functionNamed source name tree
    return { method with key := className.elim name (memberKey · name) }
  | "variable_declarator" => do
    let name ← identifier? (← tree.child? "name")
    namedValue? source name (← tree.child? "value")
  | "assignment_expression" => do
    let name ← assignedName? (← tree.child? "left")
    namedValue? source name (← tree.child? "right")
  | "pair" => do
    let name ← (tree.child? "key").filter (·.kind == "property_identifier")
    namedValue? source name (← tree.child? "value")
  | _ => none

/-- The name that a call refers to: a plain function, or a method of `this` inside a class. -/
def callee? (source : ByteArray) (className : Option String) (tree : SyntaxTree) :
    Option String := do
  if tree.kind != "call_expression" then none
  let function ← tree.child? "function"
  match function.kind with
  | "identifier" => function.text? source
  | "member_expression" =>
    let object ← function.child? "object"
    let property ← function.child? "property"
    if object.kind != "this" || property.kind != "property_identifier" then none
    let name ← property.text? source
    return memberKey (← className) name
  | _ => none

end Lineage.JavaScript
