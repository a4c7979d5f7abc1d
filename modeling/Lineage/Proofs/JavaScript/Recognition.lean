import Lineage.JavaScript.Declaration

namespace Lineage.JavaScript

/-- The node with the signature and the body of a declaration. -/
def callableOf (tree : SyntaxTree) : SyntaxTree :=
  match tree.kind with
  | "variable_declarator" | "pair" => (tree.child? "value").getD tree
  | "assignment_expression" => (tree.child? "right").getD tree
  | _ => tree

/-- A class without parameters, or a function with those of its callable node. -/
structure Describes (bytes : ByteArray) (tree : SyntaxTree) (declaration : Declaration) : Prop where
  body_eq : declaration.body = (callableOf tree).child? "body"
  signature : declaration.kind = .classDecl ∧ declaration.params = none ∨
    declaration.kind = .function ∧
      declaration.params = some (paramsOf bytes (callableOf tree))

namespace SyntaxTree

theorem mem_children_of_child? {tree child : SyntaxTree} {name : String}
    (h : tree.child? name = some child) : child ∈ tree.children :=
  List.mem_of_find?_eq_some h

end SyntaxTree

theorem callableOf_cases (tree : SyntaxTree) :
    callableOf tree = tree ∨ callableOf tree ∈ tree.children := by
  have hchild (name : String) :
      (tree.child? name).getD tree = tree ∨ (tree.child? name).getD tree ∈ tree.children := by
    cases h : tree.child? name with
    | none => exact Or.inl rfl
    | some child => exact Or.inr (SyntaxTree.mem_children_of_child? h)
  unfold callableOf
  split
  · exact hchild "value"
  · exact hchild "value"
  · exact hchild "right"
  · exact Or.inl rfl

theorem describes_of_declaration? {bytes : ByteArray} {className : Option String}
    {tree : SyntaxTree} {declaration : Declaration}
    (h : declaration? bytes className tree = some declaration) :
    Describes bytes tree declaration := by
  have hvalue {name value : SyntaxTree} (hcallable : callableOf tree = value)
      (h : namedValue? bytes name value = some declaration) :
      Describes bytes tree declaration := by
    unfold namedValue? at h
    split at h
    · obtain ⟨text, -, rfl⟩ := Option.map_eq_some_iff.mp h
      exact ⟨by rw [hcallable]; rfl, Or.inr ⟨rfl, by rw [hcallable]; rfl⟩⟩
    · cases h
  unfold declaration? at h
  simp only [Option.bind_eq_bind, Option.pure_def] at h
  split at h
  case h_8 => cases h
  all_goals simp only [Option.bind_eq_some_iff, Option.some.injEq] at h
  case h_5 hkind | h_6 hkind =>
    obtain ⟨_, -, _, -, value, hchild, hdeclaration⟩ := h
    exact hvalue (by simp [callableOf, hkind, hchild]) hdeclaration
  case h_7 hkind =>
    obtain ⟨_, -, value, hchild, hdeclaration⟩ := h
    exact hvalue (by simp [callableOf, hkind, hchild]) hdeclaration
  case h_3 hkind =>
    obtain ⟨_, -, _, -, rfl⟩ := h
    exact ⟨by simp [callableOf, hkind], Or.inl ⟨rfl, rfl⟩⟩
  case h_1 hkind | h_2 hkind | h_4 hkind =>
    obtain ⟨_, -, _, -, rfl⟩ := h
    have hitself : callableOf tree = tree := by simp [callableOf, hkind]
    exact ⟨by rw [hitself]; rfl, Or.inr ⟨rfl, by rw [hitself]; rfl⟩⟩

theorem kind_ne_file {bytes : ByteArray} {className : Option String} {tree : SyntaxTree}
    {declaration : Declaration} (h : declaration? bytes className tree = some declaration) :
    declaration.kind ≠ .file := by
  rcases (describes_of_declaration? h).signature with ⟨hkind, -⟩ | ⟨hkind, -⟩
  · simp [hkind]
  · simp [hkind]

end Lineage.JavaScript
