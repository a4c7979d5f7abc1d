import Lineage.Proofs.JavaScript.Outlines

/-!
The walk over a syntax tree with a stack of nodes that are still to be visited. It goes the way of
the recursion: what it has visited before it gets back to what was below a node on the stack is the
outline of that node.
-/

namespace Lineage.JavaScript

/-- A syntax node that is still to be visited, and its place. -/
structure Frame where
  part : SyntaxTree
  place : Place

/-- How far a walk has come. -/
structure Walk where
  /-- The last frame is the next one to be visited. -/
  stack : List Frame
  tree : CodeTree
  /-- What was declared and called so far. -/
  outline : Outline := {}

/-- The named children of a node, the first one last. -/
def SyntaxTree.frames (part : SyntaxTree) (place : Place) : List Frame :=
  part.namedChildren.reverse.map fun child => ⟨child, place⟩

/-- Takes the last frame off the stack, and puts the named children of its node there. There is no
result if the stack is empty, or if a declaration has no parent. -/
def Walk.visit? (source : Source) (walk : Walk) : Option Walk := do
  let ⟨part, place⟩ ← walk.stack.getLast?
  match declaration? source.bytes place.className part with
  | some declaration =>
    let found : Found :=
      { element := source.element part declaration, key := declaration.callKey,
        parent := place.container }
    let tree ← walk.tree.addChild found.parent found.element
    return {
      stack := walk.stack.dropLast ++ part.frames (place.enter walk.tree.size declaration)
      tree := tree
      outline := walk.outline.append { found := [found] } }
  | none =>
    let callee := callee? source.bytes place.className part
    return {
      walk with
      stack := walk.stack.dropLast ++ part.frames place
      outline := walk.outline.append { calls := callee.toList.map (place.container, ·) } }

/-- Visits lead from one state of a walk to another one with nothing left on the stack. -/
inductive Walk.Ends (source : Source) : Walk → Walk → Prop
  | done {walk : Walk} : walk.stack = [] → Ends source walk walk
  | visit {walk next last : Walk} :
      walk.visit? source = some next → Ends source next last → Ends source walk last

theorem Walk.Ends.unique {source : Source} {walk last last' : Walk}
    (h : walk.Ends source last) (h' : walk.Ends source last') : last = last' := by
  have hstuck {walk : Walk} (hstack : walk.stack = []) : walk.visit? source = none := by
    simp [visit?, hstack]
  induction h with
  | done hstack =>
      cases h' with
      | done => rfl
      | visit hvisit => rw [hstuck hstack] at hvisit; cases hvisit
  | visit hvisit _ ih =>
      cases h' with
      | done hstack => rw [hstuck hstack] at hvisit; cases hvisit
      | visit hvisit' hends =>
          cases hvisit.symm.trans hvisit'
          exact ih hends

theorem Outline.append_assoc (first second third : Outline) :
    (first.append second).append third = first.append (second.append third) := by
  simp [append]

theorem Outline.append_empty (outline : Outline) : outline.append {} = outline := by
  simp [append]

theorem addFound_append (tree : CodeTree) (left right : List Found) :
    addFound tree (left ++ right) = addFound (addFound tree left) right :=
  List.foldl_append

theorem size_addFound {source : Source} {tree : CodeTree} {found : List Found}
    (h : Placed source tree.size found) :
    (addFound tree found).size = tree.size + found.length := by
  refine placed_induction (motive := fun tree found =>
    (addFound tree found).size = tree.size + found.length) (fun _ => rfl) ?_ h
  intro tree next f rest _ _ _ hadd _ ih
  rw [addFound_cons rest hadd, ih, CodeTree.size_addChild hadd, List.length_cons]
  omega

namespace Walk

variable {source : Source}

theorem visit?_declared {part : SyntaxTree} {place : Place} {tree tree' : CodeTree}
    {declaration : Declaration}
    (hdeclared : declaration? source.bytes place.className part = some declaration)
    (hadd : tree.addChild place.container (source.element part declaration) = some tree')
    (rest : List Frame) (outline : Outline) :
    visit? source ⟨rest ++ [⟨part, place⟩], tree, outline⟩ =
      some ⟨rest ++ part.frames (place.enter tree.size declaration), tree',
        outline.append
          ⟨[⟨source.element part declaration, declaration.callKey, place.container⟩], []⟩⟩ := by
  simp [visit?, hdeclared, hadd]

theorem visit?_other {part : SyntaxTree} {place : Place}
    (hother : declaration? source.bytes place.className part = none)
    (rest : List Frame) (tree : CodeTree) (outline : Outline) :
    visit? source ⟨rest ++ [⟨part, place⟩], tree, outline⟩ =
      some ⟨rest ++ part.frames place, tree, outline.append
        ⟨[], (callee? source.bytes place.className part).toList.map (place.container, ·)⟩⟩ := by
  simp [visit?, hother]

mutual

theorem Ends.tree (source : Source) : (part : SyntaxTree) → (place : Place) → (tree : CodeTree) →
    place.container < tree.size → (rest : List Frame) → (outline : Outline) → (last : Walk) →
    Ends source ⟨rest, addFound tree (outlineTree source place tree.size part).found,
      outline.append (outlineTree source place tree.size part)⟩ last →
    Ends source ⟨rest ++ [⟨part, place⟩], tree, outline⟩ last
  | .node kind field named start stop children, place, tree, hplace, rest, outline, last, h => by
    rw [outlineTree] at h
    cases hdeclared : declaration? source.bytes place.className
        (.node kind field named start stop children) with
    | some declaration =>
        obtain ⟨tree', hadd⟩ := CodeTree.exists_addChild hplace
          (source.element (.node kind field named start stop children) declaration)
        have hsize := CodeTree.size_addChild hadd
        refine .visit (visit?_declared hdeclared hadd rest outline) ?_
        refine Ends.forest source children _ tree' ?_ rest _ last ?_
        · rw [hsize]
          exact Nat.lt_succ_self tree.size
        · simp only [hdeclared] at h
          rw [addFound_cons _ hadd] at h
          rw [hsize, Outline.append_assoc]
          exact h
    | none =>
        refine .visit (visit?_other hdeclared rest tree outline) ?_
        refine Ends.forest source children place tree hplace rest _ last ?_
        rw [Outline.append_assoc]
        simp only [hdeclared] at h
        cases hcallee : callee? source.bytes place.className
            (.node kind field named start stop children) with
        | none => simpa [hcallee, Outline.append] using h
        | some callee => simpa [hcallee, Outline.append] using h

theorem Ends.forest (source : Source) : (parts : List SyntaxTree) → (place : Place) →
    (tree : CodeTree) → place.container < tree.size → (rest : List Frame) → (outline : Outline) →
    (last : Walk) →
    Ends source ⟨rest, addFound tree (outlineForest source place tree.size parts).found,
      outline.append (outlineForest source place tree.size parts)⟩ last →
    Ends source ⟨rest ++ (parts.filter SyntaxTree.isNamed).reverse.map (⟨·, place⟩), tree, outline⟩
      last
  | [], place, tree, hplace, rest, outline, last, hrest => by
    rw [outlineForest, Outline.append_empty] at hrest
    simpa [addFound] using hrest
  | part :: parts, place, tree, hplace, rest, outline, last, hrest => by
    rw [outlineForest] at hrest
    by_cases hnamed : part.isNamed = true
    · have hplaced := placed_outlineTree source part place tree.size hplace
      have hsize := size_addFound hplaced
      rw [if_pos hnamed, Outline.append] at hrest
      rw [List.filter_cons_of_pos hnamed, List.reverse_cons, List.map_append, ← List.append_assoc]
      refine Ends.tree source part place tree hplace _ outline last ?_
      refine Ends.forest source parts place _ ?_ rest _ last ?_
      · rw [hsize]
        exact Nat.lt_add_right _ hplace
      · rw [hsize, Outline.append_assoc, ← addFound_append]
        exact hrest
    · rw [if_neg hnamed] at hrest
      rw [List.filter_cons_of_neg hnamed]
      exact Ends.forest source parts place tree hplace rest outline last hrest

end

theorem ends_iff {part : SyntaxTree} {place : Place} {tree : CodeTree}
    (hplace : place.container < tree.size) {last : Walk} :
    Ends source ⟨[⟨part, place⟩], tree, {}⟩ last ↔
      last = ⟨[], addFound tree (outlineTree source place tree.size part).found,
        outlineTree source place tree.size part⟩ := by
  have hends : Ends source ⟨[⟨part, place⟩], tree, {}⟩
      ⟨[], addFound tree (outlineTree source place tree.size part).found,
        outlineTree source place tree.size part⟩ :=
    Ends.tree source part place tree hplace [] {} _ (.done rfl)
  constructor
  · intro h
    exact h.unique hends
  · rintro rfl
    exact hends

end Walk

end Lineage.JavaScript
