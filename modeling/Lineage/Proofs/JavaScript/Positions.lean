import Mathlib.Data.List.Enum
import Lineage.JavaScript.SyntaxTree

namespace Lineage.JavaScript

/-- The way to a node through named children: the number of each one among its siblings, that of the
node itself first. -/
abbrev Position := List Nat

/-- Pre-order compares the ways from the root on. -/
def Precedes (earlier later : Position) : Prop :=
  earlier.reverse < later.reverse

theorem precedes_inside (above : Position) (index : Nat) (below : Position) :
    Precedes above (below ++ index :: above) := by
  have hway : (below ++ index :: above).reverse = above.reverse ++ (index :: below.reverse) := by
    simp
  have hlt : ([] : List Nat) < index :: below.reverse := List.nil_lt_cons _ _
  rw [Precedes, hway]
  nth_rewrite 1 [← List.append_nil above.reverse]
  exact List.append_left_lt hlt

theorem precedes_of_lt {above : Position} {index later : Nat} (h : index < later)
    (below below' : Position) :
    Precedes (below ++ index :: above) (below' ++ later :: above) := by
  have hway (number : Nat) (inside : Position) :
      (inside ++ number :: above).reverse = above.reverse ++ (number :: inside.reverse) := by
    simp
  rw [Precedes, hway, hway]
  exact List.append_left_lt (List.cons_lt_cons_iff.mpr (Or.inl h))

theorem nodup_of_precedes {order : List Position} (h : order.Pairwise Precedes) : order.Nodup := by
  refine h.imp ?_
  rintro position _ hlt rfl
  exact List.lt_irrefl _ hlt

section Listed

variable {α : Type} {visit : Position → SyntaxTree → List α} {above : Position} {first : Nat}
  {trees : List SyntaxTree}

/-- What the trees of a list give from left to right, each at its own place below a position. -/
def listed (visit : Position → SyntaxTree → List α) (above : Position) (first : Nat)
    (trees : List SyntaxTree) : List α :=
  (trees.zipIdx first).flatMap fun (tree, index) => visit (index :: above) tree

theorem listed_cons (tree : SyntaxTree) :
    listed visit above first (tree :: trees) =
      visit (first :: above) tree ++ listed visit above (first + 1) trees :=
  List.flatMap_cons

theorem mem_listed_iff {item : α} :
    item ∈ listed visit above first trees ↔
      ∃ index child, trees[index]? = some child ∧ item ∈ visit ((first + index) :: above) child := by
  rw [listed, List.mem_flatMap]
  constructor
  · rintro ⟨⟨child, index⟩, hchild, hitem⟩
    obtain ⟨hle, hget⟩ := List.mem_zipIdx_iff_le_and_getElem?_sub.mp hchild
    refine ⟨index - first, child, hget, ?_⟩
    rwa [Nat.add_sub_cancel' hle]
  · rintro ⟨index, child, hchild, hitem⟩
    refine ⟨(child, first + index), ?_, hitem⟩
    rw [List.mem_zipIdx_iff_le_and_getElem?_sub, Nat.add_sub_cancel_left]
    exact ⟨Nat.le_add_right first index, hchild⟩

theorem pairwise_listed {position : α → Position}
    (hinside : ∀ tree place, ∀ item ∈ visit place tree, ∃ below, position item = below ++ place)
    (htrees : ∀ tree ∈ trees, ∀ place,
      (visit place tree).Pairwise fun earlier later => Precedes (position earlier) (position later)) :
    (listed visit above first trees).Pairwise
      fun earlier later => Precedes (position earlier) (position later) := by
  induction trees generalizing first with
  | nil => exact List.Pairwise.nil
  | cons tree trees ih =>
      obtain ⟨htree, hrest⟩ := List.forall_mem_cons.mp htrees
      rw [listed_cons, List.pairwise_append]
      refine ⟨htree _, ih hrest, ?_⟩
      intro earlier hearlier later hlater
      obtain ⟨index, child, -, hlater⟩ := mem_listed_iff.mp hlater
      obtain ⟨below, hbelow⟩ := hinside _ _ earlier hearlier
      obtain ⟨below', hbelow'⟩ := hinside _ _ later hlater
      rw [hbelow, hbelow']
      exact precedes_of_lt (by omega) below below'

end Listed

namespace SyntaxTree

section Induction

variable {motive : SyntaxTree → Prop}

mutual

theorem induct (step : ∀ tree, (∀ child ∈ tree.children, motive child) → motive tree) :
    (tree : SyntaxTree) → motive tree
  | node _ _ _ _ _ children => step _ (forall_mem_induct step children)

theorem forall_mem_induct (step : ∀ tree, (∀ child ∈ tree.children, motive child) → motive tree) :
    (trees : List SyntaxTree) → ∀ tree ∈ trees, motive tree
  | [] => List.forall_mem_nil _
  | tree :: trees => List.forall_mem_cons.mpr ⟨induct step tree, forall_mem_induct step trees⟩

end

end Induction

def at? (tree : SyntaxTree) : Position → Option SyntaxTree
  | [] => some tree
  | index :: above => (tree.at? above).bind fun around => around.namedChildren[index]?

theorem at?_append (tree : SyntaxTree) (below above : Position) :
    tree.at? (below ++ above) = (tree.at? above).bind (·.at? below) := by
  induction below with
  | nil => simp [at?]
  | cons index below ih => rw [List.cons_append, at?, ih, Option.bind_assoc]; rfl

theorem at?_concat (tree : SyntaxTree) (below : Position) (index : Nat) :
    tree.at? (below ++ [index]) = (tree.namedChildren[index]?).bind (·.at? below) := by
  rw [at?_append]
  rfl

theorem at?_cons_of_getElem? {program part child : SyntaxTree} {position : Position} {index : Nat}
    (h : program.at? position = some part) (hchild : part.namedChildren[index]? = some child) :
    program.at? (index :: position) = some child := by
  rw [at?, h, Option.bind_some, hchild]

mutual

/-- The positions of a tree in pre-order, if its own is `place`. -/
def positions (place : Position) : SyntaxTree → List Position
  | node _ _ _ _ _ children => place :: forestPositions place 0 children

/-- The positions of the trees in a list whose first named one has the number `index`. -/
def forestPositions (above : Position) (index : Nat) : List SyntaxTree → List Position
  | [] => []
  | tree :: trees =>
    if tree.isNamed then
      positions (index :: above) tree ++ forestPositions above (index + 1) trees
    else forestPositions above index trees

end

theorem positions_eq (tree : SyntaxTree) (place : Position) :
    tree.positions place = place :: forestPositions place 0 tree.children := by
  cases tree
  rw [positions]
  rfl

theorem forestPositions_eq_listed (above : Position) (first : Nat) (trees : List SyntaxTree) :
    forestPositions above first trees = listed positions above first (trees.filter isNamed) := by
  induction trees generalizing first with
  | nil =>
      rw [forestPositions]
      rfl
  | cons tree trees ih =>
      rw [forestPositions, ih, ih]
      cases hnamed : tree.isNamed with
      | true => rw [List.filter_cons_of_pos hnamed, listed_cons, if_pos rfl]
      | false => rw [List.filter_cons_of_neg (by simp [hnamed]), if_neg Bool.false_ne_true]

theorem mem_positions_iff (tree : SyntaxTree) (place position : Position) :
    position ∈ tree.positions place ↔
      ∃ below, (tree.at? below).isSome = true ∧ position = below ++ place := by
  induction tree using induct generalizing place with
  | step tree ih =>
      rw [positions_eq, List.mem_cons, forestPositions_eq_listed, mem_listed_iff]
      have hchild {index : Nat} {child : SyntaxTree}
          (h : tree.namedChildren[index]? = some child) : child ∈ tree.children :=
        (List.mem_filter.mp (List.mem_of_getElem? h)).1
      constructor
      · rintro (rfl | ⟨index, child, hget, hposition⟩)
        · exact ⟨[], rfl, rfl⟩
        · obtain ⟨below, hbelow, rfl⟩ := (ih child (hchild hget) _).mp hposition
          refine ⟨below ++ [index], ?_, by simp⟩
          rwa [at?_concat, show tree.namedChildren[index]? = some child from hget]
      · rintro ⟨below, hbelow, rfl⟩
        rcases List.eq_nil_or_concat below with rfl | ⟨below, index, rfl⟩
        · exact Or.inl rfl
        · rw [List.concat_eq_append, at?_concat] at hbelow
          obtain ⟨child, hget⟩ := Option.isSome_iff_exists.mp (Option.isSome_of_isSome_bind hbelow)
          rw [hget] at hbelow
          refine Or.inr ⟨index, child, hget, (ih child (hchild hget) _).mpr ⟨below, hbelow, ?_⟩⟩
          simp

theorem pairwise_positions (tree : SyntaxTree) (place : Position) :
    (tree.positions place).Pairwise Precedes := by
  induction tree using induct generalizing place with
  | step tree ih =>
      rw [positions_eq, List.pairwise_cons, forestPositions_eq_listed]
      constructor
      · intro position hposition
        obtain ⟨index, child, -, hposition⟩ := mem_listed_iff.mp hposition
        obtain ⟨below, -, rfl⟩ := (mem_positions_iff _ _ _).mp hposition
        exact precedes_inside place (0 + index) below
      · refine pairwise_listed ?_ fun child hchild => ih child (List.mem_filter.mp hchild).1
        intro child place position hposition
        obtain ⟨below, -, hbelow⟩ := (mem_positions_iff _ _ _).mp hposition
        exact ⟨below, hbelow⟩

end SyntaxTree

end Lineage.JavaScript
