import Mathlib.Data.List.Basic
import Mathlib.Logic.Relation
import Lineage.Proofs.JavaScript.Extent
import Lineage.Proofs.JavaScript.Positions

namespace Lineage.JavaScript.SyntaxTree

/-- The node at a position, if positions count all children and not only the named ones. -/
def part? (tree : SyntaxTree) : Position → Option SyntaxTree
  | [] => some tree
  | index :: above => (tree.part? above).bind fun around => around.children[index]?

theorem part?_append (tree : SyntaxTree) (below above : Position) :
    tree.part? (below ++ above) = (tree.part? above).bind (·.part? below) := by
  induction below with
  | nil => simp [part?]
  | cons index below ih => rw [List.cons_append, part?, ih, Option.bind_assoc]; rfl

/-- The node at a position is a token: it has an extent and is not made of others, unless it is a
literal; and it is neither part of a literal nor of a comment. -/
structure IsToken (tree : SyntaxTree) (position : Position) (part : SyntaxTree) : Prop where
  part?_eq : tree.part? position = some part
  extent : part.start < part.stop
  whole : part.children = [] ∨ isAtomic part.kind = true
  outside_literals : ∀ above around, above <:+ position → above ≠ position →
    tree.part? above = some around → isAtomic around.kind = false
  outside_comments : ∀ above around, above <:+ position →
    tree.part? above = some around → isComment around.kind = false

/-- The extent of a node as a token. -/
def toToken (tree : SyntaxTree) : Token where
  start := tree.start
  stop := tree.stop

theorem tokens_eq (tree : SyntaxTree) :
    tree.tokens =
      if isComment tree.kind then []
      else if tree.children.isEmpty || isAtomic tree.kind then
        if tree.start < tree.stop then [tree.toToken] else []
      else forestTokens tree.children := by
  cases tree
  rw [tokens]
  rfl

theorem isToken_nil_iff {tree part : SyntaxTree} :
    tree.IsToken [] part ↔ part = tree ∧ tree.start < tree.stop ∧
      (tree.children = [] ∨ isAtomic tree.kind = true) ∧ isComment tree.kind = false := by
  constructor
  · rintro ⟨heq, hextent, hwhole, -, hcomments⟩
    cases heq
    exact ⟨rfl, hextent, hwhole, hcomments [] tree List.suffix_rfl rfl⟩
  · rintro ⟨rfl, hextent, hwhole, hcomment⟩
    refine ⟨rfl, hextent, hwhole, ?_, ?_⟩
    · intro above around habove hne
      exact absurd (List.suffix_nil.mp habove) hne
    · intro above around habove haround
      rw [List.suffix_nil.mp habove] at haround
      cases haround
      exact hcomment

theorem isToken_concat_iff {tree part : SyntaxTree} {below : Position} {index : Nat} :
    tree.IsToken (below ++ [index]) part ↔
      isAtomic tree.kind = false ∧ isComment tree.kind = false ∧
        ∃ child, tree.children[index]? = some child ∧ child.IsToken below part := by
  have hinside (above : Position) :
      tree.part? (above ++ [index]) = (tree.children[index]?).bind (·.part? above) := by
    rw [part?_append]
    rfl
  constructor
  · rintro ⟨heq, hextent, hwhole, hliterals, hcomments⟩
    have hroot : [] <:+ below ++ [index] := List.nil_suffix
    refine ⟨hliterals [] tree hroot (by simp) rfl, hcomments [] tree hroot rfl, ?_⟩
    rw [hinside] at heq
    obtain ⟨child, hchild, heq⟩ := Option.bind_eq_some_iff.mp heq
    have hlift {above : Position} {around : SyntaxTree} (h : child.part? above = some around) :
        tree.part? (above ++ [index]) = some around := by
      rw [hinside, hchild]
      exact h
    refine ⟨child, hchild, heq, hextent, hwhole, ?_, ?_⟩
    · intro above around habove hne haround
      refine hliterals (above ++ [index]) around ?_ ?_ (hlift haround)
      · exact List.suffix_concat_iff.mpr (Or.inr ⟨above, rfl, habove⟩)
      · exact fun h => hne (List.append_cancel_right h)
    · intro above around habove haround
      exact hcomments (above ++ [index]) around
        (List.suffix_concat_iff.mpr (Or.inr ⟨above, rfl, habove⟩)) (hlift haround)
  · rintro ⟨hliteral, hcomment, child, hchild, heq, hextent, hwhole, hliterals, hcomments⟩
    refine ⟨?_, hextent, hwhole, ?_, ?_⟩
    · rw [hinside, hchild]
      exact heq
    · intro above around habove hne haround
      rcases List.suffix_concat_iff.mp habove with rfl | ⟨inner, rfl, hinner⟩
      · cases haround
        exact hliteral
      · rw [hinside, hchild] at haround
        refine hliterals inner around hinner ?_ haround
        rintro rfl
        exact hne rfl
    · intro above around habove haround
      rcases List.suffix_concat_iff.mp habove with rfl | ⟨inner, rfl, hinner⟩
      · cases haround
        exact hcomment
      · rw [hinside, hchild] at haround
        exact hcomments inner around hinner haround

mutual

/-- The nodes that are tokens with their positions, if that of the tree is `place`. -/
def tokenNodes (place : Position) : SyntaxTree → List (Position × SyntaxTree)
  | node kind field named start stop children =>
    if isComment kind then []
    else if children.isEmpty || isAtomic kind then
      if start < stop then [(place, node kind field named start stop children)] else []
    else forestTokenNodes place 0 children

/-- The tokens of the trees in a list whose first one has the number `index`. -/
def forestTokenNodes (above : Position) (index : Nat) :
    List SyntaxTree → List (Position × SyntaxTree)
  | [] => []
  | tree :: trees => tokenNodes (index :: above) tree ++ forestTokenNodes above (index + 1) trees

end

mutual

theorem map_tokenNodes (place : Position) : (tree : SyntaxTree) →
    (tree.tokenNodes place).map (fun placed => placed.2.toToken) = tree.tokens
  | node kind field named start stop children => by
    rw [tokenNodes, tokens]
    split
    · rfl
    · split
      · split <;> rfl
      · exact map_forestTokenNodes place 0 children

theorem map_forestTokenNodes (above : Position) (index : Nat) : (trees : List SyntaxTree) →
    (forestTokenNodes above index trees).map (fun placed => placed.2.toToken) = forestTokens trees
  | [] => by
    rw [forestTokenNodes, forestTokens]
    rfl
  | tree :: trees => by
    rw [forestTokenNodes, forestTokens, List.map_append, map_tokenNodes,
      map_forestTokenNodes above (index + 1) trees]

end

theorem tokenNodes_eq (tree : SyntaxTree) (place : Position) :
    tree.tokenNodes place =
      if isComment tree.kind then []
      else if tree.children.isEmpty || isAtomic tree.kind then
        if tree.start < tree.stop then [(place, tree)] else []
      else forestTokenNodes place 0 tree.children := by
  cases tree
  rw [tokenNodes]
  rfl

theorem forestTokenNodes_eq_listed (above : Position) (first : Nat) (trees : List SyntaxTree) :
    forestTokenNodes above first trees = listed tokenNodes above first trees := by
  induction trees generalizing first with
  | nil =>
      rw [forestTokenNodes]
      rfl
  | cons tree trees ih => rw [forestTokenNodes, ih, listed_cons]

theorem mem_tokenNodes_iff (tree : SyntaxTree) (place position : Position) (part : SyntaxTree) :
    (position, part) ∈ tree.tokenNodes place ↔
      ∃ below, tree.IsToken below part ∧ position = below ++ place := by
  induction tree using induct generalizing place position with
  | step tree ih =>
      rw [tokenNodes_eq]
      constructor
      · intro h
        split at h
        · cases h
        · next hcomment =>
          have hcomment : isComment tree.kind = false := by simpa using hcomment
          split at h
          · next hwhole =>
            split at h
            · next hextent =>
              cases List.mem_singleton.mp h
              refine ⟨[], isToken_nil_iff.mpr ⟨rfl, hextent, ?_, hcomment⟩, rfl⟩
              simpa using hwhole
            · cases h
          · next hinner =>
            have hinner : ¬tree.children = [] ∧ isAtomic tree.kind = false := by simpa using hinner
            rw [forestTokenNodes_eq_listed] at h
            obtain ⟨index, child, hchild, h⟩ := mem_listed_iff.mp h
            obtain ⟨below, hbelow, rfl⟩ := (ih child (List.mem_of_getElem? hchild) _ _).mp h
            refine ⟨below ++ [index],
              isToken_concat_iff.mpr ⟨hinner.2, hcomment, child, hchild, hbelow⟩, by simp⟩
      · rintro ⟨below, hbelow, rfl⟩
        rcases List.eq_nil_or_concat below with rfl | ⟨below, index, rfl⟩
        · obtain ⟨rfl, hextent, hwhole, hcomment⟩ := isToken_nil_iff.mp hbelow
          have hwhole : (part.children.isEmpty || isAtomic part.kind) = true := by
            simpa using hwhole
          rw [if_neg (Bool.eq_false_iff.mp hcomment), if_pos hwhole, if_pos hextent]
          exact List.mem_singleton.mpr rfl
        · rw [List.concat_eq_append] at hbelow ⊢
          obtain ⟨hliteral, hcomment, child, hchild, hbelow⟩ := isToken_concat_iff.mp hbelow
          have hne : tree.children ≠ [] := List.ne_nil_of_mem (List.mem_of_getElem? hchild)
          rw [if_neg (Bool.eq_false_iff.mp hcomment), if_neg (by simp [hne, hliteral]),
            forestTokenNodes_eq_listed]
          refine mem_listed_iff.mpr ⟨index, child, hchild, ?_⟩
          refine (ih child (List.mem_of_getElem? hchild) _ _).mpr ⟨below, hbelow, ?_⟩
          simp

theorem pairwise_tokenNodes (tree : SyntaxTree) (place : Position) :
    (tree.tokenNodes place).Pairwise fun earlier later => Precedes earlier.1 later.1 := by
  induction tree using induct generalizing place with
  | step tree ih =>
      rw [tokenNodes_eq]
      split
      · exact List.Pairwise.nil
      · split
        · split
          · exact List.pairwise_singleton _ _
          · exact List.Pairwise.nil
        · rw [forestTokenNodes_eq_listed]
          refine pairwise_listed ?_ ih
          rintro child place ⟨position, part⟩ hpart
          obtain ⟨below, -, hbelow⟩ := (mem_tokenNodes_iff _ _ _ _).mp hpart
          exact ⟨below, hbelow⟩

section Sweep

/-- How far a sweep over a syntax tree has come. -/
structure Sweep where
  /-- The last node is the next one to be visited. -/
  stack : List SyntaxTree
  tokens : List Token := []

namespace Sweep

/-- Takes the last node off the stack, and notes it if it is a token or puts its children there. -/
def visit? (sweep : Sweep) : Option Sweep := do
  let part ← sweep.stack.getLast?
  let rest := sweep.stack.dropLast
  if isComment part.kind then
    return { sweep with stack := rest }
  else if part.children.isEmpty || isAtomic part.kind then
    return {
      stack := rest
      tokens := sweep.tokens ++ if part.start < part.stop then [part.toToken] else [] }
  else
    return { sweep with stack := rest ++ part.children.reverse }

/-- Visits lead from one state of a sweep to another. -/
def Reaches : Sweep → Sweep → Prop :=
  Relation.ReflTransGen fun sweep next => sweep.visit? = some next

theorem visit?_concat (rest : List SyntaxTree) (part : SyntaxTree) (tokens : List Token) :
    visit? ⟨rest ++ [part], tokens⟩ =
      some (if isComment part.kind then ⟨rest, tokens⟩
        else if part.children.isEmpty || isAtomic part.kind then
          ⟨rest, tokens ++ if part.start < part.stop then [part.toToken] else []⟩
        else ⟨rest ++ part.children.reverse, tokens⟩) := by
  simp only [visit?, List.getLast?_concat, Option.bind_eq_bind, Option.bind_some, Option.pure_def,
    List.dropLast_concat]
  split
  · rfl
  · split <;> rfl

mutual

theorem reaches_tree : (part : SyntaxTree) → (rest : List SyntaxTree) → (tokens : List Token) →
    Reaches ⟨rest ++ [part], tokens⟩ ⟨rest, tokens ++ part.tokens⟩
  | node kind field named start stop children, rest, tokens => by
    refine .head (visit?_concat rest _ tokens) ?_
    rw [tokens_eq]
    split
    · rw [List.append_nil]
    · split
      · exact .refl
      · exact reaches_forest children rest tokens

theorem reaches_forest : (parts : List SyntaxTree) → (rest : List SyntaxTree) →
    (tokens : List Token) →
    Reaches ⟨rest ++ parts.reverse, tokens⟩ ⟨rest, tokens ++ forestTokens parts⟩
  | [], rest, tokens => by
    rw [forestTokens, List.reverse_nil, List.append_nil, List.append_nil]
    exact .refl
  | part :: parts, rest, tokens => by
    rw [forestTokens, List.reverse_cons, ← List.append_assoc, ← List.append_assoc]
    exact (reaches_tree part _ tokens).trans (reaches_forest parts rest _)

end

theorem reaches_end_iff {tree : SyntaxTree} {tokens : List Token} :
    Reaches ⟨[tree], []⟩ ⟨[], tokens⟩ ↔ tokens = tree.tokens := by
  have hend (done : List Token) (next : Sweep) (h : Reaches ⟨[], done⟩ next) :
      next = ⟨[], done⟩ := by
    rcases Relation.ReflTransGen.cases_head h with heq | ⟨_, hvisit, -⟩
    · exact heq.symm
    · cases hvisit
  constructor
  · intro h
    have hunique : Relator.RightUnique fun sweep next : Sweep => sweep.visit? = some next := by
      intro sweep next next' hnext hnext'
      exact Option.some.inj (hnext.symm.trans hnext')
    rcases Relation.ReflTransGen.total_of_right_unique hunique h (reaches_tree tree [] [])
      with h | h
    · exact (congrArg Sweep.tokens (hend _ _ h)).symm
    · exact congrArg Sweep.tokens (hend _ _ h)
  · rintro rfl
    exact reaches_tree tree [] []

end Sweep

end Sweep

section Order

/-- Tokens with an extent that follow each other between two offsets. -/
structure InOrder (low high : Nat) (tokens : List Token) : Prop where
  extent : ∀ token ∈ tokens, token.start < token.stop
  inside : ∀ token ∈ tokens, low ≤ token.start ∧ token.stop ≤ high
  apart : tokens.Pairwise fun earlier later => earlier.stop ≤ later.start
  increasing : tokens.Pairwise fun earlier later =>
    earlier.start < later.start ∧ earlier.stop < later.stop

mutual

theorem apart_tokens : (tree : SyntaxTree) → tree.WellFormed →
    tree.tokens.Pairwise fun earlier later => earlier.stop ≤ later.start
  | node kind field named start stop children, h => by
    rw [WellFormed] at h
    rw [tokens]
    split
    · exact List.Pairwise.nil
    · split
      · split
        · exact List.pairwise_singleton _ _
        · exact List.Pairwise.nil
      · exact apart_forestTokens start stop children h.2

theorem apart_forestTokens (low high : Nat) : (trees : List SyntaxTree) →
    Between low high trees →
    (forestTokens trees).Pairwise fun earlier later => earlier.stop ≤ later.start
  | [], h => by
    rw [forestTokens]
    exact List.Pairwise.nil
  | tree :: trees, h => by
    rw [Between] at h
    obtain ⟨-, -, htree, htrees⟩ := h
    rw [forestTokens, List.pairwise_append]
    refine ⟨apart_tokens tree htree, apart_forestTokens tree.stop high trees htrees, ?_⟩
    intro earlier hearlier later hlater
    obtain ⟨-, -, hstop⟩ := tokens_within tree htree earlier hearlier
    obtain ⟨hstart, -, -⟩ := forestTokens_within tree.stop high trees htrees later hlater
    exact Nat.le_trans hstop hstart

end

theorem WellFormed.inOrder_tokens {tree : SyntaxTree} (h : tree.WellFormed) :
    InOrder tree.start tree.stop tree.tokens := by
  have hwithin := tokens_within tree h
  have hapart := apart_tokens tree h
  refine ⟨fun token htoken => (hwithin token htoken).2.1, ?_, hapart, ?_⟩
  · intro token htoken
    obtain ⟨hstart, -, hstop⟩ := hwithin token htoken
    exact ⟨hstart, hstop⟩
  · refine hapart.imp_of_mem ?_
    intro earlier later hearlier hlater hle
    have hextent := (hwithin earlier hearlier).2.1
    have hextent' := (hwithin later hlater).2.1
    exact ⟨by omega, by omega⟩

end Order

/-- The tokens of a tree are those of its nodes that are tokens, each once and from left to right,
by the recursion as by the sweep with a stack; in a well-formed tree they follow each other. -/
theorem tokens_are_leaves_and_literals (tree : SyntaxTree) :
    (∃ placed : List (Position × SyntaxTree),
      placed.Pairwise (fun earlier later => Precedes earlier.1 later.1) ∧
      (∀ position part, (position, part) ∈ placed ↔ tree.IsToken position part) ∧
      tree.tokens = placed.map fun token => token.2.toToken) ∧
    (∀ tokens, Sweep.Reaches ⟨[tree], []⟩ ⟨[], tokens⟩ ↔ tokens = tree.tokens) ∧
    (tree.WellFormed → InOrder tree.start tree.stop tree.tokens) := by
  refine ⟨⟨tree.tokenNodes [], pairwise_tokenNodes tree [], ?_, (map_tokenNodes [] tree).symm⟩,
    fun _ => Sweep.reaches_end_iff, fun h => h.inOrder_tokens⟩
  intro position part
  rw [mem_tokenNodes_iff]
  simp

/-- A program with the text `"a"/**/b`, where a semicolon is missing. -/
def literalProgram : SyntaxTree :=
  node "program" "" true 0 8
    [node "expression_statement" "" true 0 3
      [node "string" "" true 0 3
        [node "\"" "" false 0 1 [], node "string_fragment" "" true 1 2 [],
          node "\"" "" false 2 3 []], node ";" "" false 3 3 []],
      node "comment" "" true 3 7 [], node "expression_statement" "" true 7 8
        [node "identifier" "" true 7 8 []]]

theorem literal_program_has_two_tokens :
    literalProgram.WellFormed ∧ literalProgram.tokens = [⟨0, 3⟩, ⟨7, 8⟩] ∧
      InOrder 0 8 [⟨0, 3⟩, ⟨7, 8⟩] := by
  have hwell : literalProgram.WellFormed := by
    simp [literalProgram, WellFormed, Between, SyntaxTree.start, SyntaxTree.stop]
  have htokens : literalProgram.tokens = [⟨0, 3⟩, ⟨7, 8⟩] := by decide
  have horder := (tokens_are_leaves_and_literals literalProgram).2.2 hwell
  rw [htokens] at horder
  exact ⟨hwell, htokens, horder⟩

end Lineage.JavaScript.SyntaxTree
