import Lineage.JavaScript.SyntaxTree
import Lineage.Similarity.Profile

namespace Lineage.JavaScript.SyntaxTree

mutual

/-- Every node of the tree ends no earlier than it starts and has its children in order inside. -/
def WellFormed : SyntaxTree → Prop
  | node _ _ _ start stop children => start ≤ stop ∧ Between start stop children

/-- Well-formed trees that follow each other between two offsets. -/
def Between (low high : Nat) : List SyntaxTree → Prop
  | [] => True
  | tree :: trees =>
    low ≤ tree.start ∧ tree.stop ≤ high ∧ WellFormed tree ∧ Between tree.stop high trees

end

/-- A well-formed tree inside a source of the given size. -/
def Fits (tree : SyntaxTree) (size : Nat) : Prop :=
  tree.WellFormed ∧ tree.stop ≤ size

theorem WellFormed.start_le_stop {tree : SyntaxTree} (h : tree.WellFormed) :
    tree.start ≤ tree.stop := by
  cases tree
  rw [WellFormed] at h
  exact h.1

theorem WellFormed.between_children {tree : SyntaxTree} (h : tree.WellFormed) :
    Between tree.start tree.stop tree.children := by
  cases tree
  rw [WellFormed] at h
  exact h.2

theorem Between.of_mem {low high : Nat} {trees : List SyntaxTree} (h : Between low high trees)
    {tree : SyntaxTree} (htree : tree ∈ trees) : low ≤ tree.start ∧ tree.Fits high := by
  induction trees generalizing low with
  | nil => cases htree
  | cons first rest ih =>
      rw [Between] at h
      obtain ⟨hlow, hstop, hfirst, hrest⟩ := h
      rcases List.mem_cons.mp htree with rfl | htree
      · exact ⟨hlow, hfirst, hstop⟩
      · obtain ⟨hstart, hfits⟩ := ih hrest htree
        have hextent := hfirst.start_le_stop
        exact ⟨by omega, hfits⟩

mutual

theorem tokens_within : (tree : SyntaxTree) → tree.WellFormed → ∀ token ∈ tree.tokens,
    tree.start ≤ token.start ∧ token.start < token.stop ∧ token.stop ≤ tree.stop
  | node kind field named start stop children, h, token, htoken => by
    rw [WellFormed] at h
    rw [tokens] at htoken
    split at htoken
    · simp at htoken
    · split at htoken
      · split at htoken
        · next hlt =>
          cases List.mem_singleton.mp htoken
          exact ⟨Nat.le_refl _, hlt, Nat.le_refl _⟩
        · simp at htoken
      · exact forestTokens_within start stop children h.2 token htoken

theorem forestTokens_within (low high : Nat) : (trees : List SyntaxTree) →
    Between low high trees → ∀ token ∈ forestTokens trees,
      low ≤ token.start ∧ token.start < token.stop ∧ token.stop ≤ high
  | [], _, token, htoken => by simp [forestTokens] at htoken
  | tree :: trees, h, token, htoken => by
    rw [Between] at h
    obtain ⟨hlow, hhigh, htree, htrees⟩ := h
    rw [forestTokens, List.mem_append] at htoken
    rcases htoken with htoken | htoken
    · obtain ⟨hstart, hlt, hstop⟩ := tokens_within tree htree token htoken
      exact ⟨Nat.le_trans hlow hstart, hlt, Nat.le_trans hstop hhigh⟩
    · obtain ⟨hstart, hlt, hstop⟩ := forestTokens_within tree.stop high trees htrees token htoken
      have hextent := htree.start_le_stop
      exact ⟨by omega, hlt, hstop⟩

end

theorem Fits.isInside_tokens {tree : SyntaxTree} {bytes : ByteArray} (h : tree.Fits bytes.size)
    {token : Token} (htoken : token ∈ tree.tokens) : Profile.isInside bytes token = true := by
  obtain ⟨-, hlt, hstop⟩ := tokens_within tree h.1 token htoken
  rw [Profile.isInside, Bool.and_eq_true, decide_eq_true_eq, decide_eq_true_eq]
  exact ⟨Nat.le_of_lt hlt, Nat.le_trans hstop h.2⟩

end Lineage.JavaScript.SyntaxTree
