namespace Lineage

def IsLast {α : Type} (property : α → Prop) (xs : List α) (x : α) : Prop :=
  ∃ front back, xs = front ++ x :: back ∧ property x ∧ ∀ later ∈ back, ¬property later

theorem IsLast.mem {α : Type} {property : α → Prop} {xs : List α} {x : α}
    (h : IsLast property xs x) : x ∈ xs := by
  obtain ⟨front, back, rfl, -, -⟩ := h
  simp

theorem IsLast.property {α : Type} {property : α → Prop} {xs : List α} {x : α}
    (h : IsLast property xs x) : property x := by
  obtain ⟨_, _, -, hx, -⟩ := h
  exact hx

theorem find?_reverse_eq_some_iff {α : Type} {test : α → Bool} {property : α → Prop} {xs : List α}
    {x : α} (htest : ∀ y ∈ xs, test y = true ↔ property y) :
    xs.reverse.find? test = some x ↔ IsLast property xs x := by
  rw [List.find?_eq_some_iff_append]
  constructor
  · rintro ⟨hx, back, front, heq, hback⟩
    have hxs : xs = front.reverse ++ x :: back.reverse := by
      rw [← List.reverse_reverse xs, heq]
      simp
    refine ⟨front.reverse, back.reverse, hxs, (htest x (by simp [hxs])).mp hx, ?_⟩
    intro later hlater hproperty
    have hnot := hback later (List.mem_reverse.mp hlater)
    rw [(htest later (by simp [hxs, List.mem_reverse.mp hlater])).mpr hproperty] at hnot
    cases hnot
  · rintro ⟨front, back, rfl, hx, hback⟩
    refine ⟨(htest x (by simp)).mpr hx, back.reverse, front.reverse, by simp, ?_⟩
    intro later hlater
    have hlater := List.mem_reverse.mp hlater
    rw [Bool.not_eq_true', Bool.eq_false_iff, Ne, htest later (by simp [hlater])]
    exact hback later hlater

/-- The last position of a list at which there is an item with a property. -/
structure IsLastAt {α : Type} (property : α → Prop) (xs : List α) (i : Nat) : Prop where
  holds : ∃ x, xs[i]? = some x ∧ property x
  later : ∀ j x, i < j → xs[j]? = some x → ¬property x

theorem getElem?_concat_eq_some_iff {α : Type} {xs : List α} {x y : α} {i : Nat} :
    (xs ++ [x])[i]? = some y ↔ xs[i]? = some y ∨ (i = xs.length ∧ x = y) := by
  rw [List.getElem?_append]
  split
  · next hlt => simp [Nat.ne_of_lt hlt]
  · next hle =>
    have hzero : i - xs.length = 0 ↔ i = xs.length := by omega
    simp [List.getElem?_singleton, List.getElem?_eq_none (Nat.le_of_not_lt hle), hzero]

theorem isLastAt_concat {α : Type} {property : α → Prop} {xs : List α} {x : α} {i : Nat} :
    IsLastAt property (xs ++ [x]) i ↔
      (property x ∧ i = xs.length) ∨ (¬property x ∧ IsLastAt property xs i) := by
  constructor
  · rintro ⟨⟨y, hy, hproperty⟩, hlater⟩
    simp only [getElem?_concat_eq_some_iff] at hy hlater
    rcases hy with hy | ⟨rfl, rfl⟩
    · have hlt := (List.getElem?_eq_some_iff.mp hy).1
      refine .inr ⟨hlater _ x hlt (.inr ⟨rfl, rfl⟩), ⟨y, hy, hproperty⟩, ?_⟩
      intro j z hij hz
      exact hlater j z hij (.inl hz)
    · exact .inl ⟨hproperty, rfl⟩
  · rintro (⟨hproperty, rfl⟩ | ⟨hproperty, ⟨y, hy, hown⟩, hlater⟩)
    · refine ⟨⟨x, getElem?_concat_eq_some_iff.mpr (.inr ⟨rfl, rfl⟩), hproperty⟩, ?_⟩
      intro j z hj hz
      rcases getElem?_concat_eq_some_iff.mp hz with hz | ⟨rfl, -⟩
      · exact absurd (List.getElem?_eq_some_iff.mp hz).1 (Nat.lt_asymm hj)
      · exact absurd hj (Nat.lt_irrefl _)
    · refine ⟨⟨y, getElem?_concat_eq_some_iff.mpr (.inl hy), hown⟩, ?_⟩
      intro j z hij hz
      rcases getElem?_concat_eq_some_iff.mp hz with hz | ⟨rfl, rfl⟩
      · exact hlater j z hij hz
      · exact hproperty

end Lineage
