import Mathlib.Data.List.Forall2

namespace Lineage

variable {ε α β : Type}

theorem bind_eq_ok_iff {step : Except ε α} {next : α → Except ε β} {result : β} :
    step >>= next = .ok result ↔ ∃ value, step = .ok value ∧ next value = .ok result := by
  cases step with
  | error fault => simp [bind, Except.bind]
  | ok value => simp [bind, Except.bind]

theorem map_eq_ok_iff {step : Except ε α} {change : α → β} {result : β} :
    step.map change = .ok result ↔ ∃ value, step = .ok value ∧ change value = result := by
  cases step with
  | error fault => simp [Except.map]
  | ok value => simp [Except.map]

theorem bind_eq_error_iff {step : Except ε α} {next : α → Except ε β} {fault : ε} :
    step >>= next = .error fault ↔
      step = .error fault ∨ ∃ value, step = .ok value ∧ next value = .error fault := by
  cases step with
  | error own => simp [bind, Except.bind]
  | ok value => simp [bind, Except.bind]

theorem map_eq_error_iff {step : Except ε α} {change : α → β} {fault : ε} :
    step.map change = .error fault ↔ step = .error fault := by
  cases step with
  | error own => simp [Except.map]
  | ok value => simp [Except.map]

theorem exists_eq_ok_iff {step : Except ε α} :
    (∃ value, step = .ok value) ↔ ∀ fault, step ≠ .error fault := by
  cases step with
  | error own => simp
  | ok value => simp

theorem mapM_eq_ok_iff {step : α → Except ε β} {inputs : List α} {results : List β} :
    inputs.mapM step = .ok results ↔
      List.Forall₂ (fun input result => step input = .ok result) inputs results := by
  induction inputs generalizing results with
  | nil =>
      rw [List.mapM_nil, List.forall₂_nil_left_iff]
      constructor
      · rintro ⟨⟩
        rfl
      · rintro rfl
        rfl
  | cons input rest ih =>
      rw [List.mapM_cons, bind_eq_ok_iff, List.forall₂_cons_left_iff]
      constructor
      · rintro ⟨first, hfirst, hrest⟩
        obtain ⟨others, hothers, heq⟩ := bind_eq_ok_iff.mp hrest
        cases heq
        exact ⟨first, others, hfirst, ih.mp hothers, rfl⟩
      · rintro ⟨first, others, hfirst, hothers, rfl⟩
        exact ⟨first, hfirst, bind_eq_ok_iff.mpr ⟨others, ih.mpr hothers, rfl⟩⟩

theorem mapM_congr {γ : Type} {step : α → Except ε γ} {step' : β → Except ε γ} {inputs : List α}
    {inputs' : List β}
    (hagree : List.Forall₂ (fun input input' => step input = step' input') inputs inputs') :
    inputs.mapM step = inputs'.mapM step' := by
  induction hagree with
  | nil => rfl
  | cons hfirst _ ih => rw [List.mapM_cons, List.mapM_cons, hfirst, ih]

/-- Two lists of steps that agree one by one, as far as they have results, agree as a whole. -/
theorem mapM_result_unique {γ : Type} {step : α → Except ε γ} {step' : β → Except ε γ}
    {inputs : List α} {inputs' : List β} {results results' : List γ}
    (hagree : List.Forall₂ (fun input input' => ∀ result result', step input = .ok result →
      step' input' = .ok result' → result = result') inputs inputs')
    (h : inputs.mapM step = .ok results) (h' : inputs'.mapM step' = .ok results') :
    results = results' := by
  rw [mapM_eq_ok_iff] at h h'
  induction hagree generalizing results results' with
  | nil =>
      cases h
      cases h'
      rfl
  | cons hfirst _ ih =>
      cases h with
      | cons hresult hrest =>
          cases h' with
          | cons hresult' hrest' => rw [hfirst _ _ hresult hresult', ih hrest hrest']

theorem exists_mapM_eq_ok {step : α → Except ε β} {inputs : List α}
    (h : ∀ input ∈ inputs, ∃ result, step input = .ok result) :
    ∃ results, inputs.mapM step = .ok results := by
  induction inputs with
  | nil => exact ⟨[], rfl⟩
  | cons input rest ih =>
      obtain ⟨hinput, hrest⟩ := List.forall_mem_cons.mp h
      obtain ⟨first, hfirst⟩ := hinput
      obtain ⟨others, hothers⟩ := ih hrest
      exact ⟨first :: others, mapM_eq_ok_iff.mpr (.cons hfirst (mapM_eq_ok_iff.mp hothers))⟩

section Members

variable {step : α → Except ε β} {inputs : List α} {results : List β}

theorem exists_related_of_mem {related : α → β → Prop} {xs : List α} {ys : List β}
    (h : List.Forall₂ related xs ys) {x : α} (hx : x ∈ xs) : ∃ y ∈ ys, related x y := by
  induction h with
  | nil => cases hx
  | cons hfirst _ ih =>
      rcases List.mem_cons.mp hx with rfl | hx
      · exact ⟨_, List.mem_cons_self, hfirst⟩
      · obtain ⟨y, hy, hrelated⟩ := ih hx
        exact ⟨y, List.mem_cons_of_mem _ hy, hrelated⟩

theorem exists_result_of_mem (h : inputs.mapM step = .ok results) {input : α}
    (hinput : input ∈ inputs) : ∃ result ∈ results, step input = .ok result :=
  exists_related_of_mem (mapM_eq_ok_iff.mp h) hinput

theorem exists_input_of_mem (h : inputs.mapM step = .ok results) {result : β}
    (hresult : result ∈ results) : ∃ input ∈ inputs, step input = .ok result :=
  exists_related_of_mem (mapM_eq_ok_iff.mp h).flip hresult

end Members

end Lineage
