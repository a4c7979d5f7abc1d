import Mathlib.Data.List.Nodup
import Lineage.Bag

namespace Lineage

section Entries

variable {κ ν : Type} [BEq κ] [LawfulBEq κ] {entries : List (κ × ν)} {key : κ}

theorem lookup_eq_none_of_notMem (h : key ∉ entries.map Prod.fst) : entries.lookup key = none := by
  rw [List.lookup_eq_none_iff]
  intro entry hentry
  have hne : key ≠ entry.1 := fun heq => h (heq ▸ List.mem_map_of_mem hentry)
  simpa using hne

theorem mem_of_lookup_eq_some {value : ν} (h : entries.lookup key = some value) :
    (key, value) ∈ entries := by
  obtain ⟨front, back, rfl, -⟩ := List.lookup_eq_some_iff.mp h
  simp

theorem lookup_eq_some_of_mem (h : (entries.map Prod.fst).Nodup) {value : ν}
    (hmem : (key, value) ∈ entries) : entries.lookup key = some value := by
  induction entries with
  | nil => cases hmem
  | cons entry rest ih =>
      obtain ⟨hentry, hrest⟩ := List.nodup_cons.mp h
      rcases List.mem_cons.mp hmem with rfl | hmem
      · simp
      · have hne : (key == entry.1) = false := by
          rw [beq_eq_false_iff_ne]
          exact fun heq => hentry (heq ▸ List.mem_map_of_mem hmem)
        rw [List.lookup_cons, hne]
        exact ih hrest hmem

end Entries

namespace Bag

variable {κ : Type} [DecidableEq κ]

/-- Every key is listed once, and none with a count of zero. -/
structure Proper (bag : Bag κ) : Prop where
  nodup_keys : bag.keys.Nodup
  pos_of_mem : ∀ entry ∈ bag.entries, 0 < entry.2

theorem map_fst_adjust (key : κ) (change : Nat → Nat) (entries : List (κ × Nat)) :
    (adjust key change entries).map Prod.fst =
      if key ∈ entries.map Prod.fst then entries.map Prod.fst
      else entries.map Prod.fst ++ [key] := by
  induction entries with
  | nil => simp [adjust]
  | cons entry rest ih =>
      by_cases hkey : entry.1 = key
      · simp [adjust, hkey]
      · have hkey' : key ≠ entry.1 := fun heq => hkey heq.symm
        simp only [adjust, hkey, if_false, List.map_cons, ih, List.mem_cons, hkey', false_or]
        split <;> rfl

theorem mem_of_mem_adjust {key : κ} {change : Nat → Nat} {entries : List (κ × Nat)}
    {entry : κ × Nat} (h : entry ∈ adjust key change entries) :
    entry ∈ entries ∨ ∃ n, entry.2 = change n := by
  induction entries with
  | nil =>
      rw [adjust, List.mem_singleton] at h
      exact Or.inr ⟨0, by rw [h]⟩
  | cons first rest ih =>
      rw [adjust] at h
      split at h
      · rcases List.mem_cons.mp h with rfl | hrest
        · exact Or.inr ⟨first.2, rfl⟩
        · exact Or.inl (List.mem_cons_of_mem _ hrest)
      · rcases List.mem_cons.mp h with rfl | hrest
        · exact Or.inl List.mem_cons_self
        · exact (ih hrest).imp_left (List.mem_cons_of_mem _)

theorem Proper.adjust {bag : Bag κ} (h : bag.Proper) (key : κ) {change : Nat → Nat}
    (hchange : ∀ n, 0 < change n) : Proper ⟨Bag.adjust key change bag.entries⟩ where
  nodup_keys := by
    rw [keys, map_fst_adjust]
    split
    · exact h.nodup_keys
    · next hnew =>
      have hdisjoint : bag.keys.Disjoint [key] := List.disjoint_singleton.mpr hnew
      exact h.nodup_keys.append (List.nodup_singleton key) hdisjoint
  pos_of_mem entry hentry := by
    rcases mem_of_mem_adjust hentry with hold | ⟨n, hn⟩
    · exact h.pos_of_mem entry hold
    · exact hn ▸ hchange n

omit [DecidableEq κ] in
theorem Proper.empty : ({} : Bag κ).Proper :=
  ⟨List.nodup_nil, fun _ hentry => absurd hentry List.not_mem_nil⟩

theorem Proper.add {bag : Bag κ} (h : bag.Proper) (key : κ) : (bag.add key).Proper :=
  h.adjust key Nat.succ_pos

theorem Proper.addAll {bag : Bag κ} (h : bag.Proper) (keys : List κ) :
    (bag.addAll keys).Proper := by
  induction keys generalizing bag with
  | nil => exact h
  | cons key rest ih => exact ih (h.add key)

theorem proper_ofList (keys : List κ) : (ofList keys).Proper :=
  Proper.empty.addAll keys

theorem Proper.union {left right : Bag κ} (hleft : left.Proper) (hright : right.Proper) :
    (left.union right).Proper := by
  obtain ⟨others⟩ := right
  obtain ⟨-, hpos⟩ := hright
  rw [Bag.union]
  induction others generalizing left with
  | nil => exact hleft
  | cons other rest ih =>
      obtain ⟨hother, hrest⟩ := List.forall_mem_cons.mp hpos
      refine ih (hleft.adjust other.1 ?_) hrest
      intro n
      exact Nat.lt_of_lt_of_le hother (Nat.le_max_right n _)

theorem Proper.withoutKeys {bag : Bag κ} (h : bag.Proper) (stop : List κ) :
    (bag.withoutKeys stop).Proper where
  nodup_keys := h.nodup_keys.sublist (List.filter_sublist.map Prod.fst)
  pos_of_mem entry hentry := h.pos_of_mem entry (List.mem_filter.mp hentry).1

section Counts

theorem count_eq_zero_of_notMem {bag : Bag κ} {key : κ} (h : key ∉ bag.keys) :
    bag.count key = 0 := by
  rw [count, lookup_eq_none_of_notMem h, Option.getD_none]

theorem Proper.count_eq {bag : Bag κ} (h : bag.Proper) {key : κ} {n : Nat}
    (hmem : (key, n) ∈ bag.entries) : bag.count key = n := by
  rw [count, lookup_eq_some_of_mem h.nodup_keys hmem, Option.getD_some]

theorem Proper.mem_keys_iff {bag : Bag κ} (h : bag.Proper) {key : κ} :
    key ∈ bag.keys ↔ 0 < bag.count key := by
  constructor
  · intro hkey
    obtain ⟨⟨_, n⟩, hentry, rfl⟩ := List.mem_map.mp hkey
    rw [h.count_eq hentry]
    exact h.pos_of_mem _ hentry
  · intro hpos
    by_contra hkey
    exact Nat.ne_of_gt hpos (count_eq_zero_of_notMem hkey)

theorem Proper.isEmpty_iff {bag : Bag κ} (h : bag.Proper) :
    bag.isEmpty = true ↔ ∀ key, bag.count key = 0 := by
  have hkeys : bag.isEmpty = true ↔ bag.keys = [] := by simp [isEmpty, keys]
  rw [hkeys, List.eq_nil_iff_forall_not_mem]
  simp only [h.mem_keys_iff, Nat.not_lt, Nat.le_zero]

theorem count_addAll (bag : Bag κ) (keys : List κ) (key : κ) :
    (bag.addAll keys).count key = bag.count key + keys.count key := by
  induction keys generalizing bag with
  | nil => rfl
  | cons first rest ih =>
      rw [addAll, List.foldl_cons]
      refine (ih (bag.add first)).trans ?_
      rw [count_add, List.count_cons]
      by_cases hfirst : key = first
      · subst hfirst
        rw [if_pos rfl, beq_self_eq_true, if_pos rfl, Nat.add_assoc, Nat.add_comm 1]
      · simp [hfirst, Ne.symm hfirst]

theorem count_ofList (keys : List κ) (key : κ) : (ofList keys).count key = keys.count key := by
  rw [ofList, count_addAll, count_empty, Nat.zero_add]

theorem count_union (left : Bag κ) {right : Bag κ} (h : right.Proper) (key : κ) :
    (left.union right).count key = max (left.count key) (right.count key) := by
  obtain ⟨entries⟩ := left
  obtain ⟨others⟩ := right
  obtain ⟨hnodup, -⟩ := h
  simp only [union, count]
  induction others generalizing entries with
  | nil => simp
  | cons other rest ih =>
      obtain ⟨hother, hrest⟩ := List.nodup_cons.mp hnodup
      rw [List.foldl_cons, ih _ hrest]
      by_cases hkey : key = other.1
      · subst hkey
        rw [lookup_adjust_self, lookup_eq_none_of_notMem hother, List.lookup_cons,
          beq_self_eq_true]
        exact Nat.max_zero _
      · have hne : (key == other.1) = false := beq_eq_false_iff_ne.mpr hkey
        rw [lookup_adjust_of_ne _ hkey, List.lookup_cons, hne]

theorem entries_difference (left right : Bag κ) :
    (left.difference right).entries =
      (left.entries.filter fun entry => entry.2 - right.count entry.1 ≠ 0).map fun entry =>
        (entry.1, entry.2 - right.count entry.1) := by
  rw [difference]
  induction left.entries with
  | nil => rfl
  | cons entry rest ih =>
      by_cases hzero : entry.2 - right.count entry.1 = 0
      · simpa [hzero] using ih
      · simpa [hzero] using ih

theorem Proper.difference {left : Bag κ} (h : left.Proper) (right : Bag κ) :
    (left.difference right).Proper := by
  constructor
  · rw [keys, entries_difference, List.map_map]
    exact h.nodup_keys.sublist (List.filter_sublist.map Prod.fst)
  · intro entry hentry
    rw [entries_difference] at hentry
    obtain ⟨old, hold, rfl⟩ := List.mem_map.mp hentry
    exact Nat.pos_of_ne_zero (of_decide_eq_true (List.mem_filter.mp hold).2)

theorem Proper.count_difference {left : Bag κ} (h : left.Proper) (right : Bag κ) (key : κ) :
    (left.difference right).count key = left.count key - right.count key := by
  by_cases hkey : key ∈ (left.difference right).keys
  · obtain ⟨⟨_, n⟩, hentry, rfl⟩ := List.mem_map.mp hkey
    rw [(h.difference right).count_eq hentry]
    rw [entries_difference] at hentry
    obtain ⟨⟨_, m⟩, hold, heq⟩ := List.mem_map.mp hentry
    cases heq
    rw [h.count_eq (List.mem_filter.mp hold).1]
  · rw [count_eq_zero_of_notMem hkey]
    by_contra hne
    refine hkey ?_
    have hpos : 0 < left.count key := by omega
    obtain ⟨⟨_, m⟩, hentry, rfl⟩ := List.mem_map.mp (h.mem_keys_iff.mpr hpos)
    rw [h.count_eq hentry] at hne
    rw [keys, entries_difference, List.map_map]
    exact List.mem_map.mpr ⟨_, List.mem_filter.mpr ⟨hentry, by simpa using Ne.symm hne⟩, rfl⟩

theorem count_withoutKeys (bag : Bag κ) (stop : List κ) (key : κ) :
    (bag.withoutKeys stop).count key = if key ∈ stop then 0 else bag.count key := by
  rw [count, count, withoutKeys]
  induction bag.entries with
  | nil => simp
  | cons entry rest ih =>
      obtain ⟨other, n⟩ := entry
      by_cases hkey : key = other
      · subst hkey
        by_cases hstop : key ∈ stop
        · simpa [hstop] using ih
        · simp [hstop]
      · have hne : (key == other) = false := beq_eq_false_iff_ne.mpr hkey
        by_cases hstop : other ∈ stop
        · simpa [hstop, List.lookup_cons, hne] using ih
        · simpa [hstop, List.lookup_cons, hne] using ih

end Counts

end Bag

end Lineage
