import Mathlib.Algebra.GroupWithZero.Nat
import Mathlib.Data.List.Perm.Subperm
import Mathlib.Logic.Function.Basic
import Lineage.Proofs.Bags

namespace Lineage.Bag

variable {ρ κ : Type}

/-- What is done with the bags of some registers; the outcome goes to the register `target`. -/
inductive Operation (ρ κ : Type) where
  | add (target : ρ) (key : κ)
  | addAll (target : ρ) (keys : List κ)
  | ofList (target : ρ) (keys : List κ)
  | union (target left right : ρ)
  | difference (target left right : ρ)
  | withoutKeys (target source : ρ) (stop : List κ)

namespace Operation

def target : Operation ρ κ → ρ
  | add target _ | addAll target _ | ofList target _ | union target _ _ | difference target _ _
  | withoutKeys target _ _ => target

variable [DecidableEq κ]

/-- The bag that an operation makes out of those in the registers. -/
def outcome (bags : ρ → Bag κ) : Operation ρ κ → Bag κ
  | add target key => (bags target).add key
  | addAll target keys => (bags target).addAll keys
  | ofList _ keys => Bag.ofList keys
  | union _ left right => (bags left).union (bags right)
  | difference _ left right => (bags left).difference (bags right)
  | withoutKeys _ source stop => (bags source).withoutKeys stop

def perform [DecidableEq ρ] (bags : ρ → Bag κ) (operation : Operation ρ κ) : ρ → Bag κ :=
  Function.update bags operation.target (operation.outcome bags)

theorem proper_outcome {bags : ρ → Bag κ} (h : ∀ register, (bags register).Proper)
    (operation : Operation ρ κ) : (operation.outcome bags).Proper := by
  cases operation with
  | add target key => exact (h target).add key
  | addAll target keys => exact (h target).addAll keys
  | ofList target keys => exact proper_ofList keys
  | union target left right => exact (h left).union (h right)
  | difference target left right => exact (h left).difference (bags right)
  | withoutKeys target source stop => exact (h source).withoutKeys stop

theorem proper_perform [DecidableEq ρ] {bags : ρ → Bag κ} (h : ∀ register, (bags register).Proper)
    (operation : Operation ρ κ) (register : ρ) : (operation.perform bags register).Proper := by
  rw [perform, Function.update_apply]
  split
  · exact operation.proper_outcome h
  · exact h register

end Operation

variable [DecidableEq κ]

/-- The registers after some operations, all of them empty at first. -/
def run [DecidableEq ρ] (operations : List (Operation ρ κ)) : ρ → Bag κ :=
  operations.foldl Operation.perform fun _ => {}

theorem proper_foldl_perform [DecidableEq ρ] {bags : ρ → Bag κ}
    (h : ∀ register, (bags register).Proper) (operations : List (Operation ρ κ)) (register : ρ) :
    (operations.foldl Operation.perform bags register).Proper := by
  induction operations generalizing bags with
  | nil => exact h register
  | cons operation rest ih => exact ih (operation.proper_perform h)

theorem proper_run [DecidableEq ρ] (operations : List (Operation ρ κ)) (register : ρ) :
    (run operations register).Proper :=
  proper_foldl_perform (fun _ => Proper.empty) operations register

section Order

theorem eraseDups_eq_self {keys : List κ} (h : keys.Nodup) : keys.eraseDups = keys := by
  induction keys with
  | nil => rfl
  | cons key rest ih =>
      obtain ⟨hkey, hrest⟩ := List.nodup_cons.mp h
      have hfilter : rest.filter (fun other => !other == key) = rest := by
        rw [List.filter_eq_self]
        intro other hother
        have hne : other ≠ key := fun heq => hkey (heq ▸ hother)
        simpa using hne
      rw [List.eraseDups_cons, hfilter, ih hrest]

theorem map_fst_foldl_adjust {ι : Type} (key : ι → κ) (change : ι → Nat → Nat) (items : List ι)
    (entries : List (κ × Nat)) :
    (items.foldl (fun entries item => adjust (key item) (change item) entries) entries).map
        Prod.fst =
      entries.map Prod.fst ++
        ((items.map key).filter (· ∉ entries.map Prod.fst)).eraseDups := by
  induction items generalizing entries with
  | nil => simp
  | cons item rest ih =>
      rw [List.foldl_cons, ih, map_fst_adjust, List.map_cons]
      by_cases hold : key item ∈ entries.map Prod.fst
      · rw [if_pos hold, List.filter_cons_of_neg (by simpa using hold)]
      · -- The new key keeps its later occurrences out, which `eraseDups` does by another filter.
        rw [if_neg hold, List.filter_cons_of_pos (by simpa using hold), List.eraseDups_cons,
          List.filter_filter, List.append_assoc, List.singleton_append]
        refine congrArg (fun keys => _ ++ key item :: List.eraseDups keys) ?_
        refine List.filter_congr fun other _ => ?_
        rw [Bool.eq_iff_iff]
        simp [and_comm]

theorem keys_add (bag : Bag κ) (key : κ) :
    (bag.add key).keys = if key ∈ bag.keys then bag.keys else bag.keys ++ [key] :=
  map_fst_adjust key _ bag.entries

theorem entries_addAll (bag : Bag κ) (keys : List κ) :
    (bag.addAll keys).entries =
      keys.foldl (fun entries key => adjust key (· + 1) entries) bag.entries := by
  induction keys generalizing bag with
  | nil => rfl
  | cons key rest ih => exact ih (bag.add key)

theorem keys_addAll (bag : Bag κ) (keys : List κ) :
    (bag.addAll keys).keys = bag.keys ++ (keys.filter (· ∉ bag.keys)).eraseDups := by
  have h := map_fst_foldl_adjust id (fun _ => (· + 1)) keys bag.entries
  rw [List.map_id] at h
  rw [Bag.keys, entries_addAll]
  exact h

theorem keys_ofList (keys : List κ) : (ofList keys).keys = keys.eraseDups := by
  rw [ofList, keys_addAll]
  simp [Bag.keys]

theorem keys_union (left : Bag κ) {right : Bag κ} (h : right.Proper) :
    (left.union right).keys = left.keys ++ right.keys.filter (· ∉ left.keys) := by
  rw [Bag.keys, union, map_fst_foldl_adjust Prod.fst fun entry => (max · entry.2)]
  exact congrArg (left.keys ++ ·) (eraseDups_eq_self (h.nodup_keys.filter _))

theorem Proper.keys_difference {left : Bag κ} (h : left.Proper) (right : Bag κ) :
    (left.difference right).keys =
      left.keys.filter fun key => right.count key < left.count key := by
  rw [Bag.keys, entries_difference, List.map_map, Bag.keys, List.filter_map]
  refine congrArg (List.map Prod.fst) (List.filter_congr ?_)
  rintro ⟨key, n⟩ hentry
  simp only [Function.comp_apply, h.count_eq hentry]
  exact decide_eq_decide.mpr (by omega)

theorem keys_withoutKeys (bag : Bag κ) (stop : List κ) :
    (bag.withoutKeys stop).keys = bag.keys.filter (· ∉ stop) := by
  rw [Bag.keys, withoutKeys, Bag.keys, List.filter_map]
  rfl

end Order

theorem Proper.total_eq {bag : Bag κ} (h : bag.Proper) :
    bag.total = (bag.keys.map bag.count).sum := by
  have hcounts : bag.keys.map bag.count = bag.entries.map Prod.snd := by
    rw [Bag.keys, List.map_map]
    exact List.map_congr_left fun entry hentry => h.count_eq hentry
  rw [hcounts, total, List.sum_eq_foldr, List.foldr_map]

section Agreement

variable {left right : Bag κ}

omit [DecidableEq κ] in
theorem length_keys (bag : Bag κ) : bag.keys.length = bag.size :=
  List.length_map Prod.fst

theorem lookup_eq_some_iff_count_eq (bag : Bag κ) (key : κ) {n : Nat} (hpos : 0 < n) :
    bag.entries.lookup key = some n ↔ bag.count key = n := by
  rw [count]
  cases bag.entries.lookup key with
  | none => simp [Nat.ne_of_lt hpos]
  | some m => simp

/-- Bags of the same size agree as soon as the one counts the keys of the other alike: there is no
room for further keys. -/
theorem Proper.agrees_iff (hleft : left.Proper) (hright : right.Proper) :
    left.agrees right = true ↔ ∀ key, left.count key = right.count key := by
  rw [agrees, Bool.and_eq_true, beq_iff_eq, List.all_eq_true]
  constructor
  · rintro ⟨hsize, hentries⟩
    have hcount : ∀ key ∈ left.keys, left.count key = right.count key := by
      intro key hkey
      obtain ⟨⟨_, n⟩, hentry, rfl⟩ := List.mem_map.mp hkey
      have hlookup := eq_of_beq (hentries _ hentry)
      have hpos : 0 < n := hleft.pos_of_mem _ hentry
      rw [hleft.count_eq hentry, (right.lookup_eq_some_iff_count_eq _ hpos).mp hlookup]
    have hsubset : left.keys ⊆ right.keys := by
      intro key hkey
      rw [hright.mem_keys_iff, ← hcount key hkey]
      exact hleft.mem_keys_iff.mp hkey
    have hperm : left.keys.Perm right.keys := by
      apply (List.subperm_of_subset hleft.nodup_keys hsubset).perm_of_length_le
      have hlength : right.keys.length = left.keys.length := by
        rw [length_keys, length_keys, hsize]
      exact Nat.le_of_eq hlength
    intro key
    by_cases hkey : key ∈ left.keys
    · exact hcount key hkey
    · rw [count_eq_zero_of_notMem hkey, count_eq_zero_of_notMem (hperm.mem_iff.not.mp hkey)]
  · intro hcount
    have hperm : left.keys.Perm right.keys := by
      rw [List.perm_ext_iff_of_nodup hleft.nodup_keys hright.nodup_keys]
      intro key
      rw [hleft.mem_keys_iff, hright.mem_keys_iff, hcount]
    constructor
    · rw [← length_keys, ← length_keys, hperm.length_eq]
    · rintro ⟨key, n⟩ hentry
      have hpos : 0 < n := hleft.pos_of_mem _ hentry
      rw [beq_iff_eq, right.lookup_eq_some_iff_count_eq key hpos, ← hcount]
      exact hleft.count_eq hentry

end Agreement

/-- What becomes of the count of each key. -/
structure CountsKeys (left right : Bag κ) : Prop where
  addAll : ∀ keys key, (left.addAll keys).count key = left.count key + keys.count key
  ofList : ∀ (keys : List κ) key, (ofList keys).count key = keys.count key
  union : ∀ key, (left.union right).count key = max (left.count key) (right.count key)
  difference : ∀ key, (left.difference right).count key = left.count key - right.count key
  withoutKeys : ∀ stop key,
    (left.withoutKeys stop).count key = if key ∈ stop then 0 else left.count key
  total : left.total = (left.keys.map left.count).sum

/-- What becomes of the order of keys. -/
structure OrdersKeys (left right : Bag κ) : Prop where
  add : ∀ key, (left.add key).keys = if key ∈ left.keys then left.keys else left.keys ++ [key]
  addAll : ∀ keys,
    (left.addAll keys).keys = left.keys ++ (keys.filter (· ∉ left.keys)).eraseDups
  ofList : ∀ keys : List κ, (ofList keys).keys = keys.eraseDups
  union : (left.union right).keys = left.keys ++ right.keys.filter (· ∉ left.keys)
  difference : (left.difference right).keys =
    left.keys.filter fun key => right.count key < left.count key
  withoutKeys : ∀ stop, (left.withoutKeys stop).keys = left.keys.filter (· ∉ stop)

/-- Bags are told apart by their counts alone, and their unions are joins. -/
structure Extensional (left middle right : Bag κ) : Prop where
  agrees_iff : left.agrees right = true ↔ ∀ key, left.count key = right.count key
  union_comm : (left.union right).agrees (right.union left) = true
  union_assoc :
    ((left.union middle).union right).agrees (left.union (middle.union right)) = true
  union_self : (left.union left).agrees left = true

section Laws

variable {left middle right : Bag κ}

theorem Proper.countsKeys (hleft : left.Proper) (hright : right.Proper) :
    CountsKeys left right where
  addAll := count_addAll left
  ofList := count_ofList
  union := count_union left hright
  difference := hleft.count_difference right
  withoutKeys := count_withoutKeys left
  total := hleft.total_eq

theorem Proper.ordersKeys (hleft : left.Proper) (hright : right.Proper) :
    OrdersKeys left right where
  add := keys_add left
  addAll := keys_addAll left
  ofList := keys_ofList
  union := keys_union left hright
  difference := hleft.keys_difference right
  withoutKeys := keys_withoutKeys left

theorem Proper.extensional (hleft : left.Proper) (hmiddle : middle.Proper)
    (hright : right.Proper) : Extensional left middle right where
  agrees_iff := hleft.agrees_iff hright
  union_comm := by
    rw [(hleft.union hright).agrees_iff (hright.union hleft)]
    intro key
    rw [count_union left hright, count_union right hleft, Nat.max_comm]
  union_assoc := by
    have hassoc := (hleft.union hmiddle).union hright
    rw [hassoc.agrees_iff (hleft.union (hmiddle.union hright))]
    intro key
    rw [count_union _ hright, count_union left hmiddle, count_union left (hmiddle.union hright),
      count_union middle hright, Nat.max_assoc]
  union_self := by
    rw [(hleft.union hleft).agrees_iff hleft]
    intro key
    rw [count_union left hleft, Nat.max_self]

end Laws

/-- Whatever was done before, the bags in the registers list each key once, count it at least once,
and follow the laws of counts, of the order of keys and of agreement. -/
theorem runs_keep_bags_extensional [DecidableEq ρ] (operations : List (Operation ρ κ))
    (x y z : ρ) :
    (run operations x).Proper ∧
      CountsKeys (run operations x) (run operations y) ∧
      OrdersKeys (run operations x) (run operations y) ∧
      Extensional (run operations x) (run operations y) (run operations z) := by
  have hx := proper_run operations x
  have hy := proper_run operations y
  exact ⟨hx, hx.countsKeys hy, hx.ordersKeys hy, hx.extensional hy (proper_run operations z)⟩

end Lineage.Bag
