/-!
Bags count keys and list them in the order in which they first came in. All operations keep that
order; `Bag.agrees` compares two bags without it.
-/

namespace Lineage

/-- Counted keys, in the order in which they first came in. -/
structure Bag (κ : Type) where
  entries : List (κ × Nat) := []
  deriving Repr, DecidableEq, Inhabited

namespace Bag

variable {κ : Type} [DecidableEq κ]

/-- How often `key` was counted, zero for an unknown key. -/
def count (bag : Bag κ) (key : κ) : Nat :=
  (bag.entries.lookup key).getD 0

def keys (bag : Bag κ) : List κ :=
  bag.entries.map Prod.fst

/-- The number of distinct keys. -/
def size (bag : Bag κ) : Nat :=
  bag.entries.length

/-- The sum of all counts. -/
def total (bag : Bag κ) : Nat :=
  bag.entries.foldr (fun entry total => entry.2 + total) 0

def isEmpty (bag : Bag κ) : Bool :=
  bag.entries.isEmpty

/-- Changes the count of `key` by `change`; a new key goes last and counts from zero. -/
def adjust (key : κ) (change : Nat → Nat) : List (κ × Nat) → List (κ × Nat)
  | [] => [(key, change 0)]
  | (k, n) :: rest =>
    if k = key then (k, change n) :: rest else (k, n) :: adjust key change rest

def add (bag : Bag κ) (key : κ) : Bag κ :=
  ⟨adjust key (· + 1) bag.entries⟩

def addAll (bag : Bag κ) (keys : List κ) : Bag κ :=
  keys.foldl add bag

def ofList (keys : List κ) : Bag κ :=
  addAll {} keys

/-- Each key with the larger of its two counts: the keys of `left`, then the new ones of `right`. -/
def union (left right : Bag κ) : Bag κ :=
  ⟨right.entries.foldl (fun entries entry => adjust entry.1 (max · entry.2) entries) left.entries⟩

/-- What `left` has more of than `right`. -/
def difference (left right : Bag κ) : Bag κ :=
  ⟨left.entries.filterMap fun (key, n) =>
    if n - right.count key = 0 then none else some (key, n - right.count key)⟩

def withoutKeys (bag : Bag κ) (stop : List κ) : Bag κ :=
  ⟨bag.entries.filter fun entry => entry.1 ∉ stop⟩

/-- The same keys with the same counts, in any order. -/
def agrees (left right : Bag κ) : Bool :=
  left.size == right.size &&
    left.entries.all fun (key, n) => right.entries.lookup key == some n

@[simp] theorem count_empty (key : κ) : ({} : Bag κ).count key = 0 := rfl

theorem lookup_adjust_self (key : κ) (change : Nat → Nat) (entries : List (κ × Nat)) :
    (adjust key change entries).lookup key = some (change ((entries.lookup key).getD 0)) := by
  induction entries with
  | nil => simp [adjust]
  | cons entry rest ih =>
    obtain ⟨k, n⟩ := entry
    by_cases h : k = key
    · subst h; simp [adjust]
    · have h' : (key == k) = false := by simpa using fun e => h e.symm
      simp [adjust, h, List.lookup_cons, h', ih]

theorem lookup_adjust_of_ne {key other : κ} (change : Nat → Nat) (h : other ≠ key)
    (entries : List (κ × Nat)) :
    (adjust key change entries).lookup other = entries.lookup other := by
  induction entries with
  | nil =>
    have h' : (other == key) = false := by simpa using h
    simp [adjust, List.lookup_cons, h']
  | cons entry rest ih =>
    obtain ⟨k, n⟩ := entry
    by_cases hk : k = key
    · subst hk
      have h' : (other == k) = false := by simpa using h
      simp [adjust, List.lookup_cons, h']
    · simp only [adjust, hk, if_false, List.lookup_cons, ih]

theorem count_add (bag : Bag κ) (key other : κ) :
    (bag.add key).count other = bag.count other + if other = key then 1 else 0 := by
  by_cases h : other = key
  · subst h; simp [count, add, lookup_adjust_self]
  · simp [count, add, lookup_adjust_of_ne _ h, h]

end Bag

end Lineage
