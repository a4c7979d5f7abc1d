import Lineage.Text.Casing

/-!
Segments of a declaration's name. A name is cut before every character that is its own upper case,
so `loadFile` has the segments `load` and `File`, and `Shop` has an empty one before `Shop`.
-/

namespace Lineage.Name

/-- Cuts before every character that `starts`; the first segment has none of them. -/
def cutBefore (starts : Char → Bool) : List Char → List (List Char)
  | [] => [[]]
  | c :: rest =>
    match cutBefore starts rest with
    | [] => [[c]]
    | segment :: segments =>
      if starts c then [] :: (c :: segment) :: segments else (c :: segment) :: segments

/-- The segments of a name, in order. -/
def segments (name : String) : List String :=
  (cutBefore Casing.isOwnUpper name.toList).map String.ofList

theorem cutBefore_ne_nil (starts : Char → Bool) (cs : List Char) : cutBefore starts cs ≠ [] := by
  cases cs with
  | nil => simp [cutBefore]
  | cons c rest => rw [cutBefore]; split <;> (try split) <;> simp

/-- Cutting loses nothing. -/
theorem flatten_cutBefore (starts : Char → Bool) (cs : List Char) :
    (cutBefore starts cs).flatten = cs := by
  induction cs with
  | nil => rfl
  | cons c rest ih =>
    rw [cutBefore]
    split
    · next h => exact absurd h (cutBefore_ne_nil starts rest)
    · next segment segments h =>
      rw [h] at ih
      split <;> simpa using ih

end Lineage.Name
