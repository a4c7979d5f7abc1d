import Mathlib.Data.List.Basic
import Mathlib.Data.String.Basic
import Lineage.Disk
import Lineage.Proofs.Bags
import Lineage.Proofs.JoinedPaths
import Lineage.Proofs.Outcomes

namespace Lineage

namespace Item

variable {item found : Item} {names : List String} {entries : List (String × Item)}

/-- The entries of every directory have different names, and names that entries can have. -/
inductive Sound : Item → Prop
  | file (bytes : ByteArray) : Sound (.file bytes)
  | directory {entries : List (String × Item)} (nodup : (entries.map Prod.fst).Nodup)
    (names : ∀ entry ∈ entries, Path.IsEntryName entry.1)
    (items : ∀ entry ∈ entries, Sound entry.2) : Sound (.directory entries)

/-- The same files lie below two items under the same names. -/
def SameFiles (left right : Item) : Prop :=
  ∀ names bytes, left.at? names = some (.file bytes) ↔ right.at? names = some (.file bytes)

@[simp]
theorem at?_nil (item : Item) : item.at? [] = some item := by
  cases item <;> rfl

theorem at?_append (item : Item) (front back : List String) :
    item.at? (front ++ back) = (item.at? front).bind (·.at? back) := by
  induction front generalizing item with
  | nil => simp
  | cons name front ih =>
      cases item with
      | file => rfl
      | directory entries =>
          simp only [List.cons_append, at?]
          split
          · exact ih _
          · rfl

theorem at?_directory_cons_eq_some_iff {name : String} :
    (directory entries).at? (name :: names) = some found ↔
      ∃ item, entries.lookup name = some item ∧ item.at? names = some found := by
  rw [at?]
  cases entries.lookup name <;> simp

theorem names_ne_nil_of_file {bytes : ByteArray}
    (h : (directory entries).at? names = some (.file bytes)) : names ≠ [] := by
  rintro rfl
  rw [at?_nil] at h
  cases h

namespace Sound

theorem at? (h : item.Sound) (hat : item.at? names = some found) :
    found.Sound ∧ ∀ name ∈ names, Path.IsEntryName name := by
  induction names generalizing item with
  | nil =>
      cases (at?_nil item).symm.trans hat
      exact ⟨h, by simp⟩
  | cons name names ih =>
      cases h with
      | file => cases hat
      | directory nodup entryNames items =>
          obtain ⟨below, hlookup, hat⟩ := at?_directory_cons_eq_some_iff.mp hat
          have hmem := mem_of_lookup_eq_some hlookup
          obtain ⟨hfound, hnames⟩ := ih (items _ hmem) hat
          exact ⟨hfound, List.forall_mem_cons.mpr ⟨entryNames _ hmem, hnames⟩⟩

end Sound

theorem walkEntries_eq_map (entries : List (String × Item)) :
    walkEntries entries = entries.map fun entry => (entry.1, entry.2.walk) := by
  induction entries with
  | nil => rfl
  | cons entry entries ih => rw [walkEntries, ih, List.map_cons]

theorem sortByName_map {α β : Type} (f : α → β) (entries : List (String × α)) :
    sortByName (entries.map fun entry => (entry.1, f entry.2)) =
      (sortByName entries).map fun entry => (entry.1, f entry.2) := by
  rw [sortByName, sortByName, List.map_mergeSort]
  intros
  rfl

theorem mem_sortByName {α : Type} {entry : String × α} {entries : List (String × α)} :
    entry ∈ sortByName entries ↔ entry ∈ entries :=
  List.mem_mergeSort

theorem pairwise_sortByName {α : Type} {entries : List (String × α)}
    (h : (entries.map Prod.fst).Nodup) :
    (sortByName entries).Pairwise fun left right => left.1 < right.1 := by
  have hsorted : (sortByName entries).Pairwise fun left right => left.1 ≤ right.1 := by
    refine (List.pairwise_mergeSort ?_ ?_ entries).imp ?_
    · simp only [Bool.not_eq_true', decide_eq_false_iff_not, not_lt]
      exact fun _ _ _ => le_trans
    · simp only [Bool.or_eq_true, Bool.not_eq_true', decide_eq_false_iff_not, not_lt]
      exact fun left right => le_total left.1 right.1
    · intro left right h
      simpa only [Bool.not_eq_true', decide_eq_false_iff_not, not_lt] using h
  have hnodup : (sortByName entries).Pairwise fun left right => left.1 ≠ right.1 := by
    rw [← List.pairwise_map]
    exact ((List.mergeSort_perm entries _).map Prod.fst).nodup_iff.mpr h
  exact hsorted.imp₂ (fun _ _ => lt_of_le_of_ne) hnodup

theorem walk_file (bytes : ByteArray) : (file bytes).walk = [([], file bytes)] := by
  rw [walk]

theorem walk_directory (entries : List (String × Item)) :
    (directory entries).walk = ([], directory entries) ::
      (sortByName entries).flatMap fun entry =>
        entry.2.walk.map fun below => (entry.1 :: below.1, below.2) := by
  rw [walk, walkEntries_eq_map, sortByName_map, List.flatMap_map]

theorem mem_walk_iff (h : item.Sound) :
    (names, found) ∈ item.walk ↔ item.at? names = some found := by
  induction h generalizing names with
  | file bytes => cases names <;> simp [walk_file, at?, eq_comm]
  | @directory entries nodup entryNames items ih =>
      rw [walk_directory]
      cases names with
      | nil => simp [eq_comm]
      | cons name names =>
          simp only [List.mem_cons, List.mem_flatMap, mem_sortByName, List.mem_map,
            at?_directory_cons_eq_some_iff]
          constructor
          · rintro (heq | ⟨entry, hentry, below, hbelow, heq⟩)
            · cases heq
            · cases heq
              exact ⟨entry.2, lookup_eq_some_of_mem nodup hentry, (ih entry hentry).mp hbelow⟩
          · rintro ⟨below, hlookup, hat⟩
            have hmem := mem_of_lookup_eq_some hlookup
            exact .inr ⟨_, hmem, _, (ih _ hmem).mpr hat, rfl⟩

theorem pairwise_walk (h : item.Sound) :
    item.walk.Pairwise fun left right => left.1 < right.1 := by
  induction h with
  | file bytes => simp [walk_file]
  | @directory entries nodup entryNames items ih =>
      rw [walk_directory, List.pairwise_cons, List.pairwise_flatMap]
      refine ⟨?_, ?_, ?_⟩
      · intro below hbelow
        obtain ⟨entry, -, hmap⟩ := List.mem_flatMap.mp hbelow
        obtain ⟨inner, -, rfl⟩ := List.mem_map.mp hmap
        exact List.nil_lt_cons _ _
      · intro entry hentry
        rw [List.pairwise_map]
        refine (ih entry (mem_sortByName.mp hentry)).imp ?_
        intro left right hlt
        exact List.cons_lt_cons_iff.mpr (.inr ⟨rfl, hlt⟩)
      · refine (pairwise_sortByName nodup).imp ?_
        intro first second hlt left hleft right hright
        obtain ⟨_, -, rfl⟩ := List.mem_map.mp hleft
        obtain ⟨_, -, rfl⟩ := List.mem_map.mp hright
        exact List.cons_lt_cons_iff.mpr (.inl hlt)

end Item

namespace Disk

variable {disk : Disk} {path root : Path} {tree item : Item} {names : List String}

/-- The path of what names lead to from `root` is short enough to be looked up. -/
def InReach (root : Path) (names : List String) : Prop :=
  (names.foldl Path.join root).text.utf8ByteSize ≤ longestPath

instance (root : Path) (names : List String) : Decidable (InReach root names) :=
  inferInstanceAs (Decidable (_ ≤ _))

theorem find_eq_ok_iff : disk.find path = .ok item ↔
    '\x00' ∉ path.text.toList ∧ path.text ≠ "" ∧ path.text.utf8ByteSize ≤ longestPath ∧
      ∃ place, path.segments.foldlM disk.step (disk.origin path) = .ok place ∧
        disk.root.at? place = some item := by
  have hfind : disk.find path = .ok item ↔
      ∃ place, disk.resolve path = .ok place ∧ disk.root.at? place = some item := by
    refine bind_eq_ok_iff.trans (exists_congr fun place => and_congr_right fun _ => ?_)
    split <;> simp_all
  rw [hfind, resolve, follow]
  split_ifs with hnul hempty hlong <;> simp_all

theorem sound_of_find (h : disk.root.Sound) (hfind : disk.find path = .ok item) : item.Sound := by
  obtain ⟨-, -, -, place, -, hplace⟩ := find_eq_ok_iff.mp hfind
  exact (h.at? hplace).1

theorem find_of_too_long (hnul : '\x00' ∉ path.text.toList) (htext : path.text ≠ "")
    (hlong : longestPath < path.text.utf8ByteSize) : disk.find path = .error .nameTooLong := by
  have hresolve : disk.resolve path = .error .nameTooLong := by
    simp [resolve, follow, hnul, htext, hlong]
  rw [find, hresolve]
  rfl

theorem step_empty {place reached : List String} (h : disk.step place [] = .ok reached) :
    reached = place := by
  unfold step at h
  split at h
  · cases h
  · cases h
  · exact (Except.ok.inj h).symm

theorem step_toList {place : List String} {name : String} {entries : List (String × Item)}
    (hname : Path.IsEntryName name) (hplace : disk.root.at? place = some (.directory entries))
    (hlookup : (entries.lookup name).isSome) :
    disk.step place name.toList = .ok (place ++ [name]) := by
  obtain ⟨hempty, hhere, hup⟩ := hname.ordinary
  have hstep : disk.step place name.toList =
      if longestName < name.utf8ByteSize then .error .nameTooLong
      else if (entries.lookup name).isSome then .ok (place ++ [name])
      else .error .notFound := by
    simp only [step, hplace, String.ofList_toList]
  rw [hstep, if_neg (Nat.not_lt.mpr hname.short), if_pos hlookup]

theorem foldlM_step_names {place : List String} (hplace : disk.root.at? place = some tree)
    (hnames : ∀ name ∈ names, Path.IsEntryName name) (hat : tree.at? names = some item) :
    (names.map String.toList).foldlM disk.step place = .ok (place ++ names) := by
  induction names generalizing place tree with
  | nil => simp; rfl
  | cons name names ih =>
      obtain ⟨hname, hnames⟩ := List.forall_mem_cons.mp hnames
      cases tree with
      | file => cases hat
      | directory entries =>
          obtain ⟨below, hlookup, hat⟩ := Item.at?_directory_cons_eq_some_iff.mp hat
          have hbelow : disk.root.at? (place ++ [name]) = some below := by
            rw [Item.at?_append, hplace]
            simp [Item.at?, hlookup]
          rw [List.map_cons, List.foldlM_cons, step_toList hname hplace (by simp [hlookup])]
          have hrest := ih hbelow hnames hat
          rw [List.append_assoc] at hrest
          exact hrest

theorem foldlM_step_stem (htext : path.text ≠ "") {start place : List String}
    (h : path.segments.foldlM disk.step start = .ok place) :
    path.stem.foldlM disk.step start = .ok place := by
  rcases Path.segments_eq_stem htext with hsegments | hsegments
  · rwa [hsegments] at h
  · rw [hsegments, List.foldlM_append] at h
    obtain ⟨reached, hreached, hlast⟩ := bind_eq_ok_iff.mp h
    rw [List.foldlM_cons] at hlast
    obtain ⟨final, hfinal, hplace⟩ := bind_eq_ok_iff.mp hlast
    cases hplace
    rw [hreached, step_empty hfinal]

theorem origin_foldl_join (htext : root.text ≠ "") (names : List String) :
    disk.origin (names.foldl Path.join root) = disk.origin root := by
  obtain ⟨suffix, -, hjoin⟩ := Path.exists_text_foldl_join root names
  rw [origin, origin, hjoin, List.head?_append_of_ne_nil _ (by simpa using htext)]

theorem foldlM_step_foldl_join (htext : root.text ≠ "") {place : List String}
    (hplace : root.segments.foldlM disk.step (disk.origin root) = .ok place)
    (htree : disk.root.at? place = some tree) (hnames : ∀ name ∈ names, Path.IsEntryName name)
    (hat : tree.at? names = some item) :
    (names.foldl Path.join root).segments.foldlM disk.step
      (disk.origin (names.foldl Path.join root)) = .ok (place ++ names) := by
  rw [origin_foldl_join htext]
  rcases eq_or_ne names [] with rfl | hne
  · simpa using hplace
  · rw [Path.segments_foldl_join root hne hnames, List.foldlM_append,
      foldlM_step_stem htext hplace]
    exact foldlM_step_names htree hnames hat

/-- What is below a directory is found under its names joined to any path of the directory, unless
that path is too long. -/
theorem find_foldl_join (hroot : disk.find root = .ok tree)
    (hnames : ∀ name ∈ names, Path.IsEntryName name) (hat : tree.at? names = some item) :
    disk.find (names.foldl Path.join root) =
      if InReach root names then .ok item else .error .nameTooLong := by
  obtain ⟨hnul, htext, hshort, place, hplace, htree⟩ := find_eq_ok_iff.mp hroot
  obtain ⟨suffix, hsuffix, hjoin⟩ := Path.exists_text_foldl_join root names
  have hnul' : '\x00' ∉ (names.foldl Path.join root).text.toList := by
    rw [hjoin, List.mem_append, not_or]
    refine ⟨hnul, fun hmem => ?_⟩
    rcases hsuffix _ hmem with hslash | ⟨name, hname, hmem⟩
    · cases hslash
    · exact (hnames name hname).no_nul hmem
  have htext' := Path.foldl_join_text_ne_empty htext names
  split
  · next hfits =>
      refine find_eq_ok_iff.mpr ⟨hnul', htext', hfits, place ++ names, ?_, ?_⟩
      · exact foldlM_step_foldl_join htext hplace htree hnames hat
      · rw [Item.at?_append, htree, Option.bind_some, hat]
  · next hlong => exact find_of_too_long hnul' htext' (Nat.not_le.mp hlong)

end Disk

end Lineage
