import Mathlib.Data.List.Basic
import Lineage.CodeTree

namespace Lineage

namespace Path

/-- A segment that is an ordinary name. -/
def IsOrdinary (segment : List Char) : Prop :=
  segment ≠ [] ∧ segment ≠ ['.'] ∧ segment ≠ ['.', '.']

/-- A relative path made of ordinary names with a single slash between any two of them. -/
def Normal (path : Path) : Prop :=
  ∀ segment ∈ path.segments, IsOrdinary segment

instance (segment : List Char) : Decidable (IsOrdinary segment) :=
  inferInstanceAs (Decidable (_ ∧ _ ∧ _))

instance (path : Path) : Decidable path.Normal :=
  inferInstanceAs (Decidable (∀ segment ∈ path.segments, IsOrdinary segment))

theorem innerComponent_of_isOrdinary {segment : List Char} (h : IsOrdinary segment) :
    innerComponent segment = some (.name segment) := by
  obtain ⟨hempty, hhere, hup⟩ := h
  unfold innerComponent
  split
  · exact absurd rfl hempty
  · exact absurd rfl hhere
  · exact absurd rfl hup
  · rfl

theorem dropIgnored_of_isOrdinary {segment : List Char} (h : IsOrdinary segment)
    (rest : List (List Char)) : dropIgnored (segment :: rest) = segment :: rest := by
  cases rest with
  | nil => rfl
  | cons before rest => simp [dropIgnored, h.1, h.2.1]

theorem fileName?_of_isOrdinary {path : Path} {front : List (List Char)} {last : List Char}
    (hsegments : path.segments = front ++ [last]) (hlast : IsOrdinary last) :
    path.fileName? = some (String.ofList last) := by
  rw [fileName?, hsegments, List.reverse_append, List.reverse_singleton, List.singleton_append,
    dropIgnored_of_isOrdinary hlast]
  simp [innerComponent_of_isOrdinary hlast]

theorem text_toList_eq (path : Path) :
    path.text.toList = List.intercalate ['/'] path.segments :=
  (List.intercalate_splitOn '/').symm

theorem eq_of_text_eq {left right : Path} (h : left.text = right.text) : left = right := by
  cases left
  cases right
  exact congrArg Path.mk h

theorem eq_of_segments_eq {left right : Path} (h : left.segments = right.segments) :
    left = right :=
  eq_of_text_eq (String.ext (by rw [text_toList_eq, text_toList_eq, h]))

theorem intercalate_concat {separator last : List Char} {front : List (List Char)}
    (hfront : front ≠ []) :
    List.intercalate separator (front ++ [last]) =
      List.intercalate separator front ++ separator ++ last := by
  induction front with
  | nil => exact absurd rfl hfront
  | cons first rest ih =>
      cases rest with
      | nil => simp [List.intercalate_cons_cons]
      | cons second rest =>
          have hrest := ih (List.cons_ne_nil second rest)
          rw [List.cons_append] at hrest
          rw [List.cons_append, List.cons_append, List.intercalate_cons_cons, hrest,
            List.intercalate_cons_cons]
          simp only [List.append_assoc]

theorem intercalate_ne_nil {separator first : List Char} (hfirst : first ≠ [])
    (rest : List (List Char)) : List.intercalate separator (first :: rest) ≠ [] := by
  cases rest with
  | nil => simpa using hfirst
  | cons second rest => simp [List.intercalate_cons_cons, hfirst]

theorem same_iff {left right : Path} :
    left.same right = true ↔ left.components = right.components := by
  simp [same]

theorem same_comm (left right : Path) : left.same right = right.same left := by
  simp only [same]
  exact Bool.beq_comm

namespace Normal

variable {path left right : Path}

theorem components_eq (h : path.Normal) : path.components = path.segments.map .name := by
  have hall : path.segments.filterMap innerComponent = path.segments.map .name := by
    rw [← List.filterMap_eq_map]
    exact List.filterMap_congr fun segment hsegment =>
      innerComponent_of_isOrdinary (h segment hsegment)
  unfold components
  unfold Normal at h
  split
  · next heq => rw [heq, List.map_nil]
  · next heq => exact absurd rfl (h [] (by simp [heq])).1
  · next heq => exact absurd rfl (h [] (by simp [heq])).1
  · next heq => exact absurd rfl (h ['.'] (by simp [heq])).2.1
  · exact hall

theorem eq_of_same (hleft : left.Normal) (hright : right.Normal) (h : left.same right = true) :
    left = right := by
  rw [same_iff, hleft.components_eq, hright.components_eq] at h
  refine eq_of_segments_eq (List.map_injective_iff.mpr ?_ h)
  exact fun _ _ heq => Component.name.inj heq

theorem exists_segments_eq (path : Path) : ∃ front last, path.segments = front ++ [last] :=
  ⟨_, _, (List.dropLast_concat_getLast (List.splitOn_ne_nil '/' path.text.toList)).symm⟩

theorem fileName?_eq (h : path.Normal) {front : List (List Char)} {last : List Char}
    (hsegments : path.segments = front ++ [last]) :
    path.fileName? = some (String.ofList last) :=
  fileName?_of_isOrdinary hsegments (h last (by simp [hsegments]))

theorem parent?_eq (h : path.Normal) {front : List (List Char)} {last : List Char}
    (hsegments : path.segments = front ++ [last]) :
    path.parent? = some ⟨String.ofList (List.intercalate ['/'] front)⟩ := by
  have hlast : IsOrdinary last := h last (by simp [hsegments])
  rw [parent?, hsegments, List.reverse_append, List.reverse_singleton, List.singleton_append,
    dropIgnored_of_isOrdinary hlast]
  rcases List.eq_nil_or_concat front with rfl | ⟨rest, segment, rfl⟩
  · obtain ⟨first, last, rfl⟩ := List.exists_cons_of_ne_nil hlast.1
    rfl
  · have hsegment : IsOrdinary segment := h segment (by simp [hsegments])
    rw [List.concat_eq_append, List.reverse_append, List.reverse_singleton, List.singleton_append]
    simp only [dropIgnored_of_isOrdinary hsegment]
    split
    · next heq => exact absurd (List.cons.inj heq).1 hsegment.1
    · simp

theorem text_eq (h : path.Normal) {name scope : String} (hname : path.fileName? = some name)
    (hscope : path.parent? = some ⟨scope⟩) :
    path.text = if scope.isEmpty then name else scope ++ "/" ++ name := by
  obtain ⟨front, last, hsegments⟩ := exists_segments_eq path
  rw [h.fileName?_eq hsegments] at hname
  rw [h.parent?_eq hsegments] at hscope
  cases hname
  cases hscope
  apply String.ext
  rw [text_toList_eq, hsegments]
  cases front with
  | nil => simp
  | cons first rest =>
      have hfirst : IsOrdinary first := h first (by simp [hsegments])
      rw [intercalate_concat (List.cons_ne_nil first rest), if_neg]
      · simp
      · rw [String.isEmpty_iff, ← String.toList_inj, String.toList_ofList]
        exact intercalate_ne_nil hfirst.1 rest

end Normal

end Path

namespace PathMap

variable {α : Type}

/-- No two paths of a map name the same file. -/
def Distinct (map : PathMap α) : Prop :=
  map.entries.Pairwise fun left right => left.1.same right.1 = false

instance (map : PathMap α) : Decidable map.Distinct :=
  inferInstanceAs (Decidable (map.entries.Pairwise _))

theorem find?_eq_some_of_mem {map : PathMap α} (h : map.Distinct) {path : Path} {value : α}
    (hmem : (path, value) ∈ map.entries) : map.find? path = some value := by
  obtain ⟨front, back, heq⟩ := List.append_of_mem hmem
  have hfront : ∀ entry ∈ front, entry.1.same path = false := by
    intro entry hentry
    rw [Distinct, heq, List.pairwise_append] at h
    exact h.2.2 entry hentry (path, value) List.mem_cons_self
  rw [find?, heq, List.find?_append, List.find?_eq_none.mpr (by simpa using hfront)]
  simp [Path.same]

theorem Distinct.nodup_entries {map : PathMap α} (h : map.Distinct) : map.entries.Nodup := by
  refine h.imp ?_
  rintro left _ hsame rfl
  simp [Path.same] at hsame

theorem Distinct.eq_of_fst_eq {map : PathMap α} (h : map.Distinct) {left right : Path × α}
    (hleft : left ∈ map.entries) (hright : right ∈ map.entries) (heq : left.1 = right.1) :
    left = right := by
  have hvalue := find?_eq_some_of_mem h hleft
  rw [heq, find?_eq_some_of_mem h hright] at hvalue
  exact Prod.ext heq (Option.some.inj hvalue).symm

theorem exists_mem_of_find? {map : PathMap α} {path : Path} {value : α}
    (h : map.find? path = some value) :
    ∃ key, (key, value) ∈ map.entries ∧ key.same path = true := by
  obtain ⟨entry, hfind, rfl⟩ := Option.map_eq_some_iff.mp h
  have hsame := List.find?_some hfind
  exact ⟨entry.1, List.mem_of_find?_eq_some hfind, hsame⟩

theorem find?_congr (map : PathMap α) {left right : Path} (h : left.same right = true) :
    map.find? left = map.find? right := by
  rw [Path.same_iff] at h
  simp only [find?, Path.same, h]

theorem mem_of_find? {map : PathMap α} (hnormal : ∀ entry ∈ map.entries, entry.1.Normal)
    {path : Path} (hpath : path.Normal) {value : α} (h : map.find? path = some value) :
    (path, value) ∈ map.entries := by
  obtain ⟨key, hkey, hsame⟩ := exists_mem_of_find? h
  have heq : key = path := (hnormal _ hkey).eq_of_same hpath hsame
  exact heq ▸ hkey

theorem Distinct.find?_eq_iff {left right : PathMap α} (hleft : left.Distinct)
    (hright : right.Distinct) (hleftNormal : ∀ entry ∈ left.entries, entry.1.Normal)
    (hrightNormal : ∀ entry ∈ right.entries, entry.1.Normal) :
    (∀ path, left.find? path = right.find? path) ↔
      ∀ entry, entry ∈ left.entries ↔ entry ∈ right.entries := by
  constructor
  · rintro hfind ⟨path, value⟩
    constructor
    · intro hmem
      refine mem_of_find? hrightNormal (hleftNormal _ hmem) ?_
      rw [← hfind]
      exact find?_eq_some_of_mem hleft hmem
    · intro hmem
      refine mem_of_find? hleftNormal (hrightNormal _ hmem) ?_
      rw [hfind]
      exact find?_eq_some_of_mem hright hmem
  · intro hentries path
    ext value
    constructor
    · intro hvalue
      obtain ⟨key, hkey, hsame⟩ := exists_mem_of_find? hvalue
      rw [← right.find?_congr hsame]
      exact find?_eq_some_of_mem hright ((hentries _).mp hkey)
    · intro hvalue
      obtain ⟨key, hkey, hsame⟩ := exists_mem_of_find? hvalue
      rw [← left.find?_congr hsame]
      exact find?_eq_some_of_mem hleft ((hentries _).mpr hkey)

theorem put_of_not_same {path : Path} (value : α) {entries : List (Path × α)}
    (h : ∀ entry ∈ entries, entry.1.same path = false) :
    put path value entries = entries ++ [(path, value)] := by
  induction entries with
  | nil => rfl
  | cons entry rest ih =>
      obtain ⟨hentry, hrest⟩ := List.forall_mem_cons.mp h
      rw [put, if_neg (by simp [hentry]), ih hrest, List.cons_append]

theorem find?_insert_of_not_same (map : PathMap α) {key path : Path} (value : α)
    (h : key.same path = false) : (map.insert key value).find? path = map.find? path := by
  obtain ⟨entries⟩ := map
  simp only [insert, find?]
  induction entries with
  | nil => simp [put, h]
  | cons entry rest ih =>
      by_cases hkey : entry.1.same key = true
      · have hentry : entry.1.same path = false := by
          rw [← h, Path.same, Path.same, Path.same_iff.mp hkey]
        simp [put, hkey, hentry]
      · rw [put, if_neg hkey, List.find?_cons, List.find?_cons]
        split
        · rfl
        · exact ih

theorem find?_foldl_insert_of_not_same {β : Type} (value : α → β) (map : PathMap β) {path : Path}
    {entries : List (Path × α)} (h : ∀ entry ∈ entries, entry.1.same path = false) :
    (entries.foldl (fun map entry => map.insert entry.1 (value entry.2)) map).find? path =
      map.find? path := by
  induction entries generalizing map with
  | nil => rfl
  | cons entry rest ih =>
      obtain ⟨hentry, hrest⟩ := List.forall_mem_cons.mp h
      rw [List.foldl_cons, ih _ hrest, find?_insert_of_not_same map _ hentry]

theorem Distinct.find?_foldl_insert {β : Type} (value : α → β) (map : PathMap β)
    {files : PathMap α} (h : files.Distinct) {entry : Path × α} (hentry : entry ∈ files.entries) :
    (files.entries.foldl (fun map entry => map.insert entry.1 (value entry.2)) map).find? entry.1 =
      some (value entry.2) := by
  obtain ⟨front, back, heq⟩ := List.append_of_mem hentry
  have hback : ∀ other ∈ back, other.1.same entry.1 = false := by
    intro other hother
    rw [Distinct, heq, List.pairwise_append, List.pairwise_cons] at h
    rw [Path.same_comm]
    exact h.2.1.1 other hother
  rw [heq, List.foldl_append, List.foldl_cons, find?_foldl_insert_of_not_same value _ hback,
    find?_insert_self]

theorem entries_foldl_insert (map : PathMap α) {entries : List (Path × α)}
    (h : (PathMap.mk (map.entries ++ entries)).Distinct) :
    entries.foldl (fun map entry => map.insert entry.1 entry.2) map =
      ⟨map.entries ++ entries⟩ := by
  induction entries generalizing map with
  | nil => simp
  | cons entry rest ih =>
      have hinsert : map.insert entry.1 entry.2 = ⟨map.entries ++ [entry]⟩ := by
        have hnew : ∀ old ∈ map.entries, old.1.same entry.1 = false := fun old hold =>
          (List.pairwise_append.mp h).2.2 old hold entry List.mem_cons_self
        rw [insert, put_of_not_same _ hnew]
      rw [List.foldl_cons, hinsert, ih]
      · simp
      · simpa using h

theorem Distinct.ofList_eq {entries : List (Path × α)} (h : (PathMap.mk entries).Distinct) :
    ofList entries = ⟨entries⟩ :=
  entries_foldl_insert {} h

end PathMap

end Lineage
