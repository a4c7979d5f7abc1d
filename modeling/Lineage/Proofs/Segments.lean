import Lineage.Location
import Lineage.Name
import Lineage.Text.Utf8

namespace Lineage.Name

/-- No character starts a segment. -/
def Plain (starts : Char → Bool) (cs : List Char) : Prop :=
  ∀ c ∈ cs, starts c = false

/-- The first character starts a segment, and no other does. -/
def Headed (starts : Char → Bool) (cs : List Char) : Prop :=
  ∃ c rest, cs = c :: rest ∧ starts c = true ∧ Plain starts rest

/-- Texts that make up a name: the first has no character that is its own upper case, and each
later one begins with such a character and has no other. -/
structure IsSegmentation (name : String) (segments : List String) : Prop where
  join_eq : String.join segments = name
  length_eq : segments.length = 1 + name.toList.countP Casing.isOwnUpper
  first : ∀ segment, segments.head? = some segment → Plain Casing.isOwnUpper segment.toList
  later : ∀ segment ∈ segments.tail, Headed Casing.isOwnUpper segment.toList

section Cut

variable {starts : Char → Bool} {c : Char} {cs first : List Char} {later : List (List Char)}

theorem cutBefore_cons_of_start (h : cutBefore starts cs = first :: later)
    (hc : starts c = true) : cutBefore starts (c :: cs) = [] :: (c :: first) :: later := by
  simp [cutBefore, h, hc]

theorem cutBefore_cons_of_plain (h : cutBefore starts cs = first :: later)
    (hc : starts c = false) : cutBefore starts (c :: cs) = (c :: first) :: later := by
  simp [cutBefore, h, hc]

theorem cutBefore_append_of_plain {front : List Char} (hfront : Plain starts front)
    (h : cutBefore starts cs = first :: later) :
    cutBefore starts (front ++ cs) = (front ++ first) :: later := by
  induction front with
  | nil => exact h
  | cons c front ih =>
      obtain ⟨hc, hrest⟩ := List.forall_mem_cons.mp hfront
      exact cutBefore_cons_of_plain (ih hrest) hc

theorem cutBefore_flatten (hlater : ∀ segment ∈ later, Headed starts segment) :
    cutBefore starts later.flatten = [] :: later := by
  induction later with
  | nil => rfl
  | cons segment later ih =>
      obtain ⟨hsegment, hrest⟩ := List.forall_mem_cons.mp hlater
      obtain ⟨c, plain, rfl, hc, hplain⟩ := hsegment
      have hcut := cutBefore_append_of_plain hplain (ih hrest)
      rw [List.append_nil] at hcut
      exact cutBefore_cons_of_start hcut hc

theorem exists_cutBefore_eq (starts : Char → Bool) (cs : List Char) :
    ∃ first later, cutBefore starts cs = first :: later ∧ Plain starts first ∧
      (∀ segment ∈ later, Headed starts segment) ∧ later.length = cs.countP starts := by
  induction cs with
  | nil => exact ⟨[], [], rfl, by simp [Plain], by simp, rfl⟩
  | cons c cs ih =>
      obtain ⟨first, later, hcut, hfirst, hlater, hlength⟩ := ih
      cases hc : starts c with
      | true =>
          refine ⟨[], (c :: first) :: later, cutBefore_cons_of_start hcut hc, by simp [Plain], ?_,
            by simp [hlength, hc]⟩
          exact List.forall_mem_cons.mpr ⟨⟨c, first, rfl, hc, hfirst⟩, hlater⟩
      | false =>
          exact ⟨c :: first, later, cutBefore_cons_of_plain hcut hc,
            List.forall_mem_cons.mpr ⟨hc, hfirst⟩, hlater, by simp [hlength, hc]⟩

end Cut

theorem isSegmentation_segments (name : String) : IsSegmentation name (segments name) := by
  obtain ⟨first, later, hcut, hfirst, hlater, hlength⟩ :=
    exists_cutBefore_eq Casing.isOwnUpper name.toList
  have hsegments : segments name = String.ofList first :: later.map String.ofList := by
    rw [segments, hcut, List.map_cons]
  constructor
  · apply String.toList_injective
    rw [String.toList_join, segments, List.flatMap_map]
    simpa using flatten_cutBefore Casing.isOwnUpper name.toList
  · rw [hsegments, List.length_cons, List.length_map, hlength, Nat.add_comm]
  · rw [hsegments]
    rintro _ ⟨⟩
    rwa [String.toList_ofList]
  · rw [hsegments, List.tail_cons, List.forall_mem_map]
    intro segment hsegment
    rw [String.toList_ofList]
    exact hlater segment hsegment

theorem IsSegmentation.eq_segments {name : String} {texts : List String}
    (h : IsSegmentation name texts) : texts = segments name := by
  obtain ⟨rfl, hlength, hfirst, hlater⟩ := h
  cases texts with
  | nil => simp at hlength
  | cons first later =>
      rw [List.tail_cons] at hlater
      have hcut := cutBefore_append_of_plain (hfirst first rfl)
        (cutBefore_flatten (List.forall_mem_map.mpr hlater))
      rw [List.append_nil] at hcut
      rw [segments, String.toList_join, List.flatMap_cons, List.flatMap_def, hcut]
      simp

/-- The text of the bytes from `start` to before `stop`, if the name has them and they form one. -/
def sliceText? (name : String) (start stop : Nat) : Option String :=
  (slice? name.toUTF8 start stop).bind Utf8.text?

/-- Goes over the characters of a name from `offset` on and slices off what lies between `start`
and a character that is its own upper case; the last segment goes up to the end. -/
def slicesFrom (name : String) : (start offset : Nat) → List Char → Option (List String)
  | start, _, [] => do
    let segment ← sliceText? name start name.utf8ByteSize
    return [segment]
  | start, offset, c :: rest =>
    if Casing.isOwnUpper c then do
      let segment ← sliceText? name start offset
      let segments ← slicesFrom name offset (offset + c.utf8Size) rest
      return segment :: segments
    else slicesFrom name start (offset + c.utf8Size) rest

def slices (name : String) : Option (List String) :=
  slicesFrom name 0 0 name.toList

theorem sliceText?_append (front segment back : String) :
    sliceText? (front ++ segment ++ back) front.utf8ByteSize (front ++ segment).utf8ByteSize =
      some segment := by
  have hslice : slice? (front ++ segment ++ back).toUTF8 front.utf8ByteSize
      (front ++ segment).utf8ByteSize = some segment.toUTF8 := by
    rw [slice?, if_pos]
    · rw [String.toUTF8_eq_toByteArray, String.toByteArray_append, ← String.size_toByteArray,
        ← String.size_toByteArray, ByteArray.extract_append_size_left, String.toByteArray_append,
        ByteArray.extract_append_eq_right rfl ByteArray.size_append]
      rfl
    · rw [String.toUTF8_eq_toByteArray, String.size_toByteArray]
      simp only [String.utf8ByteSize_append]
      omega
  rw [sliceText?, hslice, Option.bind_some, Utf8.text?, String.fromUTF8?]
  exact dif_pos segment.isValidUTF8

theorem slicesFrom_eq {name : String} (front current : String) {rest first : List Char}
    {later : List (List Char)} (hname : name = front ++ current ++ String.ofList rest)
    (h : cutBefore Casing.isOwnUpper rest = first :: later) :
    slicesFrom name front.utf8ByteSize (front ++ current).utf8ByteSize rest =
      some ((current ++ String.ofList first) :: later.map String.ofList) := by
  -- The pass stands before `rest`, and the segment that is open began with `current`.
  induction rest generalizing front current first later with
  | nil =>
      obtain ⟨rfl, rfl⟩ := List.cons.inj h
      rw [String.ofList_nil, String.append_empty] at hname ⊢
      subst hname
      have hslice := sliceText?_append front current ""
      rw [String.append_empty] at hslice
      rw [slicesFrom, hslice]
      rfl
  | cons c rest ih =>
      obtain ⟨next, others, hcut⟩ := List.exists_cons_of_ne_nil
        (cutBefore_ne_nil Casing.isOwnUpper rest)
      have hoffset : (front ++ current).utf8ByteSize + c.utf8Size =
          (front ++ current ++ String.singleton c).utf8ByteSize := by
        rw [← String.utf8ByteSize_singleton, ← String.utf8ByteSize_append]
      rw [String.ofList_cons] at hname
      rw [slicesFrom, hoffset]
      cases hc : Casing.isOwnUpper c with
      | true =>
          rw [cutBefore_cons_of_start hcut hc] at h
          obtain ⟨rfl, rfl⟩ := List.cons.inj h
          have hslice : sliceText? name front.utf8ByteSize (front ++ current).utf8ByteSize =
              some current := hname ▸ sliceText?_append front current _
          rw [← String.append_assoc] at hname
          rw [if_pos rfl, hslice, ih (front ++ current) (String.singleton c) hname hcut]
          simp
      | false =>
          rw [cutBefore_cons_of_plain hcut hc] at h
          obtain ⟨rfl, rfl⟩ := List.cons.inj h
          rw [← String.append_assoc, @String.append_assoc front] at hname
          rw [if_neg Bool.false_ne_true, String.append_assoc,
            ih front (current ++ String.singleton c) hname hcut, String.ofList_cons,
            String.append_assoc]

theorem slices_eq_some (name : String) : slices name = some (segments name) := by
  obtain ⟨first, later, hcut⟩ := List.exists_cons_of_ne_nil
    (cutBefore_ne_nil Casing.isOwnUpper name.toList)
  have hname : name = "" ++ "" ++ String.ofList name.toList := by simp
  have hslices := slicesFrom_eq "" "" hname hcut
  rw [String.empty_append] at hslices
  rw [segments, hcut]
  exact hslices

/-- A name has one segmentation, and both the cut and the pass over its offsets find it. -/
theorem segments_are_the_only_split (name : String) :
    (∀ texts, IsSegmentation name texts ↔ texts = segments name) ∧
      slices name = some (segments name) := by
  refine ⟨fun texts => ⟨IsSegmentation.eq_segments, ?_⟩, slices_eq_some name⟩
  rintro rfl
  exact isSegmentation_segments name

example : segments "éCoLe_7" = ["é", "Co", "Le", "_", "7"] := by decide +kernel

end Lineage.Name
