import Mathlib.Data.List.Basic
import Lineage.Disk
import Lineage.Proofs.Paths

namespace Lineage

namespace Path

variable {path base : Path} {name : String} {names : List String}

/-- A name that an entry of a directory can have. -/
structure IsEntryName (name : String) : Prop where
  ordinary : IsOrdinary name.toList
  no_slash : '/' ∉ name.toList
  no_nul : '\x00' ∉ name.toList
  short : name.utf8ByteSize ≤ Disk.longestName

instance (name : String) : Decidable (IsEntryName name) :=
  decidable_of_iff (IsOrdinary name.toList ∧ '/' ∉ name.toList ∧ '\x00' ∉ name.toList ∧
      name.utf8ByteSize ≤ Disk.longestName)
    ⟨fun h => ⟨h.1, h.2.1, h.2.2.1, h.2.2.2⟩, fun h => ⟨h.1, h.2, h.3, h.4⟩⟩

/-- The segments of a path without the empty one after a slash at its end. -/
def stem (path : Path) : List (List Char) :=
  if path.text.isEmpty ∨ path.text.toList.getLast? = some '/' then path.segments.dropLast
  else path.segments

/-- The path that leads along some names. -/
def ofNames (names : List String) : Path :=
  ⟨"/".intercalate names⟩

theorem exists_text_join (base : Path) (name : String) :
    ∃ slash : List Char, (∀ c ∈ slash, c = '/') ∧
      (base.join name).text.toList = base.text.toList ++ slash ++ name.toList := by
  unfold join
  split
  · exact ⟨[], by simp⟩
  · exact ⟨['/'], by simp⟩

theorem exists_text_foldl_join (base : Path) (names : List String) :
    ∃ suffix : List Char, (∀ c ∈ suffix, c = '/' ∨ ∃ name ∈ names, c ∈ name.toList) ∧
      (names.foldl join base).text.toList = base.text.toList ++ suffix := by
  induction names generalizing base with
  | nil => exact ⟨[], by simp⟩
  | cons name names ih =>
      obtain ⟨slash, hslash, hjoin⟩ := exists_text_join base name
      obtain ⟨suffix, hsuffix, hrest⟩ := ih (base.join name)
      refine ⟨slash ++ name.toList ++ suffix, ?_, ?_⟩
      · intro c hc
        rw [List.mem_append, List.mem_append] at hc
        rcases hc with (hc | hc) | hc
        · exact .inl (hslash c hc)
        · exact .inr ⟨name, List.mem_cons_self, hc⟩
        · exact (hsuffix c hc).imp_right fun ⟨other, hother, hmem⟩ =>
            ⟨other, List.mem_cons_of_mem _ hother, hmem⟩
      · rw [List.foldl_cons, hrest, hjoin]
        simp only [List.append_assoc]

theorem segments_join (base : Path) (hname : '/' ∉ name.toList) :
    (base.join name).segments = base.stem ++ [name.toList] := by
  have hsingle := List.splitOn_eq_singleton hname
  rw [join, stem]
  by_cases hslash : base.text.isEmpty ∨ base.text.toList.getLast? = some '/'
  · rw [if_pos hslash, if_pos hslash]
    rcases hslash with hempty | hlast
    · rw [String.isEmpty_iff] at hempty
      simp [segments, hempty, hsingle]
    · obtain ⟨front, hfront⟩ := List.getLast?_eq_some_iff.mp hlast
      simp [segments, hfront, hsingle, List.splitOn_append_cons_self]
  · rw [if_neg hslash, if_neg hslash]
    simp [segments, hsingle, List.splitOn_append_cons_self]

theorem stem_join (base : Path) (hname : IsEntryName name) :
    (base.join name).stem = base.stem ++ [name.toList] := by
  obtain ⟨slash, -, htext⟩ := exists_text_join base name
  rw [← segments_join base hname.no_slash, stem, if_neg]
  rw [String.isEmpty_iff, ← String.toList_eq_nil_iff, htext,
    List.getLast?_append_of_ne_nil _ hname.ordinary.1]
  rintro (hempty | hlast)
  · exact hname.ordinary.1 (List.append_eq_nil_iff.mp hempty).2
  · exact hname.no_slash (List.mem_of_getLast? hlast)

theorem stem_foldl_join (base : Path) (hnames : ∀ name ∈ names, IsEntryName name) :
    (names.foldl join base).stem = base.stem ++ names.map String.toList := by
  induction names generalizing base with
  | nil => simp
  | cons name names ih =>
      obtain ⟨hname, hnames⟩ := List.forall_mem_cons.mp hnames
      rw [List.foldl_cons, ih _ hnames, stem_join base hname]
      simp

theorem segments_foldl_join (base : Path) (hne : names ≠ [])
    (hnames : ∀ name ∈ names, IsEntryName name) :
    (names.foldl join base).segments = base.stem ++ names.map String.toList := by
  obtain ⟨front, last, rfl⟩ := List.eq_nil_or_concat names |>.resolve_left hne
  rw [List.concat_eq_append] at hnames ⊢
  obtain ⟨hfront, hlast⟩ := List.forall_mem_append.mp hnames
  rw [List.foldl_append, List.foldl_cons, List.foldl_nil,
    segments_join _ (hlast last (by simp)).no_slash, stem_foldl_join base hfront]
  simp

theorem segments_ne_of_text_ne_empty (htext : path.text ≠ "") : path.segments ≠ [[]] := by
  intro h
  have htoList := path.text_toList_eq
  rw [h] at htoList
  exact htext (String.toList_eq_nil_iff.mp (by simpa using htoList))

theorem segments_eq_stem (htext : path.text ≠ "") :
    path.segments = path.stem ∨ path.segments = path.stem ++ [[]] := by
  rw [stem]
  split
  · next hslash =>
      have hlast : path.text.toList.getLast? = some '/' :=
        hslash.resolve_left (by simpa using htext)
      obtain ⟨front, hfront⟩ := List.getLast?_eq_some_iff.mp hlast
      refine .inr ?_
      rw [segments, hfront, List.splitOn_append_cons_self]
      simp
  · exact .inl rfl

theorem innerComponent_eq_none_iff {segment : List Char} :
    innerComponent segment = none ↔ segment = [] ∨ segment = ['.'] := by
  unfold innerComponent
  split <;> simp_all

/-- What the first segment contributes to a path that has a text. -/
def firstComponent (segment : List Char) : Component :=
  (innerComponent segment).getD (if segment = [] then .root else .here)

theorem components_eq_cons (htext : path.text ≠ "") {first : List Char} {rest : List (List Char)}
    (h : path.segments = first :: rest) :
    path.components = firstComponent first :: rest.filterMap innerComponent := by
  rw [components, h]
  split
  · next heq => exact absurd heq (List.cons_ne_nil first rest)
  · next heq => exact absurd (h.trans heq) (segments_ne_of_text_ne_empty htext)
  · next heq => cases heq; rfl
  · next heq => cases heq; rfl
  · next hempty hhere =>
      cases hcomponent : innerComponent first with
      | none =>
          rcases innerComponent_eq_none_iff.mp hcomponent with rfl | rfl
          · exact absurd rfl (hempty rest)
          · exact absurd rfl (hhere rest)
      | some component =>
          rw [List.filterMap_cons_some hcomponent, firstComponent, hcomponent, Option.getD_some]

theorem exists_stem_eq_cons (htext : path.text ≠ "") :
    ∃ first rest, path.stem = first :: rest ∧
      path.components = firstComponent first :: rest.filterMap innerComponent := by
  rcases segments_eq_stem htext with hsegments | hsegments
  · obtain ⟨first, rest, hcons⟩ :=
      List.exists_cons_of_ne_nil (List.splitOn_ne_nil '/' path.text.toList)
    exact ⟨first, rest, hsegments.symm.trans hcons, components_eq_cons htext hcons⟩
  · have hne : path.stem ≠ [] := by
      intro hnil
      rw [hnil, List.nil_append] at hsegments
      exact segments_ne_of_text_ne_empty htext hsegments
    obtain ⟨first, rest, hstem⟩ := List.exists_cons_of_ne_nil hne
    rw [hstem, List.cons_append] at hsegments
    refine ⟨first, rest, hstem, ?_⟩
    rw [components_eq_cons htext hsegments, List.filterMap_append]
    simp [innerComponent]

theorem foldl_join_text_ne_empty (htext : base.text ≠ "") (names : List String) :
    (names.foldl join base).text ≠ "" := by
  obtain ⟨suffix, -, hjoin⟩ := exists_text_foldl_join base names
  rw [Ne, ← String.toList_eq_nil_iff, hjoin, List.append_eq_nil_iff, String.toList_eq_nil_iff]
  exact fun h => htext h.1

theorem filterMap_innerComponent_names (hnames : ∀ name ∈ names, IsEntryName name) :
    (names.map String.toList).filterMap innerComponent =
      names.map fun name => .name name.toList := by
  rw [List.filterMap_map, ← List.filterMap_eq_map]
  exact List.filterMap_congr fun name hname =>
    innerComponent_of_isOrdinary (hnames name hname).ordinary

theorem components_foldl_join (htext : base.text ≠ "")
    (hnames : ∀ name ∈ names, IsEntryName name) :
    (names.foldl join base).components =
      base.components ++ names.map fun name => .name name.toList := by
  rcases eq_or_ne names [] with rfl | hne
  · simp
  · obtain ⟨first, rest, hstem, hcomponents⟩ := exists_stem_eq_cons htext
    have hsegments := segments_foldl_join base hne hnames
    rw [hstem, List.cons_append] at hsegments
    rw [components_eq_cons (foldl_join_text_ne_empty htext names) hsegments, List.filterMap_append,
      filterMap_innerComponent_names hnames, hcomponents, List.cons_append]

theorem dropComponents_cons_of_none {segment : List Char} (h : innerComponent segment = none)
    (count : Nat) (segments : List (List Char)) :
    dropComponents count (segment :: segments) = dropComponents count segments := by
  cases count <;> simp [dropComponents, h]

theorem dropComponents_cons_of_some {segment : List Char} {component : Component}
    (h : innerComponent segment = some component) (count : Nat) (segments : List (List Char)) :
    dropComponents (count + 1) (segment :: segments) = dropComponents count segments := by
  simp [dropComponents, h]

theorem dropComponents_zero_of_isOrdinary {segment : List Char} (h : IsOrdinary segment)
    (segments : List (List Char)) :
    dropComponents 0 (segment :: segments) = segment :: segments := by
  simp [dropComponents, innerComponent_of_isOrdinary h]

theorem dropComponents_append (segments : List (List Char)) {next : List Char}
    (hnext : IsOrdinary next) (rest : List (List Char)) :
    dropComponents (segments.filterMap innerComponent).length (segments ++ next :: rest) =
      next :: rest := by
  induction segments with
  | nil => exact dropComponents_zero_of_isOrdinary hnext rest
  | cons segment segments ih =>
      cases h : innerComponent segment with
      | none =>
          rw [List.filterMap_cons_none h, List.cons_append, dropComponents_cons_of_none h, ih]
      | some component =>
          rw [List.filterMap_cons_some h, List.cons_append, List.length_cons,
            dropComponents_cons_of_some h, ih]

theorem dropIgnored_reverse_names (hnames : ∀ name ∈ names, IsEntryName name) :
    dropIgnored (names.map String.toList).reverse = (names.map String.toList).reverse := by
  rcases List.eq_nil_or_concat names with rfl | ⟨front, last, rfl⟩
  · rfl
  · rw [List.concat_eq_append, List.map_append, List.reverse_append]
    exact dropIgnored_of_isOrdinary (hnames last (by simp)).ordinary _

theorem ofList_intercalate_names (names : List String) :
    String.ofList (List.intercalate ['/'] (names.map String.toList)) = "/".intercalate names := by
  rw [← String.toList_inj, String.toList_ofList, String.toList_intercalate]
  rfl

/-- The path from a directory to what names lead to from there depends on the names only. -/
theorem below?_foldl_join (htext : base.text ≠ "") (hne : names ≠ [])
    (hnames : ∀ name ∈ names, IsEntryName name) :
    (names.foldl join base).below? base = some (ofNames names) := by
  obtain ⟨first, rest, hstem, hcomponents⟩ := exists_stem_eq_cons htext
  have hsegments := segments_foldl_join base hne hnames
  have hprefix : base.components.isPrefixOf (names.foldl join base).components = true := by
    rw [components_foldl_join htext hnames, List.isPrefixOf_iff_prefix]
    exact List.prefix_append _ _
  obtain ⟨name, others, rfl⟩ := List.exists_cons_of_ne_nil hne
  have hdrop := dropComponents_append rest (hnames name (by simp)).ordinary
    (others.map String.toList)
  rw [← List.map_cons] at hdrop
  rw [below?, if_pos hprefix, hcomponents, List.length_cons]
  simp only
  rw [hsegments, hstem, List.cons_append, List.tail_cons, hdrop, dropIgnored_reverse_names hnames,
    List.reverse_reverse, ofList_intercalate_names, ofNames]

theorem segments_ofNames (hne : names ≠ []) (hnames : ∀ name ∈ names, IsEntryName name) :
    (ofNames names).segments = names.map String.toList := by
  rw [segments, ofNames, ← ofList_intercalate_names, String.toList_ofList]
  refine List.splitOn_intercalate _ ?_ (by simpa using hne)
  rintro segment hsegment
  obtain ⟨name, hname, rfl⟩ := List.mem_map.mp hsegment
  exact (hnames name hname).no_slash

theorem normal_ofNames (hne : names ≠ []) (hnames : ∀ name ∈ names, IsEntryName name) :
    (ofNames names).Normal := by
  intro segment hsegment
  rw [segments_ofNames hne hnames] at hsegment
  obtain ⟨name, hname, rfl⟩ := List.mem_map.mp hsegment
  exact (hnames name hname).ordinary

theorem components_ofNames (hne : names ≠ []) (hnames : ∀ name ∈ names, IsEntryName name) :
    (ofNames names).components = names.map fun name => .name name.toList := by
  rw [(normal_ofNames hne hnames).components_eq, segments_ofNames hne hnames, List.map_map]
  rfl

/-- A name ends in a dot and an extension, and something stands before the dot. -/
def EndsIn (name extension : String) : Prop :=
  ∃ front : String, front ≠ "" ∧ '.' ∉ extension.toList ∧ name = front ++ "." ++ extension

/-- The last of some names has one of the extensions. -/
def IsSource (extensions names : List String) : Prop :=
  ∃ name ∈ names.getLast?, ∃ extension ∈ extensions, EndsIn name extension

theorem extension?_of_not_mem (hname : path.fileName? = some name) (h : '.' ∉ name.toList) :
    path.extension? = none := by
  simp [extension?, hname, List.splitOn_eq_singleton h]

theorem extension?_of_append (hname : path.fileName? = some name) {front last : List Char}
    (h : name.toList = front ++ '.' :: last) (hlast : '.' ∉ last) :
    path.extension? = if front = [] then none else some (String.ofList last) := by
  have hsplit : (name.toList.splitOn '.').reverse = last :: (front.splitOn '.').reverse := by
    rw [h, List.splitOn_append_cons_self, List.splitOn_eq_singleton hlast]
    simp
  rw [extension?, hname]
  simp only [hsplit]
  split
  · next heq => exact absurd heq (List.cons_ne_nil _ _)
  · next heq => simp [List.splitOn_ne_nil] at heq
  · next heq =>
      have hfront : ['.'].intercalate (front.splitOn '.') = front := List.intercalate_splitOn '.'
      rw [List.reverse_eq_iff.mp (List.cons.inj heq).2] at hfront
      rw [if_pos (by simpa using hfront.symm)]
  · next hlone heq =>
      have hfront : front ≠ [] := by
        rintro rfl
        exact hlone (by simpa using (List.cons.inj heq).2.symm)
      rw [if_neg hfront, (List.cons.inj heq).1]

theorem extension?_eq_some_iff (hname : path.fileName? = some name) {extension : String} :
    path.extension? = some extension ↔ EndsIn name extension := by
  constructor
  · intro h
    have hdot : '.' ∈ name.toList.reverse := by
      by_contra hdot
      rw [extension?_of_not_mem hname (by simpa using hdot)] at h
      cases h
    obtain ⟨last, front, hreverse, hlast⟩ := List.eq_append_cons_of_mem hdot
    have hsplit : name.toList = front.reverse ++ '.' :: last.reverse := by
      rw [← List.reverse_reverse name.toList, hreverse]
      simp
    rw [extension?_of_append hname hsplit (by simpa using hlast), Option.ite_none_left_eq_some] at h
    obtain ⟨hfront, hextension⟩ := h
    cases hextension
    refine ⟨String.ofList front.reverse, by simpa using hfront, by simpa using hlast, ?_⟩
    rw [← String.toList_inj, hsplit]
    simp
  · rintro ⟨front, hfront, hdot, rfl⟩
    have hsplit : (front ++ "." ++ extension).toList = front.toList ++ '.' :: extension.toList := by
      simp
    rw [extension?_of_append hname hsplit hdot, if_neg (by simpa using hfront),
      String.ofList_toList]

theorem fileName?_foldl_join (base : Path) (hnames : ∀ name ∈ names, IsEntryName name)
    (hlast : names.getLast? = some name) :
    (names.foldl join base).fileName? = some name := by
  obtain ⟨front, rfl⟩ := List.getLast?_eq_some_iff.mp hlast
  have hsegments := segments_foldl_join base (by simp) hnames
  rw [List.map_append, ← List.append_assoc] at hsegments
  rw [fileName?_of_isOrdinary hsegments (hnames name (by simp)).ordinary, String.ofList_toList]

theorem hasExtension_foldl_join (base : Path) (hne : names ≠ [])
    (hnames : ∀ name ∈ names, IsEntryName name) (extensions : List String) :
    Disk.hasExtension extensions (names.foldl join base) = true ↔ IsSource extensions names := by
  obtain ⟨last, hlast⟩ := Option.isSome_iff_exists.mp (List.getLast?_isSome.mpr hne)
  have hname := fileName?_foldl_join base hnames hlast
  constructor
  · intro h
    obtain ⟨extension, hextension, hmem⟩ := (Option.any_eq_true _ _).mp h
    exact ⟨last, hlast, extension, of_decide_eq_true hmem,
      (extension?_eq_some_iff hname).mp hextension⟩
  · rintro ⟨name, hmem, extension, hextension, hends⟩
    cases hlast.symm.trans hmem
    rw [Disk.hasExtension, (extension?_eq_some_iff hname).mpr hends]
    simpa using hextension

end Path

end Lineage
