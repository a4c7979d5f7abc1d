import Mathlib.Data.List.Sort
import Mathlib.Data.String.Basic
import Lineage.Proofs.DirectoryTrees

namespace Lineage

namespace Disk

variable {disk : Disk} {root : Path} {extensions names : List String} {tree item : Item}
  {entries : List (String × Item)} {files : List (List String × ByteArray)}

/-- What has to be opened on a walk: every directory, and the files with one of the extensions. -/
def Opened (extensions names : List String) : Item → Prop
  | .directory _ => True
  | .file _ => Path.IsSource extensions names

/-- All that has to be opened on a walk from `root` is in reach. -/
def Reaches (root : Path) (extensions : List String) (tree : Item) : Prop :=
  ∀ names item, tree.at? names = some item → Opened extensions names item → InReach root names

/-- The first item on a walk that has to be opened and is out of reach. -/
structure FirstBeyond (root : Path) (extensions : List String) (tree : Item)
    (visited : List String × Item) : Prop where
  found : tree.at? visited.1 = some visited.2
  opened : Opened extensions visited.1 visited.2
  beyond : ¬ InReach root visited.1
  first : ∀ names item, names < visited.1 → tree.at? names = some item →
    Opened extensions names item → InReach root names

/-- The failure to open an item that is out of reach. -/
def failure (root : Path) (visited : List String × Item) : Error :=
  match visited.2 with
  | .directory _ => .walk (visited.1.foldl Path.join root) .nameTooLong
  | .file _ => .access .nameTooLong

/-- The source files of a tree with the names that lead to them. Names are compared from the top
down, so the order is depth first, with the entries of each directory in order of their names. -/
structure Lists (tree : Item) (extensions : List String) (files : List (List String × ByteArray)) :
    Prop where
  mem_iff : ∀ names bytes, (names, bytes) ∈ files ↔
    tree.at? names = some (.file bytes) ∧ Path.IsSource extensions names
  ordered : files.Pairwise fun left right => left.1 < right.1

/-- Files under the paths that their names make up. -/
def keyed (files : List (List String × ByteArray)) : PathMap ByteArray :=
  ⟨files.map fun file => (Path.ofNames file.1, file.2)⟩

namespace Lists

theorem unique {other : Item} {files' : List (List String × ByteArray)}
    (h : Lists tree extensions files) (h' : Lists other extensions files')
    (hsame : tree.SameFiles other) : files = files' := by
  have hirrefl : Std.Irrefl fun left right : List String × ByteArray => left.1 < right.1 :=
    ⟨fun file => lt_irrefl file.1⟩
  have hantisymm : Std.Antisymm fun left right : List String × ByteArray => left.1 < right.1 :=
    ⟨fun _ _ hlt hgt => absurd hgt (lt_asymm hlt)⟩
  refine h.ordered.eq_of_mem_iff h'.ordered ?_
  rintro ⟨names, bytes⟩
  rw [h.mem_iff, h'.mem_iff, hsame names bytes]

theorem names_of_mem (h : Lists (.directory entries) extensions files)
    (hsound : (Item.directory entries).Sound) {file : List String × ByteArray}
    (hfile : file ∈ files) : file.1 ≠ [] ∧ ∀ name ∈ file.1, Path.IsEntryName name := by
  have hat := ((h.mem_iff file.1 file.2).mp hfile).1
  exact ⟨Item.names_ne_nil_of_file hat, (hsound.at? hat).2⟩

theorem components_key (h : Lists (.directory entries) extensions files)
    (hsound : (Item.directory entries).Sound) {file : List String × ByteArray}
    (hfile : file ∈ files) :
    (Path.ofNames file.1).components = file.1.map fun name => .name name.toList := by
  obtain ⟨hne, hnames⟩ := h.names_of_mem hsound hfile
  exact Path.components_ofNames hne hnames

theorem distinct_keyed (h : Lists (.directory entries) extensions files)
    (hsound : (Item.directory entries).Sound) : (keyed files).Distinct := by
  rw [PathMap.Distinct, keyed, List.pairwise_map]
  refine h.ordered.imp_of_mem ?_
  intro left right hleft hright hlt
  rw [Bool.eq_false_iff, Ne, Path.same_iff, h.components_key hsound hleft,
    h.components_key hsound hright]
  have hinj : Function.Injective fun name : String => Path.Component.name name.toList :=
    fun _ _ heq => String.toList_inj.mp (Path.Component.name.inj heq)
  exact fun heq => hlt.ne (List.map_injective_iff.mpr hinj heq)

end Lists

/-- The file that is kept when an item is visited. -/
def source? (root : Path) (extensions : List String) (visited : List String × Item) :
    Option (List String × ByteArray) :=
  match visited.2 with
  | .directory _ => none
  | .file bytes =>
    if hasExtension extensions (visited.1.foldl Path.join root) then some (visited.1, bytes)
    else none

theorem source?_eq_some_iff {visited : List String × Item} {file : List String × ByteArray} :
    source? root extensions visited = some file ↔ file.1 = visited.1 ∧
      visited.2 = .file file.2 ∧
      hasExtension extensions (visited.1.foldl Path.join root) = true := by
  obtain ⟨names, item⟩ := visited
  obtain ⟨names', bytes⟩ := file
  cases item with
  | directory => simp [source?]
  | file found =>
      rw [source?, Option.ite_none_right_eq_some]
      simp only [Option.some.injEq, Prod.mk.injEq, Item.file.injEq]
      tauto

/-- The files after an item was visited. -/
def keep (root : Path) (extensions : List String) (files : PathMap ByteArray)
    (visited : List String × Item) : PathMap ByteArray :=
  match source? root extensions visited with
  | some source => files.insert (Path.ofNames source.1) source.2
  | none => files

theorem hasExtension_iff_isSource (hsound : (Item.directory entries).Sound) {bytes : ByteArray}
    (hat : (Item.directory entries).at? names = some (.file bytes)) (root : Path)
    (extensions : List String) :
    hasExtension extensions (names.foldl Path.join root) = true ↔
      Path.IsSource extensions names :=
  Path.hasExtension_foldl_join root (Item.names_ne_nil_of_file hat) (hsound.at? hat).2 extensions

theorem visit_eq_ok (hsound : (Item.directory entries).Sound)
    (hroot : disk.find root = .ok (.directory entries))
    (hat : (Item.directory entries).at? names = some item)
    (hreach : Opened extensions names item → InReach root names) (files : PathMap ByteArray) :
    disk.visit root extensions files (names, item) =
      .ok (keep root extensions files (names, item)) := by
  have hnames := (hsound.at? hat).2
  have hfind := find_foldl_join hroot hnames hat
  cases item with
  | directory inner =>
      rw [if_pos (hreach trivial)] at hfind
      simp only [visit, keep, source?, hfind]
  | file bytes =>
      have hsource := hasExtension_iff_isSource hsound hat root extensions
      by_cases hextension : hasExtension extensions (names.foldl Path.join root) = true
      · rw [if_pos (hreach (hsource.mp hextension))] at hfind
        have hread : disk.read (names.foldl Path.join root) = .ok bytes := by
          rw [read, hfind]
          rfl
        have hbelow := Path.below?_foldl_join (find_eq_ok_iff.mp hroot).2.1
          (Item.names_ne_nil_of_file hat) hnames
        simp only [visit, keep, source?, hextension, if_true, hread, hbelow, Option.getD_some]
      · simp only [visit, keep, source?, hextension, if_false, Bool.false_eq_true]

theorem visit_eq_error (hsound : (Item.directory entries).Sound)
    (hroot : disk.find root = .ok (.directory entries))
    (hat : (Item.directory entries).at? names = some item)
    (hopened : Opened extensions names item) (hbeyond : ¬ InReach root names)
    (files : PathMap ByteArray) :
    disk.visit root extensions files (names, item) = .error (failure root (names, item)) := by
  have hfind := find_foldl_join hroot (hsound.at? hat).2 hat
  rw [if_neg hbeyond] at hfind
  cases item with
  | directory inner => simp only [visit, failure, hfind]
  | file bytes =>
      have hextension := (hasExtension_iff_isSource hsound hat root extensions).mpr hopened
      have hread : disk.read (names.foldl Path.join root) = .error .nameTooLong := by
        rw [read, hfind]
        rfl
      simp only [visit, failure, hextension, if_true, hread]

theorem foldlM_visit_eq_ok (hsound : (Item.directory entries).Sound)
    (hroot : disk.find root = .ok (.directory entries)) {walked : List (List String × Item)}
    (hwalked : ∀ visited ∈ walked, (Item.directory entries).at? visited.1 = some visited.2 ∧
      (Opened extensions visited.1 visited.2 → InReach root visited.1))
    (files : PathMap ByteArray) :
    walked.foldlM (disk.visit root extensions) files =
      .ok (walked.foldl (keep root extensions) files) := by
  induction walked generalizing files with
  | nil => rfl
  | cons visited walked ih =>
      obtain ⟨⟨hat, hreach⟩, hwalked⟩ := List.forall_mem_cons.mp hwalked
      rw [List.foldlM_cons, visit_eq_ok hsound hroot hat hreach]
      exact ih hwalked _

theorem foldl_keep (walked : List (List String × Item)) :
    walked.foldl (keep root extensions) {} =
      .ofList ((walked.filterMap (source? root extensions)).map fun file =>
        (Path.ofNames file.1, file.2)) := by
  rw [PathMap.ofList, List.foldl_map, List.foldl_filterMap]
  congr 1
  funext files visited
  rw [keep]
  cases source? root extensions visited <;> rfl

theorem lists_walk (hsound : (Item.directory entries).Sound) (root : Path)
    (extensions : List String) :
    Lists (.directory entries) extensions
      ((Item.directory entries).walk.filterMap (source? root extensions)) where
  mem_iff := by
    intro names bytes
    rw [List.mem_filterMap]
    constructor
    · rintro ⟨⟨visited, item⟩, hvisited, hsource⟩
      have hat := (Item.mem_walk_iff hsound).mp hvisited
      obtain ⟨rfl, rfl, hextension⟩ := source?_eq_some_iff.mp hsource
      exact ⟨hat, (hasExtension_iff_isSource hsound hat root extensions).mp hextension⟩
    · rintro ⟨hat, hsource⟩
      have hextension := (hasExtension_iff_isSource hsound hat root extensions).mpr hsource
      exact ⟨(names, .file bytes), (Item.mem_walk_iff hsound).mpr hat,
        source?_eq_some_iff.mpr ⟨rfl, rfl, hextension⟩⟩
  ordered := by
    rw [List.pairwise_filterMap]
    refine (Item.pairwise_walk hsound).imp ?_
    intro left right hlt file hfile file' hfile'
    rwa [(source?_eq_some_iff.mp hfile).1, (source?_eq_some_iff.mp hfile').1]

theorem load_eq_foldlM (hroot : disk.find root = .ok (.directory entries)) :
    disk.load root extensions =
      (Item.directory entries).walk.foldlM (disk.visit root extensions) {} := by
  rw [load, hroot]

theorem load_eq_ok (hsound : (Item.directory entries).Sound)
    (hroot : disk.find root = .ok (.directory entries))
    (hreaches : Reaches root extensions (.directory entries))
    (hfiles : Lists (.directory entries) extensions files) :
    disk.load root extensions = .ok (keyed files) := by
  have hlists := lists_walk hsound root extensions
  rw [load_eq_foldlM hroot, foldlM_visit_eq_ok hsound hroot, foldl_keep,
    (hlists.distinct_keyed hsound).ofList_eq, hfiles.unique hlists fun _ _ => Iff.rfl, keyed]
  intro visited hvisited
  have hat := (Item.mem_walk_iff hsound).mp hvisited
  exact ⟨hat, hreaches _ _ hat⟩

theorem load_eq_error (hsound : (Item.directory entries).Sound)
    (hroot : disk.find root = .ok (.directory entries)) {front back : List (List String × Item)}
    {visited : List String × Item}
    (hwalk : (Item.directory entries).walk = front ++ visited :: back)
    (hfront : ∀ before ∈ front, Opened extensions before.1 before.2 → InReach root before.1)
    (hopened : Opened extensions visited.1 visited.2) (hbeyond : ¬ InReach root visited.1) :
    disk.load root extensions = .error (failure root visited) := by
  have hat : ∀ other ∈ front ++ visited :: back,
      (Item.directory entries).at? other.1 = some other.2 := fun other hother =>
    (Item.mem_walk_iff hsound).mp (hwalk ▸ hother)
  have hwalked : front.foldlM (disk.visit root extensions) {} =
      .ok (front.foldl (keep root extensions) {}) :=
    foldlM_visit_eq_ok hsound hroot
      (fun before hbefore => ⟨hat before (by simp [hbefore]), hfront before hbefore⟩) {}
  rw [load_eq_foldlM hroot, hwalk, List.foldlM_append]
  exact bind_eq_error_iff.mpr (.inr ⟨_, hwalked, bind_eq_error_iff.mpr
    (.inl (visit_eq_error hsound hroot (hat visited (by simp)) hopened hbeyond _))⟩)

theorem exists_firstBeyond (hsound : (Item.directory entries).Sound)
    (hroot : disk.find root = .ok (.directory entries))
    (hreaches : ¬ Reaches root extensions (.directory entries)) :
    ∃ visited, FirstBeyond root extensions (.directory entries) visited ∧
      disk.load root extensions = .error (failure root visited) := by
  classical
  unfold Reaches at hreaches
  push Not at hreaches
  obtain ⟨names, item, hat, hopened, hbeyond⟩ := hreaches
  have hsome : ((Item.directory entries).walk.find? fun visited =>
      Opened extensions visited.1 visited.2 ∧ ¬ InReach root visited.1).isSome :=
    List.find?_isSome.mpr
      ⟨(names, item), (Item.mem_walk_iff hsound).mpr hat, by simpa using ⟨hopened, hbeyond⟩⟩
  obtain ⟨visited, hfind⟩ := Option.isSome_iff_exists.mp hsome
  obtain ⟨hvisited, front, back, hwalk, hfront⟩ := List.find?_eq_some_iff_append.mp hfind
  obtain ⟨hopened, hbeyond⟩ := of_decide_eq_true hvisited
  have hfront : ∀ before ∈ front, Opened extensions before.1 before.2 → InReach root before.1 := by
    simpa [imp_iff_not_or] using hfront
  refine ⟨visited, ⟨?_, hopened, hbeyond, ?_⟩,
    load_eq_error hsound hroot hwalk hfront hopened hbeyond⟩
  · exact (Item.mem_walk_iff hsound).mp (by simp [hwalk])
  · intro names item hlt hat hopened
    have hmem := (Item.mem_walk_iff hsound).mpr hat
    have hordered := Item.pairwise_walk hsound
    rw [hwalk, List.mem_append, List.mem_cons] at hmem
    rw [hwalk, List.pairwise_append, List.pairwise_cons] at hordered
    rcases hmem with hmem | rfl | hmem
    · exact hfront _ hmem hopened
    · exact absurd hlt (lt_irrefl _)
    · exact absurd hlt (lt_asymm (hordered.2.1.1 _ hmem))

/-- Loading a directory lists its source files, each once and with its bytes, under the paths that
their names below the directory make up, if all that has to be opened is in reach. Directories with
the same files then give the same result, wherever they are and however their paths are written.
Otherwise the first item out of reach is reported. -/
theorem sources_in_reach_are_loaded (disk : Disk) (root : Path) (extensions : List String)
    (entries : List (String × Item)) (hdisk : disk.root.Sound)
    (hroot : disk.find root = .ok (.directory entries)) :
    ∃ files, Lists (.directory entries) extensions files ∧ (keyed files).Distinct ∧
      (∀ file ∈ files,
        (Path.ofNames file.1).components = file.1.map fun name => .name name.toList) ∧
      (Reaches root extensions (.directory entries) →
        disk.load root extensions = .ok (keyed files) ∧
          ∀ (other : Disk) (root' : Path) (entries' : List (String × Item)), other.root.Sound →
            other.find root' = .ok (.directory entries') →
            (Item.directory entries).SameFiles (.directory entries') →
            Reaches root' extensions (.directory entries') →
            other.load root' extensions = disk.load root extensions) ∧
      (¬ Reaches root extensions (.directory entries) →
        ∃ visited, FirstBeyond root extensions (.directory entries) visited ∧
          disk.load root extensions = .error (failure root visited)) := by
  have hsound := sound_of_find hdisk hroot
  have hlists := lists_walk hsound root extensions
  refine ⟨_, hlists, hlists.distinct_keyed hsound, fun _ => hlists.components_key hsound, ?_,
    exists_firstBeyond hsound hroot⟩
  intro hreaches
  refine ⟨load_eq_ok hsound hroot hreaches hlists, ?_⟩
  intro other root' entries' hother hroot' hsame hreaches'
  have hsound' := sound_of_find hother hroot'
  have hlists' := lists_walk hsound' root' extensions
  rw [load_eq_ok hsound hroot hreaches hlists, load_eq_ok hsound' hroot' hreaches' hlists',
    hlists.unique hlists' hsame]

/-- Source files at two depths, names that only look like those of source files, and a directory
that is named like one. -/
def sampleEntries : List (String × Item) :=
  [("b.js", .file ⟨#[1]⟩), (".js", .file ⟨#[2]⟩), ("a.", .file ⟨#[3]⟩),
    ("a.js", .directory [("c.js", .file ⟨#[4, 5]⟩)])]

/-- The same directory at two places. -/
def sample : Disk where
  root := .directory [("d", .directory sampleEntries),
    ("e", .directory [("f", .directory sampleEntries)])]
  workingDirectory := ["e"]

theorem sound_sampleEntries : (Item.directory sampleEntries).Sound := by
  have hinner : (Item.directory [("c.js", .file ⟨#[4, 5]⟩)]).Sound :=
    .directory (by decide) (by decide) (by simp [Item.Sound.file])
  exact .directory (by decide) (by decide) (by simp [sampleEntries, Item.Sound.file, hinner])

theorem sound_sample : sample.root.Sound := by
  have houter : (Item.directory [("f", .directory sampleEntries)]).Sound :=
    .directory (by decide) (by decide) (by simp [sound_sampleEntries])
  exact .directory (by decide) (by decide) (by simp [sound_sampleEntries, houter])

theorem reaches_sample (h : ∀ names ∈ [[], ["b.js"], [".js"], ["a."], ["a.js"], ["a.js", "c.js"]],
      InReach root names) (extensions : List String) :
    Reaches root extensions (.directory sampleEntries) := by
  intro names item hat _
  have hmem := (Item.mem_walk_iff sound_sampleEntries).mpr hat
  simp only [sampleEntries, Item.walk_directory, Item.walk_file, Item.mem_sortByName,
    List.mem_cons, List.mem_flatMap, List.mem_map, List.not_mem_nil, Prod.exists, Prod.mk.injEq,
    or_false, true_and, exists_eq_left, exists_eq_or_imp, exists_eq_right_right,
    ↓existsAndEq] at hmem
  rcases hmem with ⟨rfl, -⟩ | ⟨-, rfl⟩ | ⟨-, rfl⟩ | ⟨-, rfl⟩ | ⟨_, ⟨rfl, -⟩ | ⟨-, rfl⟩, rfl⟩
  all_goals exact h _ (by simp)

theorem sample_is_loaded_alike :
    sample.root.Sound ∧ sample.find ⟨"/d/.//"⟩ = .ok (.directory sampleEntries) ∧
      sample.find ⟨"./f"⟩ = .ok (.directory sampleEntries) ∧
      ∃ files, Lists (.directory sampleEntries) ["js"] files ∧
        sample.load ⟨"/d/.//"⟩ ["js"] = .ok (keyed files) ∧
        sample.load ⟨"./f"⟩ ["js"] = .ok (keyed files) := by
  have hleft : sample.find ⟨"/d/.//"⟩ = .ok (.directory sampleEntries) := rfl
  have hright : sample.find ⟨"./f"⟩ = .ok (.directory sampleEntries) := rfl
  have hreach : ∀ root ∈ [Path.mk "/d/.//", Path.mk "./f"],
      Reaches root ["js"] (.directory sampleEntries) := by
    intro root hmem
    refine reaches_sample ?_ _
    revert root
    decide
  obtain ⟨files, hlists, -, -, hload, -⟩ :=
    sources_in_reach_are_loaded sample ⟨"/d/.//"⟩ ["js"] sampleEntries sound_sample hleft
  obtain ⟨hload, hother⟩ := hload (hreach _ (by simp))
  refine ⟨sound_sample, hleft, hright, files, hlists, hload, ?_⟩
  rw [hother sample ⟨"./f"⟩ sampleEntries sound_sample hright (fun _ _ => Iff.rfl)
    (hreach _ (by simp)), hload]

/-- A path of `/d` that stays there for a number of steps. -/
def detour : (steps : Nat) → String
  | 0 => "/d"
  | steps + 1 => detour steps ++ "/."

def detourEntries : List (String × Item) :=
  [("n.js", .file ⟨#[1]⟩)]

def detourDisk : Disk where
  root := .directory [("d", .directory detourEntries)]

theorem utf8ByteSize_detour (steps : Nat) : (detour steps).utf8ByteSize = 2 * steps + 2 := by
  induction steps with
  | zero => rfl
  | succ steps ih =>
      rw [detour, String.utf8ByteSize_append, ih]
      have hstep : "/.".utf8ByteSize = 2 := rfl
      omega

theorem segments_detour (steps : Nat) :
    (Path.mk (detour steps)).segments = [[], ['d']] ++ List.replicate steps ['.'] := by
  induction steps with
  | zero => rfl
  | succ steps ih =>
      have htext : (detour (steps + 1)).toList = (detour steps).toList ++ '/' :: ['.'] := by
        simp [detour]
      rw [Path.segments] at ih ⊢
      rw [htext, List.splitOn_append_cons_self, ih, List.replicate_succ']
      rfl

theorem nul_notMem_detour (steps : Nat) : '\x00' ∉ (detour steps).toList := by
  induction steps with
  | zero => decide
  | succ steps ih => simp [detour, ih]

theorem foldlM_step_detour (steps : Nat) :
    (List.replicate steps ['.']).foldlM detourDisk.step ["d"] = .ok ["d"] := by
  induction steps with
  | zero => rfl
  | succ steps ih => exact ih

theorem find_detour {steps : Nat} (h : 2 * steps + 2 ≤ longestPath) :
    detourDisk.find ⟨detour steps⟩ = .ok (.directory detourEntries) := by
  refine find_eq_ok_iff.mpr ⟨nul_notMem_detour steps, ?_, ?_, ["d"], ?_, rfl⟩
  · intro hempty
    have hsize := utf8ByteSize_detour steps
    rw [show detour steps = "" from hempty, String.utf8ByteSize_empty] at hsize
    omega
  · rwa [utf8ByteSize_detour]
  · have horigin : detourDisk.origin ⟨detour steps⟩ = [] := ite_self []
    rw [segments_detour, horigin, List.foldlM_append]
    exact foldlM_step_detour steps

theorem sound_detourDisk : detourDisk.root.Sound := by
  have hentries : (Item.directory detourEntries).Sound :=
    .directory (by decide) (by decide) (by simp [detourEntries, Item.Sound.file])
  exact .directory (by decide) (by decide) (by simp [hentries])

theorem load_detour {steps : Nat} (hshort : 2 * steps + 2 ≤ longestPath)
    (hlong : longestPath < 2 * steps + 6) {extensions : List String}
    (hsource : Path.IsSource extensions ["n.js"]) :
    detourDisk.load ⟨detour steps⟩ extensions = .error (.access .nameTooLong) := by
  have hfind := find_detour hshort
  have hsound := sound_of_find sound_detourDisk hfind
  have hsize := utf8ByteSize_detour steps
  have hreach : InReach ⟨detour steps⟩ [] := by
    simpa only [InReach, List.foldl_nil, hsize] using hshort
  have hbeyond : ¬ InReach ⟨detour steps⟩ ["n.js"] := by
    have hname : "n.js".utf8ByteSize = 4 := rfl
    simp only [InReach, List.foldl_cons, List.foldl_nil, Path.join]
    split <;> simp only [String.utf8ByteSize_append] <;> omega
  have hwalk : (Item.directory detourEntries).walk =
      [([], .directory detourEntries)] ++ (["n.js"], .file ⟨#[1]⟩) :: [] := by
    rw [Item.walk_directory]
    simp [detourEntries, Item.sortByName, Item.walk_file]
  exact load_eq_error hsound hfind hwalk (by simpa using fun _ => hreach) hsource hbeyond

/-- A source file is not loaded if the path of its directory is written in too long a way. -/
theorem source_behind_detour_is_not_loaded :
    detourDisk.root.Sound ∧
      detourDisk.find ⟨detour 2046⟩ = .ok (.directory detourEntries) ∧
      (Item.directory detourEntries).at? ["n.js"] = some (.file ⟨#[1]⟩) ∧
      Path.IsSource ["js"] ["n.js"] ∧
      detourDisk.load ⟨detour 2046⟩ ["js"] = .error (.access .nameTooLong) := by
  have hsource : Path.IsSource ["js"] ["n.js"] :=
    ⟨"n.js", rfl, "js", by simp, "n", by decide, by decide, rfl⟩
  exact ⟨sound_detourDisk, find_detour (by decide), rfl, hsource,
    load_detour (by decide) (by decide) hsource⟩

end Disk

end Lineage
