import Lineage.Proofs.Bags
import Lineage.Proofs.JavaScript.Acceptance
import Lineage.Proofs.JavaScript.CallResolution
import Lineage.Proofs.JavaScript.Nesting
import Lineage.Proofs.JavaScript.Tokenization
import Lineage.Proofs.Windows

/-!
The locations of a file's declarations form a laminar family: two of them lie one inside the other,
where one declaration is an ancestor of the other, or else apart. Body and extent can come from
different syntax nodes, but the body always lies in the extent. The tokens of a declaration are
among those of its parent.
-/

namespace Lineage

theorem lineAt_mono (bytes : ByteArray) {offset later : Nat} (h : offset ≤ later) :
    lineAt bytes offset ≤ lineAt bytes later :=
  Nat.succ_le_succ (List.Sublist.count_le 10 (List.take_sublist_take_left h))

namespace Location

/-- The body lies in the extent. -/
structure HoldsBody (location : Location) : Prop where
  start_le : location.start ≤ location.bodyStart
  body_le : location.bodyStart ≤ location.bodyStop
  stop_le : location.bodyStop ≤ location.stop

/-- The bytes and the lines of one location are among those of another. -/
structure Encloses (outer inner : Location) : Prop where
  start_le : outer.start ≤ inner.start
  stop_le : inner.stop ≤ outer.stop
  lineStart_le : outer.lineStart ≤ inner.lineStart
  lineStop_le : inner.lineStop ≤ outer.lineStop

end Location

namespace CodeTree

/-- The extent of a node ends before that of another one starts. -/
def EndsBefore (tree : CodeTree) (earlier later : NodeId) : Prop :=
  ∃ left right, tree.node? earlier = some left ∧ tree.node? later = some right ∧
    left.location.stop ≤ right.location.start

theorem lt_of_mem_ancestors {tree : CodeTree} {id above : NodeId} (h : above ∈ tree.ancestors id) :
    above < id := by
  induction id using Nat.strongRecOn with
  | ind id ih =>
      rw [ancestors] at h
      split at h
      · cases h
      · next parent _ =>
        split at h
        · next hlt =>
          rcases List.mem_cons.mp h with rfl | h
          · exact hlt
          · exact Nat.lt_trans (ih parent hlt h) hlt
        · cases h

theorem children_beside_add (left right : CodeTree) (id : NodeId) :
    (left.beside right).children (left.size + id) = (right.children id).map (left.size + ·) := by
  rw [children, node?_beside_add, children]
  cases right.node? id <;> rfl

theorem parent?_beside_add (left right : CodeTree) (id : NodeId) :
    (left.beside right).parent? (left.size + id) = (right.parent? id).map (left.size + ·) := by
  rw [parent?, node?_beside_add, parent?]
  cases right.node? id <;> rfl

end CodeTree

namespace JavaScript

section Extents

namespace SyntaxTree

/-- A well-formed tree in the extent of another one. -/
structure Inside (part tree : SyntaxTree) : Prop where
  wellFormed : part.WellFormed
  start_le : tree.start ≤ part.start
  stop_le : part.stop ≤ tree.stop

theorem Inside.trans {inner part tree : SyntaxTree} (h : inner.Inside part)
    (h' : part.Inside tree) : inner.Inside tree :=
  ⟨h.wellFormed, Nat.le_trans h'.start_le h.start_le, Nat.le_trans h.stop_le h'.stop_le⟩

theorem WellFormed.inside_self {tree : SyntaxTree} (h : tree.WellFormed) : tree.Inside tree :=
  ⟨h, Nat.le_refl _, Nat.le_refl _⟩

theorem Between.apart {low high : Nat} {trees : List SyntaxTree} (h : Between low high trees) :
    trees.Pairwise fun earlier later => earlier.stop ≤ later.start := by
  induction trees generalizing low with
  | nil => exact List.Pairwise.nil
  | cons first rest ih =>
      rw [Between] at h
      obtain ⟨-, -, -, hrest⟩ := h
      exact List.pairwise_cons.mpr ⟨fun later hlater => (hrest.of_mem hlater).1, ih hrest⟩

theorem WellFormed.inside_of_mem {tree child : SyntaxTree} (h : tree.WellFormed)
    (hchild : child ∈ tree.children) : child.Inside tree := by
  obtain ⟨hstart, hwell, hstop⟩ := h.between_children.of_mem hchild
  exact ⟨hwell, hstart, hstop⟩

theorem WellFormed.inside_of_child? {tree child : SyntaxTree} (h : tree.WellFormed) {name : String}
    (hchild : tree.child? name = some child) : child.Inside tree :=
  h.inside_of_mem (mem_children_of_child? hchild)

theorem WellFormed.inside_of_at? {tree : SyntaxTree} (h : tree.WellFormed) {position : Position}
    {part : SyntaxTree} (hpart : tree.at? position = some part) : part.Inside tree := by
  induction position generalizing part with
  | nil =>
      cases hpart
      exact h.inside_self
  | cons index above ih =>
      obtain ⟨around, haround, hchild⟩ := Option.bind_eq_some_iff.mp hpart
      have hinside := ih haround
      have hmem : part ∈ around.children := (List.mem_filter.mp (List.mem_of_getElem? hchild)).1
      exact (hinside.wellFormed.inside_of_mem hmem).trans hinside

end SyntaxTree

theorem fork_of_lt {earlier later : List Nat} (h : earlier < later) :
    earlier <+: later ∨ ∃ (common rest rest' : List Nat) (index index' : Nat), index < index' ∧
      earlier = common ++ index :: rest ∧ later = common ++ index' :: rest' := by
  induction earlier generalizing later with
  | nil => exact Or.inl List.nil_prefix
  | cons first rest ih =>
      cases later with
      | nil => exact absurd h (List.not_lt_nil _)
      | cons first' rest' =>
          rcases List.cons_lt_cons_iff.mp h with hlt | ⟨rfl, hlt⟩
          · exact Or.inr ⟨[], rest, rest', first, first', hlt, rfl, rfl⟩
          · rcases ih hlt with hprefix | ⟨common, rest, rest', index, index', hindex, rfl, rfl⟩
            · exact Or.inl ((List.prefix_cons_inj first).mpr hprefix)
            · exact Or.inr ⟨first :: common, rest, rest', index, index', hindex, rfl, rfl⟩

/-- Of two positions in pre-order, the second one is inside the first, or both are inside different
children of one node. -/
theorem fork_of_precedes {earlier later : Position} (h : Precedes earlier later) :
    earlier <:+ later ∨ ∃ (above below below' : Position) (index index' : Nat), index < index' ∧
      earlier = below ++ index :: above ∧ later = below' ++ index' :: above := by
  rcases fork_of_lt h with hprefix | ⟨common, rest, rest', index, index', hlt, hearlier, hlater⟩
  · exact Or.inl (List.reverse_prefix.mp hprefix)
  · refine Or.inr ⟨common.reverse, rest.reverse, rest'.reverse, index, index', hlt, ?_, ?_⟩
    · rw [← earlier.reverse_reverse, hearlier]
      simp
    · rw [← later.reverse_reverse, hlater]
      simp

namespace SyntaxTree

theorem WellFormed.stop_le_start {tree : SyntaxTree} (h : tree.WellFormed)
    {earlier later : Position} {left right : SyntaxTree} (hleft : tree.at? earlier = some left)
    (hright : tree.at? later = some right) (hprecedes : Precedes earlier later)
    (hnot : ¬earlier <:+ later) : left.stop ≤ right.start := by
  rcases fork_of_precedes hprecedes with hsuffix | ⟨above, below, below', i, j, hlt, rfl, rfl⟩
  · exact absurd hsuffix hnot
  · rw [at?_append] at hleft hright
    obtain ⟨leftChild, hleftChild, hleft⟩ := Option.bind_eq_some_iff.mp hleft
    obtain ⟨rightChild, hrightChild, hright⟩ := Option.bind_eq_some_iff.mp hright
    obtain ⟨around, haround, hi⟩ := Option.bind_eq_some_iff.mp hleftChild
    obtain ⟨around', haround', hj⟩ := Option.bind_eq_some_iff.mp hrightChild
    cases haround.symm.trans haround'
    have hwell := (h.inside_of_at? haround).wellFormed
    have hapart : around.namedChildren.Pairwise fun earlier later => earlier.stop ≤ later.start :=
      hwell.between_children.apart.filter _
    obtain ⟨hilt, rfl⟩ := List.getElem?_eq_some_iff.mp hi
    obtain ⟨hjlt, rfl⟩ := List.getElem?_eq_some_iff.mp hj
    calc left.stop
      _ ≤ around.namedChildren[i].stop :=
        ((h.inside_of_at? hleftChild).wellFormed.inside_of_at? hleft).stop_le
      _ ≤ around.namedChildren[j].start := List.pairwise_iff_getElem.mp hapart i j hilt hjlt hlt
      _ ≤ right.start :=
        ((h.inside_of_at? hrightChild).wellFormed.inside_of_at? hright).start_le

end SyntaxTree

theorem Describes.holdsBody {source : Source} {part : SyntaxTree} {declaration : Declaration}
    (h : Describes source.bytes part declaration) (hwell : part.WellFormed) :
    (source.element part declaration).location.HoldsBody := by
  have hcallable : (callableOf part).Inside part := by
    rcases callableOf_cases part with heq | hmem
    · rw [heq]
      exact hwell.inside_self
    · exact hwell.inside_of_mem hmem
  rw [Source.element, Source.locate, h.body_eq]
  cases hbody : (callableOf part).child? "body" with
  | none => exact ⟨Nat.le_refl _, hwell.start_le_stop, Nat.le_refl _⟩
  | some body =>
      have hinside := (hcallable.wellFormed.inside_of_child? hbody).trans hcallable
      exact ⟨hinside.start_le, hinside.wellFormed.start_le_stop, hinside.stop_le⟩

end Extents

section Around

variable {bytes : ByteArray} {program : SyntaxTree} {position outer : Position}

theorem declaredAround?_spec (h : declaredAround? bytes program position = some outer) :
    outer <:+ position ∧ outer.length < position.length ∧
      (declaredAt? bytes program outer).isSome = true := by
  induction position with
  | nil => cases h
  | cons index above ih =>
      rw [declaredAround?] at h
      split at h
      · next hdeclared =>
        cases h
        exact ⟨List.suffix_cons _ _, Nat.lt_succ_self _, hdeclared⟩
      · obtain ⟨hsuffix, hlength, hdeclared⟩ := ih h
        exact ⟨hsuffix.trans (List.suffix_cons _ _), Nat.lt_succ_of_lt hlength, hdeclared⟩

theorem exists_declaredAround? (hsuffix : outer <:+ position) (hne : outer ≠ position)
    (hdeclared : (declaredAt? bytes program outer).isSome = true) :
    ∃ nearest, declaredAround? bytes program position = some nearest ∧ outer <:+ nearest := by
  induction position with
  | nil => exact absurd (List.suffix_nil.mp hsuffix) hne
  | cons index above ih =>
      have habove : outer <:+ above := (List.suffix_cons_iff.mp hsuffix).resolve_left hne
      rw [declaredAround?]
      split
      · exact ⟨above, rfl, habove⟩
      · next hnot =>
        refine ih habove ?_
        rintro rfl
        exact hnot hdeclared

end Around

section Ancestors

variable {tree : CodeTree} {source : Source} {program : SyntaxTree} {position : Position}

theorem precedes_of_suffix {outer inner : Position} (h : outer <:+ inner) (hne : outer ≠ inner) :
    Precedes outer inner := by
  obtain ⟨below, rfl⟩ := h
  rcases List.eq_nil_or_concat below with rfl | ⟨below, index, rfl⟩
  · exact absurd (List.nil_append _).symm hne
  · rw [List.concat_eq_append, List.append_assoc]
    exact precedes_inside outer index below

variable (source program) in
theorem parentAt_cases (file : NodeId) (position : Position) :
    declaredAround? source.bytes program position = none ∧
        parentAt source program file position = file ∨
      ∃ outer, declaredAround? source.bytes program position = some outer ∧
        outer ∈ declaredOrder source program ∧
        parentAt source program file position = numberAt source program file outer := by
  rw [parentAt, parentOf]
  cases h : declaredAround? source.bytes program position with
  | none => exact Or.inl ⟨rfl, rfl⟩
  | some outer =>
      exact Or.inr ⟨outer, rfl, mem_declaredOrder_iff.mpr (declaredAround?_spec h).2.2, rfl⟩

theorem parentAt_lt (file : NodeId) (hposition : position ∈ declaredOrder source program) :
    parentAt source program file position < numberAt source program file position := by
  rcases parentAt_cases source program file position with ⟨-, heq⟩ | ⟨outer, haround, houter, heq⟩
  · rw [heq, numberAt, Nat.add_assoc]
    exact Nat.lt_add_of_pos_right (Nat.add_pos_left Nat.one_pos _)
  · obtain ⟨hsuffix, hlength, -⟩ := declaredAround?_spec haround
    rw [heq, numberAt_lt_iff file houter hposition]
    refine precedes_of_suffix hsuffix ?_
    rintro rfl
    exact Nat.lt_irrefl _ hlength

variable (tree) in
theorem ancestors_numberAt (hposition : position ∈ declaredOrder source program) :
    (addFile tree source program).ancestors (numberAt source program tree.size position) =
      parentAt source program tree.size position ::
        (addFile tree source program).ancestors (parentAt source program tree.size position) := by
  obtain ⟨part, node, hnode, hholds⟩ := exists_holdsAt tree hposition
  have hparent : (addFile tree source program).parent?
      (numberAt source program tree.size position) =
        some (parentAt source program tree.size position) := by
    rw [CodeTree.parent?, hnode]
    exact hholds.parent_eq
  rw [CodeTree.ancestors, hparent]
  exact if_pos (parentAt_lt tree.size hposition)

variable (tree) in
theorem mem_ancestors_numberAt (hposition : position ∈ declaredOrder source program) :
    tree.size ∈ (addFile tree source program).ancestors
        (numberAt source program tree.size position) ∧
      ∀ outer ∈ declaredOrder source program, outer <:+ position → outer ≠ position →
        numberAt source program tree.size outer ∈ (addFile tree source program).ancestors
          (numberAt source program tree.size position) := by
  induction hlength : position.length using Nat.strongRecOn generalizing position with
  | ind length ih =>
      rw [ancestors_numberAt tree hposition]
      rcases parentAt_cases source program tree.size position with
        ⟨hnone, heq⟩ | ⟨nearest, haround, hnearest, heq⟩
      · refine ⟨by rw [heq]; exact List.mem_cons_self, ?_⟩
        intro outer houter hsuffix hne
        obtain ⟨_, hsome, -⟩ :=
          exists_declaredAround? hsuffix hne (mem_declaredOrder_iff.mp houter)
        cases hnone.symm.trans hsome
      · obtain ⟨-, hshorter, -⟩ := declaredAround?_spec haround
        obtain ⟨hfile, hinner⟩ := ih nearest.length (hlength ▸ hshorter) hnearest rfl
        rw [heq]
        refine ⟨List.mem_cons_of_mem _ hfile, ?_⟩
        intro outer houter hsuffix hne
        obtain ⟨_, hsome, hinside⟩ :=
          exists_declaredAround? hsuffix hne (mem_declaredOrder_iff.mp houter)
        cases haround.symm.trans hsome
        by_cases hsame : outer = nearest
        · rw [hsame]
          exact List.mem_cons_self
        · exact List.mem_cons_of_mem _ (hinner outer houter hinside hsame)

end Ancestors

section Laminar

/-- The locations of the nodes from `file` on, which stands for a file with the given contents:
bodies lie in extents and extents in those of the parents, siblings follow each other, and nodes of
which neither is an ancestor of the other do not overlap. -/
structure Laminar (bytes : ByteArray) (tree : CodeTree) (file : NodeId) : Prop where
  body : ∀ id node, file ≤ id → tree.node? id = some node → node.location.HoldsBody
  covered : ∃ node, tree.node? file = some node ∧ node.parent = none ∧
    node.location.start = 0 ∧ node.location.stop = bytes.size ∧
    node.location.lineStart = 1 ∧ node.location.lineStop = lineAt bytes bytes.size
  parent : ∀ id node, file < id → tree.node? id = some node →
    ∃ parent outer, node.parent = some parent ∧ file ≤ parent ∧ tree.node? parent = some outer ∧
      outer.location.Encloses node.location
  siblings : ∀ id, file ≤ id → (tree.children id).Pairwise tree.EndsBefore
  apart : ∀ id other, file ≤ id → id < tree.size → file ≤ other → other < tree.size →
    id ≠ other → id ∉ tree.ancestors other → other ∉ tree.ancestors id →
    tree.EndsBefore id other ∨ tree.EndsBefore other id

variable {tree : CodeTree} {source : Source} {program : SyntaxTree} {id other : NodeId}

theorem HoldsAt.exists_location {file : NodeId} {position : Position} {part : SyntaxTree}
    {node : Node} (h : HoldsAt source program file position part node) :
    ∃ body, node.location = source.locate part body := by
  obtain ⟨declaration, -, helement⟩ := h.declared
  exact ⟨declaration.body, congrArg Element.location helement⟩

theorem encloses_of_inside {inner outer : SyntaxTree} (h : inner.Inside outer)
    (body body' : Option SyntaxTree) :
    (source.locate outer body).Encloses (source.locate inner body') :=
  ⟨h.start_le, h.stop_le, lineAt_mono _ h.start_le, lineAt_mono _ h.stop_le⟩

theorem file_encloses {part : SyntaxTree} (h : part.stop ≤ source.bytes.size)
    (body : Option SyntaxTree) :
    (fileElement source).location.Encloses (source.locate part body) :=
  ⟨Nat.zero_le _, h, Nat.le_add_left 1 _, lineAt_mono _ h⟩

theorem HoldsAt.encloses {position : Position} {part : SyntaxTree} {node : Node}
    (hfits : program.Fits source.bytes.size)
    (h : HoldsAt source program tree.size position part node) :
    ∃ outer, tree.size ≤ parentAt source program tree.size position ∧
      (addFile tree source program).node? (parentAt source program tree.size position) =
        some outer ∧ outer.location.Encloses node.location := by
  obtain ⟨body, hlocation⟩ := h.exists_location
  rcases parentAt_cases source program tree.size position with
    ⟨-, heq⟩ | ⟨around, haround, hmem, heq⟩
  · obtain ⟨file, hfile, helement, -⟩ := exists_fileNode tree source program
    refine ⟨file, Nat.le_of_eq heq.symm, by rw [heq, hfile], ?_⟩
    rw [congrArg Element.location helement, hlocation]
    exact file_encloses (Nat.le_trans (hfits.1.inside_of_at? h.at?_eq).stop_le hfits.2) body
  · obtain ⟨outerPart, outer, houter, hholds⟩ := exists_holdsAt tree hmem
    obtain ⟨outerBody, houterLocation⟩ := hholds.exists_location
    obtain ⟨below, rfl⟩ := (declaredAround?_spec haround).1
    have hinside : part.Inside outerPart := by
      have hat := h.at?_eq
      rw [SyntaxTree.at?_append, hholds.at?_eq] at hat
      exact (hfits.1.inside_of_at? hholds.at?_eq).wellFormed.inside_of_at? hat
    refine ⟨outer, ?_, by rw [heq, houter], ?_⟩
    · rw [heq, numberAt, Nat.add_assoc]
      exact Nat.le_add_right _ _
    · rw [hlocation, houterLocation]
      exact encloses_of_inside hinside outerBody body

theorem endsBefore_of_lt (hwell : program.WellFormed) (hid : tree.size ≤ id) (hlt : id < other)
    (hother : other < (addFile tree source program).size)
    (hnot : id ∉ (addFile tree source program).ancestors other) :
    (addFile tree source program).EndsBefore id other := by
  obtain ⟨later, hlater, rfl⟩ := exists_numberAt_eq (Nat.lt_of_le_of_lt hid hlt) hother
  obtain ⟨hfile, hancestors⟩ := mem_ancestors_numberAt tree hlater
  have hne : tree.size ≠ id := by
    rintro rfl
    exact hnot hfile
  obtain ⟨earlier, hearlier, rfl⟩ :=
    exists_numberAt_eq (Nat.lt_of_le_of_ne hid hne) (Nat.lt_trans hlt hother)
  have hprecedes := (numberAt_lt_iff tree.size hearlier hlater).mp hlt
  have hapart : ¬earlier <:+ later := by
    intro hsuffix
    refine hnot (hancestors earlier hearlier hsuffix ?_)
    rintro rfl
    exact Nat.lt_irrefl _ hlt
  obtain ⟨leftPart, left, hleft, hleftHolds⟩ := exists_holdsAt tree hearlier
  obtain ⟨rightPart, right, hright, hrightHolds⟩ := exists_holdsAt tree hlater
  refine ⟨left, right, hleft, hright, ?_⟩
  obtain ⟨leftBody, hleftLocation⟩ := hleftHolds.exists_location
  obtain ⟨rightBody, hrightLocation⟩ := hrightHolds.exists_location
  rw [hleftLocation, hrightLocation]
  exact hwell.stop_le_start hleftHolds.at?_eq hrightHolds.at?_eq hprecedes hapart

variable (source program) in
theorem children_addFile (hid : tree.size ≤ id) :
    ((addFile tree source program).children id).Pairwise (· < ·) ∧
      ∀ child ∈ (addFile tree source program).children id, id < child ∧
        (addFile tree source program).parent? child = some id := by
  obtain ⟨offset, rfl⟩ := Nat.exists_eq_add_of_le hid
  have hgrown := grown_addFile .empty source program
  have hcoherent := hgrown.built.coherent
  rw [addFile_eq_beside, CodeTree.children_beside_add]
  constructor
  · rw [List.pairwise_map]
    exact (hcoherent.children_sorted offset).imp fun hlt => Nat.add_lt_add_left hlt _
  · intro child hchild
    obtain ⟨inner, hinner, rfl⟩ := List.mem_map.mp hchild
    have hparent := (hcoherent.mem_children_iff offset inner).mp hinner
    refine ⟨Nat.add_lt_add_left (hgrown.parent_lt hparent) _, ?_⟩
    rw [CodeTree.parent?_beside_add, hparent]
    rfl

theorem laminar_addFile (tree : CodeTree) {source : Source} {program : SyntaxTree}
    (hfits : program.Fits source.bytes.size) :
    Laminar source.bytes (addFile tree source program) tree.size where
  body id node hid hnode := by
    rcases file_or_holdsAt hid hnode with ⟨-, helement⟩ | ⟨position, -, part, -, hholds⟩
    · rw [congrArg Element.location helement]
      exact ⟨Nat.le_refl _, Nat.zero_le _, Nat.le_refl _⟩
    · obtain ⟨declaration, hdeclaration, helement⟩ := hholds.declared
      rw [congrArg Element.location helement]
      have hinside := hfits.1.inside_of_at? hholds.at?_eq
      exact (describes_of_declaration? hdeclaration).holdsBody hinside.wellFormed
  covered := by
    obtain ⟨node, hnode, helement, hparent⟩ := exists_fileNode tree source program
    refine ⟨node, hnode, hparent, ?_⟩
    rw [congrArg Element.location helement]
    exact ⟨rfl, rfl, rfl, rfl⟩
  parent id node hid hnode := by
    rcases file_or_holdsAt (Nat.le_of_lt hid) hnode with
      ⟨heq, -⟩ | ⟨position, -, part, -, hholds⟩
    · exact absurd heq (Nat.ne_of_gt hid)
    · obtain ⟨outer, hle, houter, hencloses⟩ := hholds.encloses hfits
      exact ⟨_, outer, hholds.parent_eq, hle, houter, hencloses⟩
  siblings id hid := by
    obtain ⟨hsorted, hchildren⟩ := children_addFile source program hid
    refine hsorted.imp_of_mem ?_
    intro earlier later hearlier hlater hlt
    obtain ⟨hyounger, -⟩ := hchildren earlier hearlier
    obtain ⟨-, hparent⟩ := hchildren later hlater
    refine endsBefore_of_lt hfits.1 (Nat.le_trans hid (Nat.le_of_lt hyounger)) hlt
      (CodeTree.lt_size_of_parent? hparent) ?_
    intro hmem
    rw [CodeTree.ancestors, hparent] at hmem
    simp only at hmem
    split at hmem
    · rcases List.mem_cons.mp hmem with rfl | hmem
      · exact Nat.lt_irrefl _ hyounger
      · exact Nat.lt_asymm hyounger (CodeTree.lt_of_mem_ancestors hmem)
    · cases hmem
  apart id other hid hidLt hother hotherLt hne hnot hnot' := by
    rcases Nat.lt_or_gt_of_ne hne with hlt | hlt
    · exact Or.inl (endsBefore_of_lt hfits.1 hid hlt hotherLt hnot)
    · exact Or.inr (endsBefore_of_lt hfits.1 hother hlt hidLt hnot')

end Laminar

section Bags

/-- No node from `file` on has more of any token than its parent, and `file` has the tokens with the
given texts. -/
structure NestsBags (snapshot : Snapshot) (file : NodeId) (texts : List String) : Prop where
  covered : ∃ node profile, snapshot.tree.node? file = some node ∧
    Profile.ofNode snapshot file node = .ok profile ∧ profile.tokens = Bag.ofList texts
  parent : ∀ id node, file < id → snapshot.tree.node? id = some node →
    ∃ parent outer profile outerProfile, node.parent = some parent ∧
      snapshot.tree.node? parent = some outer ∧ Profile.ofNode snapshot id node = .ok profile ∧
      Profile.ofNode snapshot parent outer = .ok outerProfile ∧
      ∀ text, profile.tokens.count text ≤ outerProfile.tokens.count text

/-- The texts of the tokens in the extent of a location. -/
def textsWithin (bytes : ByteArray) (program : SyntaxTree) (location : Location) : List String :=
  (program.tokens.filter fun token =>
    location.start ≤ token.start && token.stop ≤ location.stop).map (Profile.tokenText bytes)

theorem SyntaxTree.WellFormed.ordered {program : SyntaxTree} (h : program.WellFormed) :
    TokenIndex.Ordered { tokens := program.tokens.toArray } := by
  refine h.inOrder_tokens.increasing.imp ?_
  rintro earlier later ⟨hstart, hstop⟩
  exact ⟨Nat.le_of_lt hstart, Nat.le_of_lt hstop⟩

theorem count_textsWithin_le (bytes : ByteArray) (program : SyntaxTree) {outer inner : Location}
    (h : outer.Encloses inner) (text : String) : (textsWithin bytes program inner).count text ≤
      (textsWithin bytes program outer).count text := by
  refine List.Sublist.count_le text (List.Sublist.map _ (List.monotone_filter_right _ ?_))
  intro token htoken
  rw [Bool.and_eq_true, decide_eq_true_eq, decide_eq_true_eq] at htoken ⊢
  exact ⟨Nat.le_trans h.start_le htoken.1, Nat.le_trans htoken.2 h.stop_le⟩

variable {tree : CodeTree} {source : Source} {program : SyntaxTree}

theorem location_file_eq {id : NodeId} {node : Node} (hid : tree.size ≤ id)
    (hnode : (addFile tree source program).node? id = some node) :
    node.location.file = source.file := by
  rcases file_or_holdsAt hid hnode with ⟨-, helement⟩ | ⟨_, -, _, -, hholds⟩
  · exact congrArg (·.location.file) helement
  · obtain ⟨body, hlocation⟩ := hholds.exists_location
    rw [hlocation]
    rfl

theorem exists_profile (hfits : program.Fits source.bytes.size) {files : PathMap ByteArray}
    (hfiles : files.find? source.file = some source.bytes) {id : NodeId} {node : Node}
    (hid : tree.size ≤ id) (hnode : (addFile tree source program).node? id = some node) :
    ∃ profile, Profile.ofNode ⟨addFile tree source program, files⟩ id node = .ok profile ∧
      profile.tokens = Bag.ofList (textsWithin source.bytes program node.location) := by
  have hindex : (addFile tree source program).tokensOf? source.file =
      some { tokens := program.tokens.toArray } := by
    rw [CodeTree.tokensOf?, tokens_addFile]
    exact PathMap.find?_insert_self _ _ _
  have hsource : Profile.source ⟨addFile tree source program, files⟩ source.file =
      .ok ({ tokens := program.tokens.toArray }, source.bytes) := by
    refine Profile.source_eq_ok hindex hfiles ?_
    intro token htoken
    exact hfits.isInside_tokens (by simpa using htoken)
  refine ⟨_, map_eq_ok_iff.mpr ⟨_, (location_file_eq hid hnode).symm ▸ hsource, rfl⟩, ?_⟩
  rw [textsWithin, ← Profile.spanTokens_eq hfits.1.ordered]

theorem textsWithin_file (hfits : program.Fits source.bytes.size) :
    textsWithin source.bytes program (fileElement source).location =
      program.tokens.map (Profile.tokenText source.bytes) := by
  rw [textsWithin, List.filter_eq_self.mpr]
  intro token htoken
  have hstop := (hfits.1.inOrder_tokens.inside token htoken).2
  rw [Bool.and_eq_true, decide_eq_true_eq, decide_eq_true_eq]
  exact ⟨Nat.zero_le _, Nat.le_trans hstop hfits.2⟩

theorem nestsBags_addFile (tree : CodeTree) (hfits : program.Fits source.bytes.size)
    {files : PathMap ByteArray} (hfiles : files.find? source.file = some source.bytes) :
    NestsBags ⟨addFile tree source program, files⟩ tree.size
      (program.tokens.map (Profile.tokenText source.bytes)) where
  covered := by
    obtain ⟨node, hnode, helement, -⟩ := exists_fileNode tree source program
    obtain ⟨profile, hprofile, htokens⟩ := exists_profile hfits hfiles (Nat.le_refl _) hnode
    rw [congrArg Element.location helement, textsWithin_file hfits] at htokens
    exact ⟨node, profile, hnode, hprofile, htokens⟩
  parent id node hid hnode := by
    obtain ⟨parent, outer, hparent, hle, houter, hencloses⟩ :=
      (laminar_addFile tree hfits).parent id node hid hnode
    obtain ⟨profile, hprofile, htokens⟩ :=
      exists_profile hfits hfiles (Nat.le_of_lt hid) hnode
    obtain ⟨outerProfile, houterProfile, houterTokens⟩ := exists_profile hfits hfiles hle houter
    refine ⟨parent, outer, profile, outerProfile, hparent, houter, hprofile, houterProfile, ?_⟩
    intro text
    rw [htokens, houterTokens, Bag.count_ofList, Bag.count_ofList]
    exact count_textsWithin_le source.bytes program hencloses text

end Bags

/-- The nodes of a file with a well-formed syntax tree have laminar locations, whatever was in the
tree before, and their bags of tokens are contained in each other as their locations are. -/
theorem locations_form_a_laminar_family (tree : CodeTree) (source : Source) (program : SyntaxTree)
    (hfits : program.Fits source.bytes.size) :
    Laminar source.bytes (addFile tree source program) tree.size ∧
      ∀ files : PathMap ByteArray, files.find? source.file = some source.bytes →
        NestsBags ⟨addFile tree source program, files⟩ tree.size
          (program.tokens.map (Profile.tokenText source.bytes)) :=
  ⟨laminar_addFile tree hfits, fun _ hfiles => nestsBags_addFile tree hfits hfiles⟩

theorem class_and_functions_are_laminar :
    callingProgram.Fits callingSource.bytes.size ∧
      (addFile {} callingSource callingProgram).children 0 = [1, 3, 4] ∧
      (addFile {} callingSource callingProgram).EndsBefore 1 3 ∧
      NestsBags ⟨addFile {} callingSource callingProgram, ⟨[(⟨"a.js"⟩, callingSource.bytes)]⟩⟩ 0
        (callingProgram.tokens.map (Profile.tokenText callingSource.bytes)) := by
  have hfits : callingProgram.Fits callingSource.bytes.size := by
    change callingProgram.Fits 61
    simp [SyntaxTree.Fits, callingProgram, plainCall, plainFunction, SyntaxTree.WellFormed,
      SyntaxTree.Between, SyntaxTree.start, SyntaxTree.stop]
  have hchildren : (addFile {} callingSource callingProgram).children 0 = [1, 3, 4] := by decide
  obtain ⟨hlaminar, hbags⟩ :=
    locations_form_a_laminar_family {} callingSource callingProgram hfits
  have hsiblings := hlaminar.siblings 0 (Nat.le_refl 0)
  rw [hchildren, List.pairwise_cons] at hsiblings
  exact ⟨hfits, hchildren, hsiblings.1 3 (by decide), hbags _ (by decide)⟩

end JavaScript

end Lineage
