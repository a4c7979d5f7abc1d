import Mathlib.Data.List.Find
import Lineage.Proofs.JavaScript.Acceptance
import Lineage.Proofs.JavaScript.Positions
import Lineage.Proofs.JavaScript.Recognition

namespace Lineage.JavaScript

namespace SyntaxTree

mutual

/-- The tree without the comments in it. -/
def withoutComments : SyntaxTree → SyntaxTree
  | node kind field named start stop children =>
    node kind field named start stop (forestWithoutComments children)

def forestWithoutComments : List SyntaxTree → List SyntaxTree
  | [] => []
  | tree :: trees =>
    if isComment tree.kind then forestWithoutComments trees
    else withoutComments tree :: forestWithoutComments trees

end

/-- The comments in a tree have no structure and fill no field. -/
def BareComments (tree : SyntaxTree) : Prop :=
  ∀ part : SyntaxTree, part.Within tree → isComment part.kind = true →
    part.children = [] ∧ part.field = ""

theorem isComment_iff {kind : String} :
    isComment kind = true ↔ kind = "comment" ∨ kind = "html_comment" := by
  simp [isComment]

@[simp] theorem kind_withoutComments (tree : SyntaxTree) :
    tree.withoutComments.kind = tree.kind := by
  cases tree
  rw [withoutComments]
  rfl

@[simp] theorem field_withoutComments (tree : SyntaxTree) :
    tree.withoutComments.field = tree.field := by
  cases tree
  rw [withoutComments]
  rfl

@[simp] theorem isNamed_withoutComments (tree : SyntaxTree) :
    tree.withoutComments.isNamed = tree.isNamed := by
  cases tree
  rw [withoutComments]
  rfl

@[simp] theorem start_withoutComments (tree : SyntaxTree) :
    tree.withoutComments.start = tree.start := by
  cases tree
  rw [withoutComments]
  rfl

@[simp] theorem stop_withoutComments (tree : SyntaxTree) :
    tree.withoutComments.stop = tree.stop := by
  cases tree
  rw [withoutComments]
  rfl

@[simp] theorem text?_withoutComments (bytes : ByteArray) (tree : SyntaxTree) :
    tree.withoutComments.text? bytes = tree.text? bytes := by
  rw [text?, text?, start_withoutComments, stop_withoutComments]

theorem children_withoutComments (tree : SyntaxTree) :
    tree.withoutComments.children = forestWithoutComments tree.children := by
  cases tree
  rw [withoutComments]
  rfl

theorem forestWithoutComments_eq (trees : List SyntaxTree) :
    forestWithoutComments trees = (trees.filter (!isComment ·.kind)).map withoutComments := by
  induction trees with
  | nil => rw [forestWithoutComments, List.filter_nil, List.map_nil]
  | cons tree trees ih =>
      rw [forestWithoutComments, ih]
      cases h : isComment tree.kind <;> simp [h]

theorem namedChildren_withoutComments (tree : SyntaxTree) :
    tree.withoutComments.namedChildren =
      (tree.namedChildren.filter (!isComment ·.kind)).map withoutComments := by
  have hnamed : isNamed ∘ withoutComments = isNamed := funext isNamed_withoutComments
  rw [namedChildren, children_withoutComments, forestWithoutComments_eq, List.filter_map, hnamed,
    namedChildren, List.filter_filter, List.filter_filter]
  simp only [Bool.and_comm]

namespace BareComments

variable {tree : SyntaxTree} (h : tree.BareComments)

include h

theorem child {child : SyntaxTree} (hchild : child ∈ tree.children) : child.BareComments := by
  intro part hpart
  exact h part (.inside hpart hchild)

theorem of_child? {name : String} {child : SyntaxTree} (hchild : tree.child? name = some child) :
    child.BareComments :=
  h.child (mem_children_of_child? hchild)

theorem of_at? {position : Position} {part : SyntaxTree} (hpart : tree.at? position = some part) :
    part.BareComments := by
  induction position generalizing part with
  | nil =>
      cases hpart
      exact h
  | cons index above ih =>
      obtain ⟨around, haround, hchild⟩ := Option.bind_eq_some_iff.mp hpart
      exact (ih haround).child (List.mem_filter.mp (List.mem_of_getElem? hchild)).1

theorem children_eq (hcomment : isComment tree.kind = true) : tree.children = [] :=
  (h tree .self hcomment).1

theorem field_eq (hcomment : isComment tree.kind = true) : tree.field = "" :=
  (h tree .self hcomment).2

theorem child?_eq {name : String} (hname : name ≠ "") :
    tree.withoutComments.child? name = (tree.child? name).map withoutComments := by
  rw [child?, children_withoutComments, forestWithoutComments_eq, List.find?_map,
    List.find?_filter, child?]
  congr 1
  apply List.find?_congr
  intro child hchild
  rw [Bool.eq_iff_iff]
  cases hcomment : isComment child.kind with
  | true => simpa [(h.child hchild).field_eq hcomment] using hname.symm
  | false => simp

end BareComments

theorem bareComments_node_iff {kind field : String} {named : Bool} {start stop : Nat}
    {children : List SyntaxTree} :
    (node kind field named start stop children).BareComments ↔
      (isComment kind = true → children = [] ∧ field = "") ∧
        ∀ child ∈ children, child.BareComments := by
  constructor
  · intro h
    exact ⟨h _ .self, fun child hchild => h.child hchild⟩
  · rintro ⟨hself, hchildren⟩ part hpart
    cases hpart with
    | self => exact hself
    | inside hinner hchild => exact hchildren _ hchild part hinner

end SyntaxTree

section Parameters

variable {bytes : ByteArray}

/-- A rest parameter with a comment before its name. -/
structure HidesName (bytes : ByteArray) (param : SyntaxTree) : Prop where
  kind_eq : param.kind = "rest_pattern"
  comment : ∃ first, param.namedChildren.head? = some first ∧
    SyntaxTree.isComment first.kind = true
  name : ∃ name, (param.namedChildren.filter (!SyntaxTree.isComment ·.kind)).head? = some name ∧
    name.kind = "identifier" ∧ (name.text? bytes).isSome = true

/-- A function with a rest parameter that has a comment before its name. -/
def HidesRest (bytes : ByteArray) (callable : SyntaxTree) : Prop :=
  ∃ params, callable.child? "parameters" = some params ∧
    ∃ param ∈ params.namedChildren, HidesName bytes param

/-- The name of a parameter that binds one. -/
def nameOf? (bytes : ByteArray) (param : SyntaxTree) : Option String :=
  (boundName? param).bind (·.text? bytes)

theorem identifier?_withoutComments (tree : SyntaxTree) :
    identifier? tree.withoutComments = (identifier? tree).map SyntaxTree.withoutComments := by
  rw [identifier?, identifier?, SyntaxTree.kind_withoutComments]
  split <;> rfl

theorem text?_comp_withoutComments (bytes : ByteArray) :
    (SyntaxTree.text? bytes ∘ SyntaxTree.withoutComments) = SyntaxTree.text? bytes :=
  funext (SyntaxTree.text?_withoutComments bytes)

theorem nameOf?_comment {param : SyntaxTree} (h : SyntaxTree.isComment param.kind = true) :
    nameOf? bytes param = none := by
  rcases SyntaxTree.isComment_iff.mp h with hkind | hkind <;> simp [nameOf?, boundName?, hkind]

theorem nameOf?_of_rest {param : SyntaxTree} (hkind : param.kind = "rest_pattern") :
    nameOf? bytes param = (param.namedChildren.head?.bind identifier?).bind (·.text? bytes) := by
  simp [nameOf?, boundName?, hkind]

theorem nameOf?_withoutComments_of_rest {param : SyntaxTree}
    (hkind : param.kind = "rest_pattern") :
    nameOf? bytes param.withoutComments =
      ((param.namedChildren.filter (!SyntaxTree.isComment ·.kind)).head?.bind identifier?).bind
        (·.text? bytes) := by
  rw [nameOf?_of_rest (by rw [SyntaxTree.kind_withoutComments, hkind]),
    SyntaxTree.namedChildren_withoutComments, List.head?_map]
  cases (param.namedChildren.filter (!SyntaxTree.isComment ·.kind)).head? with
  | none => rfl
  | some name =>
      rw [Option.map_some, Option.bind_some, Option.bind_some, identifier?_withoutComments,
        Option.bind_map, text?_comp_withoutComments]

theorem nameOf?_withoutComments_of_ne {param : SyntaxTree} (h : param.BareComments)
    (hkind : param.kind ≠ "rest_pattern") :
    nameOf? bytes param.withoutComments = nameOf? bytes param := by
  unfold nameOf? boundName?
  rw [SyntaxTree.kind_withoutComments]
  split
  · simp
  · rw [h.child?_eq (by decide)]
    cases param.child? "left" with
    | none => rfl
    | some left =>
        rw [Option.map_some, Option.bind_some, Option.bind_some, identifier?_withoutComments,
          Option.bind_map, text?_comp_withoutComments]
  · next hrest => exact absurd hrest hkind
  · rfl

theorem hidesName_iff {param : SyntaxTree} :
    HidesName bytes param ↔ param.kind = "rest_pattern" ∧
      (∃ first, param.namedChildren.head? = some first ∧
        SyntaxTree.isComment first.kind = true) ∧
      (nameOf? bytes param.withoutComments).isSome = true := by
  constructor
  · rintro ⟨hkind, hcomment, name, hname, hidentifier, htext⟩
    refine ⟨hkind, hcomment, ?_⟩
    rw [nameOf?_withoutComments_of_rest hkind, hname]
    simpa [identifier?, hidentifier] using htext
  · rintro ⟨hkind, hcomment, htext⟩
    rw [nameOf?_withoutComments_of_rest hkind] at htext
    obtain ⟨text, htext⟩ := Option.isSome_iff_exists.mp htext
    obtain ⟨bound, hbound, htext⟩ := Option.bind_eq_some_iff.mp htext
    obtain ⟨name, hname, hidentifier⟩ := Option.bind_eq_some_iff.mp hbound
    rw [identifier?, Option.ite_none_right_eq_some] at hidentifier
    obtain ⟨hidentifier, heq⟩ := hidentifier
    cases heq
    exact ⟨hkind, hcomment, bound, hname, by simpa using hidentifier, by rw [htext]; rfl⟩

theorem nameOf?_withoutComments (bytes : ByteArray) {param : SyntaxTree}
    (h : param.BareComments) :
    (nameOf? bytes param = none ∨
      nameOf? bytes param = nameOf? bytes param.withoutComments) ∧
    (nameOf? bytes param.withoutComments = nameOf? bytes param ↔ ¬HidesName bytes param) := by
  by_cases hkind : param.kind = "rest_pattern"
  · rw [hidesName_iff, nameOf?_of_rest hkind]
    cases hnamed : param.namedChildren with
    | nil =>
        have hnone : nameOf? bytes param.withoutComments = none := by
          rw [nameOf?_withoutComments_of_rest hkind, hnamed]
          rfl
        simp [hnone]
    | cons first rest =>
        cases hcomment : SyntaxTree.isComment first.kind with
        | true =>
            have hother : identifier? first = none := by
              rw [identifier?, if_neg]
              intro hidentifier
              rw [beq_iff_eq.mp hidentifier] at hcomment
              cases hcomment
            simp [hkind, hcomment, hother]
        | false =>
            have hsame : nameOf? bytes param.withoutComments =
                (identifier? first).bind (·.text? bytes) := by
              rw [nameOf?_withoutComments_of_rest hkind, hnamed, List.filter_cons_of_pos]
              · rfl
              · rw [hcomment]
                rfl
            simp [hsame, hcomment]
  · have hsame : nameOf? bytes param.withoutComments = nameOf? bytes param :=
      nameOf?_withoutComments_of_ne h hkind
    exact ⟨Or.inr hsame.symm, iff_of_true hsame fun hhides => hkind hhides.kind_eq⟩

theorem filterMap_sublist_of_none {α β : Type} (read full : α → Option β) {items : List α}
    (h : ∀ item ∈ items, read item = none ∨ read item = full item) :
    (items.filterMap read).Sublist (items.filterMap full) ∧
      (items.filterMap full = items.filterMap read ↔ ∀ item ∈ items, full item = read item) := by
  induction items with
  | nil => simp
  | cons item rest ih =>
      obtain ⟨hitem, hrest⟩ := List.forall_mem_cons.mp h
      obtain ⟨hsublist, hiff⟩ := ih hrest
      rw [List.forall_mem_cons, ← hiff]
      by_cases hsame : full item = read item
      · rw [List.filterMap_cons, List.filterMap_cons, hsame]
        cases read item with
        | none => exact ⟨hsublist, by simp⟩
        | some value => exact ⟨hsublist.cons_cons value, by simp⟩
      · have hnone : read item = none := hitem.resolve_right (Ne.symm hsame)
        obtain ⟨value, hvalue⟩ := Option.ne_none_iff_exists'.mp (hnone ▸ hsame)
        rw [List.filterMap_cons_none hnone, List.filterMap_cons_some hvalue]
        refine ⟨hsublist.cons value, iff_of_false ?_ fun hboth => hsame hboth.1⟩
        intro heq
        have hlength := congrArg List.length heq
        rw [List.length_cons] at hlength
        exact Nat.not_succ_le_self _ (hlength ▸ hsublist.length_le)

theorem paramsOf_withoutComments (bytes : ByteArray) {callable : SyntaxTree}
    (h : callable.BareComments) :
    (paramsOf bytes callable).Sublist (paramsOf bytes callable.withoutComments) ∧
      (paramsOf bytes callable.withoutComments = paramsOf bytes callable ↔
        ¬HidesRest bytes callable) := by
  unfold paramsOf
  rw [h.child?_eq (by decide)]
  cases hparams : callable.child? "parameters" with
  | none =>
      have hparameter : (callable.withoutComments.child? "parameter").bind (·.text? bytes) =
          (callable.child? "parameter").bind (·.text? bytes) := by
        rw [h.child?_eq (by decide), Option.bind_map, text?_comp_withoutComments]
      simp [hparameter, HidesRest, hparams]
  | some params =>
      have hbare := h.of_child? hparams
      have hnames : paramNames bytes params.withoutComments =
          params.namedChildren.filterMap fun param => nameOf? bytes param.withoutComments := by
        rw [paramNames, SyntaxTree.namedChildren_withoutComments, List.filterMap_map,
          List.filterMap_filter]
        apply List.filterMap_congr
        intro param _
        cases hcomment : SyntaxTree.isComment param.kind with
        | true =>
            rw [nameOf?_comment (by rw [SyntaxTree.kind_withoutComments, hcomment])]
            rfl
        | false => rfl
      have hmem : ∀ param ∈ params.namedChildren, param.BareComments := by
        intro param hparam
        exact hbare.child (List.mem_filter.mp hparam).1
      obtain ⟨hsublist, hiff⟩ := filterMap_sublist_of_none (nameOf? bytes)
        (fun param => nameOf? bytes param.withoutComments)
        fun param hparam => (nameOf?_withoutComments bytes (hmem param hparam)).1
      have hhides : HidesRest bytes callable ↔
          ∃ param ∈ params.namedChildren, HidesName bytes param := by
        simp [HidesRest, hparams]
      simp only [Option.map_some, hnames]
      refine ⟨hsublist, hiff.trans ?_⟩
      rw [hhides, not_exists]
      apply forall_congr'
      intro param
      rw [not_and]
      exact forall_congr' fun hparam => (nameOf?_withoutComments bytes (hmem param hparam)).2

end Parameters

section Recognised

variable {bytes : ByteArray} {tree : SyntaxTree}

/-- What is left of a declaration without the comments in its signature and body. -/
def Declaration.withoutComments (bytes : ByteArray) (callable : SyntaxTree)
    (declaration : Declaration) : Declaration :=
  { declaration with
    params := declaration.params.map fun _ => paramsOf bytes callable.withoutComments
    body := declaration.body.map SyntaxTree.withoutComments }

theorem functionNamed_withoutComments {callable : SyntaxTree} (h : callable.BareComments)
    (name : String) : functionNamed bytes name callable.withoutComments =
      (functionNamed bytes name callable).withoutComments bytes callable := by
  rw [functionNamed, h.child?_eq (by decide)]
  rfl

theorem namedValue?_withoutComments {value : SyntaxTree} (h : value.BareComments)
    (name : SyntaxTree) : namedValue? bytes name.withoutComments value.withoutComments =
      (namedValue? bytes name value).map (Declaration.withoutComments bytes value) := by
  have hvalue : isFunctionValue value.withoutComments = isFunctionValue value := by
    simp [isFunctionValue]
  rw [namedValue?, namedValue?, hvalue, SyntaxTree.text?_withoutComments]
  split
  · rw [Option.map_map]
    congr 1
    funext text
    exact functionNamed_withoutComments h text
  · rfl

theorem filter_kind_withoutComments (child? : Option SyntaxTree) (kind : String) :
    (child?.map SyntaxTree.withoutComments).filter (·.kind == kind) =
      (child?.filter (·.kind == kind)).map SyntaxTree.withoutComments := by
  cases child? with
  | none => rfl
  | some child =>
      rw [Option.map_some, Option.filter_some, Option.filter_some, SyntaxTree.kind_withoutComments]
      split <;> rfl

theorem assignedName?_withoutComments {target : SyntaxTree} (h : target.BareComments) :
    assignedName? target.withoutComments =
      (assignedName? target).map SyntaxTree.withoutComments := by
  unfold assignedName?
  rw [SyntaxTree.kind_withoutComments]
  split
  · rfl
  · rw [h.child?_eq (by decide), filter_kind_withoutComments]
  · rfl

theorem bind_name_withoutComments (h : tree.BareComments)
    {declare declare' : String → Declaration} {change : Declaration → Declaration}
    (hdeclare : ∀ text, declare' text = change (declare text)) :
    ((tree.withoutComments.child? "name").bind fun name =>
        (name.text? bytes).bind fun text => some (declare' text)) =
      ((tree.child? "name").bind fun name =>
        (name.text? bytes).bind fun text => some (declare text)).map change := by
  rw [h.child?_eq (by decide), Option.bind_map, Option.map_bind]
  congr 1
  funext name
  simp only [Function.comp_apply, SyntaxTree.text?_withoutComments]
  cases name.text? bytes with
  | none => rfl
  | some text => exact congrArg some (hdeclare text)

theorem bind_value_withoutComments (h : tree.BareComments) {field : String} (hfield : field ≠ "")
    {callable : SyntaxTree} (hcallable : ∀ value, tree.child? field = some value → callable = value)
    (name? : Option SyntaxTree) :
    ((name?.map SyntaxTree.withoutComments).bind fun name =>
        (tree.withoutComments.child? field).bind fun value => namedValue? bytes name value) =
      (name?.bind fun name =>
        (tree.child? field).bind fun value => namedValue? bytes name value).map
          (Declaration.withoutComments bytes callable) := by
  rw [h.child?_eq hfield]
  cases name? with
  | none => rfl
  | some name =>
      cases hchild : tree.child? field with
      | none => rfl
      | some value =>
          rw [hcallable value hchild]
          exact namedValue?_withoutComments (h.of_child? hchild) name

/-- Without its comments, a node declares what it declares with them, up to the parameters. -/
theorem declaration?_withoutComments (bytes : ByteArray) (h : tree.BareComments)
    (className : Option String) :
    declaration? bytes className tree.withoutComments =
      (declaration? bytes className tree).map
        (Declaration.withoutComments bytes (callableOf tree)) := by
  have hfunction (hself : callableOf tree = tree) (text : String) :
      functionNamed bytes text tree.withoutComments =
        (functionNamed bytes text tree).withoutComments bytes (callableOf tree) := by
    rw [hself]
    exact functionNamed_withoutComments h text
  unfold declaration?
  rw [SyntaxTree.kind_withoutComments]
  simp only [Option.bind_eq_bind, Option.pure_def]
  split
  · next hkind => exact bind_name_withoutComments h (hfunction (by simp [callableOf, hkind]))
  · next hkind => exact bind_name_withoutComments h (hfunction (by simp [callableOf, hkind]))
  · refine bind_name_withoutComments h ?_
    intro text
    rw [h.child?_eq (by decide)]
    rfl
  · next hkind =>
    refine bind_name_withoutComments h ?_
    intro text
    rw [hfunction (by simp [callableOf, hkind])]
    rfl
  · next hkind =>
    have hname : (tree.withoutComments.child? "name").bind identifier? =
        ((tree.child? "name").bind identifier?).map SyntaxTree.withoutComments := by
      rw [h.child?_eq (by decide), Option.bind_map, Option.map_bind]
      congr 1
      funext name
      exact identifier?_withoutComments name
    rw [← Option.bind_assoc, ← Option.bind_assoc, hname]
    apply bind_value_withoutComments h (by decide)
    intro value hchild
    simp [callableOf, hkind, hchild]
  · next hkind =>
    have hname : (tree.withoutComments.child? "left").bind assignedName? =
        ((tree.child? "left").bind assignedName?).map SyntaxTree.withoutComments := by
      rw [h.child?_eq (by decide)]
      cases hchild : tree.child? "left" with
      | none => rfl
      | some target => exact assignedName?_withoutComments (h.of_child? hchild)
    rw [← Option.bind_assoc, ← Option.bind_assoc, hname]
    apply bind_value_withoutComments h (by decide)
    intro value hchild
    simp [callableOf, hkind, hchild]
  · next hkind =>
    rw [h.child?_eq (by decide), filter_kind_withoutComments]
    apply bind_value_withoutComments h (by decide)
    intro value hchild
    simp [callableOf, hkind, hchild]
  · rfl

theorem callee?_withoutComments (h : tree.BareComments) (className : Option String) :
    callee? bytes className tree.withoutComments = callee? bytes className tree := by
  unfold callee?
  rw [SyntaxTree.kind_withoutComments, h.child?_eq (by decide)]
  cases hfunction : tree.child? "function" with
  | none => rfl
  | some function =>
      have hbare := h.of_child? hfunction
      have hobject : function.withoutComments.child? "object" =
          (function.child? "object").map SyntaxTree.withoutComments := hbare.child?_eq (by decide)
      have hproperty : function.withoutComments.child? "property" =
          (function.child? "property").map SyntaxTree.withoutComments := hbare.child?_eq (by decide)
      rw [Option.map_some]
      simp only [Option.bind_eq_bind, Option.bind_some, SyntaxTree.kind_withoutComments,
        SyntaxTree.text?_withoutComments, hobject, hproperty]
      cases function.child? "object" with
      | none => rfl
      | some object =>
          cases function.child? "property" with
          | none => rfl
          | some property => simp

end Recognised

end Lineage.JavaScript
