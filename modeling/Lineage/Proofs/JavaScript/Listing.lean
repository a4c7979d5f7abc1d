import Lineage.JavaScript.Outline
import Lineage.Proofs.JavaScript.Positions

namespace Lineage.JavaScript

section Around

variable (bytes : ByteArray) (program : SyntaxTree)

/-- The name of the innermost class around a position. -/
def classAround? : Position → Option String
  | [] => none
  | _ :: above =>
    match (program.at? above).bind (declaration? bytes (classAround? above)) with
    | some declaration =>
      if declaration.kind = .classDecl then some declaration.name else classAround? above
    | none => classAround? above

/-- The declaration at a position, inside the class around it. -/
def declaredAt? (position : Position) : Option Declaration :=
  (program.at? position).bind (declaration? bytes (classAround? bytes program position))

/-- The innermost position around another one that declares something. -/
def declaredAround? : Position → Option Position
  | [] => none
  | _ :: above =>
    if (declaredAt? bytes program above).isSome then some above else declaredAround? above

/-- The positions from a list that declare something. -/
def declaredAmong (positions : List Position) : List Position :=
  positions.filter fun position => (declaredAt? bytes program position).isSome

/-- The name that is called at a position, inside the class around it. -/
def calledAt? (position : Position) : Option String :=
  (program.at? position).bind (callee? bytes (classAround? bytes program position))

theorem classAround?_cons (index : Nat) (above : Position) :
    classAround? bytes program (index :: above) =
      match declaredAt? bytes program above with
      | some declaration =>
        if declaration.kind = .classDecl then some declaration.name
        else classAround? bytes program above
      | none => classAround? bytes program above :=
  rfl

theorem declaredAmong_append (left right : List Position) :
    declaredAmong bytes program (left ++ right) =
      declaredAmong bytes program left ++ declaredAmong bytes program right :=
  List.filter_append left right

variable {bytes program}

theorem declaredAt?_of_at? {position : Position} {part : SyntaxTree}
    (h : program.at? position = some part) : declaredAt? bytes program position =
      declaration? bytes (classAround? bytes program position) part := by
  rw [declaredAt?, h, Option.bind_some]

theorem calledAt?_of_at? {position : Position} {part : SyntaxTree}
    (h : program.at? position = some part) : calledAt? bytes program position =
      callee? bytes (classAround? bytes program position) part := by
  rw [calledAt?, h, Option.bind_some]

theorem declaredAmong_cons_of_declared {position : Position} {declaration : Declaration}
    (h : declaredAt? bytes program position = some declaration) (positions : List Position) :
    declaredAmong bytes program (position :: positions) =
      position :: declaredAmong bytes program positions :=
  List.filter_cons_of_pos (by rw [h]; rfl)

theorem declaredAmong_cons_of_other {position : Position}
    (h : declaredAt? bytes program position = none) (positions : List Position) :
    declaredAmong bytes program (position :: positions) = declaredAmong bytes program positions :=
  List.filter_cons_of_neg (by rw [h]; exact Bool.false_ne_true)

theorem callee?_eq_none_of_declaration {className : Option String} {part : SyntaxTree}
    {declaration : Declaration} (h : declaration? bytes className part = some declaration) :
    callee? bytes className part = none := by
  have hkind : part.kind ≠ "call_expression" := by
    intro hkind
    simp [declaration?, hkind] at h
  simp [callee?, hkind]

end Around

section Numbered

variable (source : Source) (program : SyntaxTree) (file : NodeId) (number : Position → NodeId)

/-- The number of what is around a position: a declaration or the file. -/
def parentOf (position : Position) : NodeId :=
  ((declaredAround? source.bytes program position).map number).getD file

/-- The call at a position, with the number of what it belongs to. -/
def callAt? (position : Position) : Option (NodeId × String) :=
  (calledAt? source.bytes program position).map
    (parentOf source program file number position, ·)

/-- The place of a syntax node is the one that its position gives it. -/
structure Suits (place : Place) (position : Position) : Prop where
  className_eq : place.className = classAround? source.bytes program position
  container_eq : place.container = parentOf source program file number position

variable {source program file number} {place : Place} {position : Position} {next : NodeId}

theorem Suits.enter (h : Suits source program file number place position)
    {declaration : Declaration}
    (hdeclared : declaredAt? source.bytes program position = some declaration) (index : Nat) :
    Suits source program file number (place.enter (number position) declaration)
      (index :: position) where
  className_eq := by
    rw [classAround?_cons, hdeclared, ← h.className_eq]
    rfl
  container_eq := by
    simp [Place.enter, parentOf, declaredAround?, hdeclared]

theorem Suits.inside (h : Suits source program file number place position)
    (hother : declaredAt? source.bytes program position = none) (index : Nat) :
    Suits source program file number place (index :: position) where
  className_eq := by rw [classAround?_cons, hother, ← h.className_eq]
  container_eq := by
    rw [h.container_eq, parentOf, parentOf, declaredAround?, hother]
    rfl

/-- A list of positions in which the ones with a declaration have the numbers from `next` on. -/
def NumberedFrom (source : Source) (program : SyntaxTree) (number : Position → NodeId)
    (next : NodeId) (positions : List Position) : Prop :=
  (declaredAmong source.bytes program positions).map number =
    List.range' next (declaredAmong source.bytes program positions).length

theorem numberedFrom_append {left right : List Position} :
    NumberedFrom source program number next (left ++ right) ↔
      NumberedFrom source program number next left ∧ NumberedFrom source program number
        (next + (declaredAmong source.bytes program left).length) right := by
  simp only [NumberedFrom, declaredAmong_append, List.map_append, List.length_append]
  rw [← List.range'_append_1]
  constructor
  · intro h
    exact List.append_inj h (by simp)
  · rintro ⟨hleft, hright⟩
    rw [hleft, hright]

theorem numberedFrom_cons_of_declared {declaration : Declaration}
    (h : declaredAt? source.bytes program position = some declaration)
    {positions : List Position} :
    NumberedFrom source program number next (position :: positions) ↔
      number position = next ∧ NumberedFrom source program number (next + 1) positions := by
  rw [NumberedFrom, declaredAmong_cons_of_declared h, List.map_cons, List.length_cons,
    List.range'_succ, List.cons.injEq]
  rfl

theorem numberedFrom_cons_of_other (h : declaredAt? source.bytes program position = none)
    {positions : List Position} :
    NumberedFrom source program number next (position :: positions) ↔
      NumberedFrom source program number next positions := by
  rw [NumberedFrom, declaredAmong_cons_of_other h]
  rfl

end Numbered

section Outlined

variable (source : Source) (element : SyntaxTree → Declaration → Element) (program : SyntaxTree)
  (file : NodeId) (number : Position → NodeId)

/-- The declaration at a position and the element that it becomes. -/
def foundAt? (position : Position) : Option Found :=
  (program.at? position).bind fun part =>
    (declaration? source.bytes (classAround? source.bytes program position) part).map
      fun declaration =>
        { element := element part declaration, key := declaration.callKey,
          parent := parentOf source program file number position }

/-- An outline with the declarations and the calls at the listed positions. -/
structure Outlines (positions : List Position) (outline : Outline) : Prop where
  found_eq : outline.found.map some = (declaredAmong source.bytes program positions).map
    (foundAt? source element program file number)
  calls_eq : outline.calls = positions.filterMap (callAt? source program file number)

/-- Wherever a node stands in the program, the outline of `other` lists what is at and inside its
position. -/
def Outlined (part other : SyntaxTree) : Prop :=
  ∀ place next position, program.at? position = some part →
    Suits source program file number place position →
    NumberedFrom source program number next (part.positions position) →
    Outlines source element program file number (part.positions position)
      (outlineTree source place next other)

/-- Apart from what is inside, `other` calls what `part` calls and declares what it declares, with
`change` for the details that have no part in nesting and calls. -/
structure StandsFor (part other : SyntaxTree) (change : Declaration → Declaration) : Prop where
  declaration?_eq : ∀ className, declaration? source.bytes className other =
    (declaration? source.bytes className part).map change
  callee?_eq : ∀ className,
    callee? source.bytes className other = callee? source.bytes className part
  element_eq : ∀ declaration, source.element other (change declaration) = element part declaration
  callKey_eq : ∀ declaration, (change declaration).callKey = declaration.callKey
  enter_eq : ∀ (place : Place) (id : NodeId) (declaration : Declaration),
    place.enter id (change declaration) = place.enter id declaration

variable {source element program file number} {position : Position} {part other : SyntaxTree}
  {place : Place} {next : NodeId}

namespace Outlines

theorem append {left right : List Position} {first second : Outline}
    (hleft : Outlines source element program file number left first)
    (hright : Outlines source element program file number right second) :
    Outlines source element program file number (left ++ right) (first.append second) := by
  constructor
  · rw [Outline.append, List.map_append, hleft.found_eq, hright.found_eq, declaredAmong_append,
      List.map_append]
  · rw [Outline.append, hleft.calls_eq, hright.calls_eq, List.filterMap_append]

theorem length_eq {positions : List Position} {outline : Outline}
    (h : Outlines source element program file number positions outline) :
    outline.found.length = (declaredAmong source.bytes program positions).length := by
  simpa using congrArg List.length h.found_eq

theorem cons_of_declared {positions : List Position} {inner : Outline} {declaration : Declaration}
    (hat : program.at? position = some part)
    (hplace : Suits source program file number place position)
    (hdeclared : declaration? source.bytes place.className part = some declaration)
    (hinner : Outlines source element program file number positions inner) :
    Outlines source element program file number (position :: positions)
      { inner with found :=
          ⟨element part declaration, declaration.callKey, place.container⟩ :: inner.found } := by
  have hdeclaredAt : declaredAt? source.bytes program position = some declaration := by
    rw [declaredAt?_of_at? hat, ← hplace.className_eq, hdeclared]
  have hfound : foundAt? source element program file number position =
      some ⟨element part declaration, declaration.callKey, place.container⟩ := by
    rw [foundAt?, hat, Option.bind_some, ← hplace.className_eq, hdeclared, hplace.container_eq]
    rfl
  have hcall : callAt? source program file number position = none := by
    rw [callAt?, calledAt?_of_at? hat, ← hplace.className_eq,
      callee?_eq_none_of_declaration hdeclared]
    rfl
  constructor
  · rw [declaredAmong_cons_of_declared hdeclaredAt, List.map_cons, List.map_cons, hfound,
      hinner.found_eq]
  · rw [List.filterMap_cons_none hcall, ← hinner.calls_eq]

theorem cons_of_other {positions : List Position} {inner : Outline}
    (hat : program.at? position = some part)
    (hplace : Suits source program file number place position)
    (hother : declaration? source.bytes place.className part = none)
    (hinner : Outlines source element program file number positions inner) :
    Outlines source element program file number (position :: positions)
      { inner with calls := ((callee? source.bytes place.className part).map
          (place.container, ·)).toList ++ inner.calls } := by
  have hnone : declaredAt? source.bytes program position = none := by
    rw [declaredAt?_of_at? hat, ← hplace.className_eq, hother]
  have hcall : callAt? source program file number position =
      (callee? source.bytes place.className part).map (place.container, ·) := by
    rw [callAt?, calledAt?_of_at? hat, ← hplace.className_eq, hplace.container_eq]
  rw [← hcall]
  constructor
  · rw [declaredAmong_cons_of_other hnone]
    exact hinner.found_eq
  · cases hcalled : callAt? source program file number position with
    | none =>
        rw [List.filterMap_cons_none hcalled, ← hinner.calls_eq]
        rfl
    | some call =>
        rw [List.filterMap_cons_some hcalled, ← hinner.calls_eq]
        rfl

end Outlines

theorem outlineTree_of_declared {declaration : Declaration}
    (h : declaration? source.bytes place.className part = some declaration) :
    outlineTree source place next part =
      let inner := outlineForest source (place.enter next declaration) (next + 1) part.children
      { inner with found := ⟨source.element part declaration, declaration.callKey,
          place.container⟩ :: inner.found } := by
  cases part
  rw [outlineTree]
  simp only [h]
  rfl

theorem outlineTree_of_other (h : declaration? source.bytes place.className part = none) :
    outlineTree source place next part =
      let inner := outlineForest source place next part.children
      { inner with calls := ((callee? source.bytes place.className part).map
          (place.container, ·)).toList ++ inner.calls } := by
  cases part
  rw [outlineTree]
  simp only [h]
  split
  · next hcallee =>
    rw [hcallee]
    rfl
  · next hcallee =>
    rw [hcallee]
    rfl

theorem StandsFor.outlined {change : Declaration → Declaration}
    (h : StandsFor source element part other change)
    (hinside : ∀ place next position, program.at? position = some part →
      (∀ index, Suits source program file number place (index :: position)) →
      NumberedFrom source program number next
        (SyntaxTree.forestPositions position 0 part.children) →
      Outlines source element program file number
        (SyntaxTree.forestPositions position 0 part.children)
        (outlineForest source place next other.children)) :
    Outlined source element program file number part other := by
  intro place next position hat hplace hnumber
  have hdeclaredAt : declaredAt? source.bytes program position =
      declaration? source.bytes place.className part := by
    rw [declaredAt?_of_at? hat, hplace.className_eq]
  have hotherDeclares := h.declaration?_eq place.className
  rw [SyntaxTree.positions_eq] at hnumber ⊢
  cases hdeclared : declaration? source.bytes place.className part with
  | some declaration =>
      rw [hdeclared] at hdeclaredAt hotherDeclares
      obtain ⟨hnext, hnumber⟩ := (numberedFrom_cons_of_declared hdeclaredAt).mp hnumber
      have hinner := hinside (place.enter next declaration) (next + 1) position hat
        (fun index => hnext ▸ hplace.enter hdeclaredAt index) hnumber
      rw [outlineTree_of_declared hotherDeclares, h.enter_eq, h.element_eq, h.callKey_eq]
      exact hinner.cons_of_declared hat hplace hdeclared
  | none =>
      rw [hdeclared] at hdeclaredAt hotherDeclares
      have hinner := hinside place next position hat (hplace.inside hdeclaredAt)
        ((numberedFrom_cons_of_other hdeclaredAt).mp hnumber)
      rw [outlineTree_of_other hotherDeclares, h.callee?_eq]
      exact hinner.cons_of_other hat hplace hdeclared

/-- The outline of a list of nodes lists what is at and inside their positions, also when some of
them are left out that have nothing to list. -/
theorem outlines_forest (keep : SyntaxTree → Bool) (stand : SyntaxTree → SyntaxTree)
    (hnamed : ∀ part, (stand part).isNamed = part.isNamed) {parts : List SyntaxTree}
    (hkept : ∀ part ∈ parts, keep part = true →
      Outlined source element program file number part (stand part))
    (hleft : ∀ part ∈ parts, keep part = false → ∀ position, program.at? position = some part →
      Outlines source element program file number (part.positions position) {})
    {above : Position} {first : Nat}
    (hat : ∀ index child, (parts.filter SyntaxTree.isNamed)[index]? = some child →
      program.at? ((first + index) :: above) = some child)
    (hplace : ∀ index, Suits source program file number place (index :: above))
    (hnumber : NumberedFrom source program number next
      (SyntaxTree.forestPositions above first parts)) :
    Outlines source element program file number (SyntaxTree.forestPositions above first parts)
      (outlineForest source place next ((parts.filter keep).map stand)) := by
  induction parts generalizing next first with
  | nil =>
      rw [SyntaxTree.forestPositions, List.filter_nil, List.map_nil, outlineForest]
      exact ⟨rfl, rfl⟩
  | cons part parts ih =>
      obtain ⟨hkeptPart, hkept⟩ := List.forall_mem_cons.mp hkept
      obtain ⟨hleftPart, hleft⟩ := List.forall_mem_cons.mp hleft
      rw [SyntaxTree.forestPositions] at hnumber ⊢
      by_cases hpartNamed : part.isNamed = true
      · rw [List.filter_cons_of_pos hpartNamed] at hat
        rw [if_pos hpartNamed] at hnumber ⊢
        obtain ⟨hpart, hparts⟩ := numberedFrom_append.mp hnumber
        have hlater : ∀ index child, (parts.filter SyntaxTree.isNamed)[index]? = some child →
            program.at? ((first + 1 + index) :: above) = some child := by
          intro index child hchild
          have hshifted := hat (index + 1) child hchild
          rwa [Nat.add_comm index, ← Nat.add_assoc] at hshifted
        cases hkeep : keep part with
        | true =>
            have hinner := hkeptPart hkeep place next _ (hat 0 part rfl) (hplace first) hpart
            rw [List.filter_cons_of_pos hkeep, List.map_cons, outlineForest, hnamed,
              if_pos hpartNamed]
            refine hinner.append (ih hkept hleft hlater ?_)
            rwa [hinner.length_eq]
        | false =>
            have hnone := hleftPart hkeep (first :: above) (hat 0 part rfl)
            rw [List.filter_cons_of_neg (by simp [hkeep])]
            refine hnone.append (ih hkept hleft hlater ?_)
            rwa [← hnone.length_eq] at hparts
      · rw [List.filter_cons_of_neg hpartNamed] at hat
        rw [if_neg hpartNamed] at hnumber ⊢
        have hinner := ih hkept hleft hat hnumber
        cases hkeep : keep part with
        | true =>
            rwa [List.filter_cons_of_pos hkeep, List.map_cons, outlineForest, hnamed,
              if_neg hpartNamed]
        | false => rwa [List.filter_cons_of_neg (by simp [hkeep])]

theorem at?_of_namedChildren (hat : program.at? position = some part) (index : Nat)
    (child : SyntaxTree) (hchild : (part.children.filter SyntaxTree.isNamed)[index]? = some child) :
    program.at? ((0 + index) :: position) = some child := by
  rw [Nat.zero_add]
  exact SyntaxTree.at?_cons_of_getElem? hat hchild

theorem outlined (part : SyntaxTree) :
    Outlined source source.element program file number part part := by
  induction part using SyntaxTree.induct with
  | step part ih =>
      have hself : StandsFor source source.element part part id :=
        ⟨fun _ => Option.map_id_apply.symm, fun _ => rfl, fun _ => rfl, fun _ => rfl,
          fun _ _ _ => rfl⟩
      refine hself.outlined ?_
      intro place next position hat hplace hnumber
      have hforest := outlines_forest (fun _ => true) id (fun _ => rfl)
        (fun child hchild _ => ih child hchild) (fun _ _ h => absurd h (by simp))
        (at?_of_namedChildren hat) hplace hnumber
      simpa using hforest

end Outlined

end Lineage.JavaScript
