import Lineage.Proofs.NoChanges

namespace Lineage

open Float.Model (UnpackedFloat)

theorem isFinite_of_between {low value high : UnpackedFloat} (hlow : low.isFinite = true)
    (hhigh : high.isFinite = true) (hle : low.le value = true) (hle' : value.le high = true) :
    value.isFinite = true := by
  cases value with
  | zero | finite => rfl
  | notANumber => cases high <;> cases hle'
  | infinity sign =>
      cases sign with
      | positive =>
          cases high with
          | zero | finite => cases hle'
          | infinity | notANumber => cases hhigh
      | negative =>
          cases low with
          | zero | finite => cases hle
          | infinity | notANumber => cases hlow

theorem Config.isValid_of_unit {config : Config} (hlow : 0 ≤ config.threshold)
    (hhigh : config.threshold ≤ 1) : config.isValid = true := by
  have hfinite : config.threshold.isFinite = true := by
    apply @isFinite_of_between (0 : Float).toModel.unpack _ (1 : Float).toModel.unpack
    · decide
    · decide
    · exact of_decide_eq_true hlow
    · exact of_decide_eq_true hhigh
  rw [isValid, hfinite, decide_eq_true hlow, decide_eq_true hhigh]
  rfl

namespace JavaScript

namespace SyntaxTree

/-- A tree and all that it is made of. -/
inductive Within (part : SyntaxTree) : SyntaxTree → Prop
  | self : Within part part
  | inside {child tree : SyntaxTree} :
      Within part child → child ∈ tree.children → Within part tree

theorem Fits.child {tree child : SyntaxTree} {size : Nat} (h : tree.Fits size)
    (hchild : child ∈ tree.children) : child.Fits size := by
  obtain ⟨hwell, hstop⟩ := h
  obtain ⟨-, hchildWell, hchildStop⟩ := hwell.between_children.of_mem hchild
  exact ⟨hchildWell, Nat.le_trans hchildStop hstop⟩

theorem Fits.within {tree part : SyntaxTree} {size : Nat} (h : tree.Fits size)
    (hpart : part.Within tree) : part.Fits size := by
  induction hpart with
  | self => exact h
  | inside _ hchild ih => exact ih (h.child hchild)

end SyntaxTree

/-- Adds declarations below their parents, unless a parent is missing. -/
def addFound? (tree : CodeTree) (found : List Found) : Option CodeTree :=
  found.foldlM (fun tree f => tree.addChild f.parent f.element) tree

/-- Adds a file, unless a declaration in it has no parent. -/
def addFile? (tree : CodeTree) (source : Source) (program : SyntaxTree) : Option CodeTree :=
  let outline := outlineTree source { container := tree.size } (tree.size + 1) program
  let root := (tree.addRoot (fileElement source)).setTokens source.file
    { tokens := program.tokens.toArray }
  (addFound? root outline.found).map fun declared =>
    addCalls (tree.size + 1) outline.found declared outline.calls

/-- The code tree of a set of files, unless a declaration in them has no parent. -/
def outline? (grammar : Grammar) (files : PathMap ByteArray) : Option CodeTree :=
  files.entries.foldlM (fun tree entry => addFile? tree ⟨entry.1, entry.2⟩ (grammar entry.2)) {}

theorem addFound?_eq_some {source : Source} {tree : CodeTree} {found : List Found}
    (h : Placed source tree.size found) : addFound? tree found = some (addFound tree found) := by
  refine placed_induction (motive := fun tree found =>
    addFound? tree found = some (addFound tree found)) (fun _ => rfl) ?_ h
  intro tree next f rest _ _ _ hadd _ ih
  rw [addFound?, List.foldlM_cons, hadd, addFound_cons rest hadd]
  exact ih

theorem addFile?_eq_some (tree : CodeTree) (source : Source) (program : SyntaxTree) :
    addFile? tree source program = some (addFile tree source program) := by
  have hplaced : Placed source
      ((tree.addRoot (fileElement source)).setTokens source.file
        { tokens := program.tokens.toArray }).size
      (outlineTree source { container := tree.size } (tree.size + 1) program).found := by
    change Placed source (tree.addRoot (fileElement source)).size _
    rw [CodeTree.size_addRoot]
    exact placed_outlineTree source program _ _ (Nat.lt_succ_self tree.size)
  rw [addFile?, addFound?_eq_some hplaced]
  rfl

theorem outline?_eq_some (grammar : Grammar) (files : PathMap ByteArray) :
    outline? grammar files = some (outline grammar files) := by
  have hfold (entries : List (Path × ByteArray)) (tree : CodeTree) :
      entries.foldlM (fun tree entry => addFile? tree ⟨entry.1, entry.2⟩ (grammar entry.2)) tree =
        some (entries.foldl (fun tree entry =>
          addFile tree ⟨entry.1, entry.2⟩ (grammar entry.2)) tree) := by
    induction entries generalizing tree with
    | nil => rfl
    | cons entry rest ih =>
        rw [List.foldlM_cons, addFile?_eq_some]
        exact ih _
  exact hfold files.entries {}

/-- Reading the files takes no step that fails: no declaration is without its parent, and the text of
every syntax node lies in its file. -/
structure ReadsSafely (grammar : Grammar) (files : PathMap ByteArray) : Prop where
  outline_eq : outline? grammar files = some (snapshot grammar files).tree
  texts : ∀ entry ∈ files.entries, ∀ part : SyntaxTree, part.Within (grammar entry.2) →
    (slice? entry.2 part.start part.stop).isSome = true

theorem Parsed.readsSafely {grammar : Grammar} {files : PathMap ByteArray}
    (h : Parsed grammar files) : ReadsSafely grammar files := by
  refine ⟨outline?_eq_some grammar files, ?_⟩
  intro entry hentry part hpart
  obtain ⟨hwell, hstop⟩ := (h.fits entry hentry).within hpart
  exact (slice?_isSome_iff _ _ _).mpr ⟨hwell.start_le_stop, hstop⟩

/-- Files with well-formed syntax trees can be read and scored at any threshold in the unit
interval. -/
theorem parsed_files_are_accepted (grammar : Grammar) (before after : PathMap ByteArray)
    (hbefore : Parsed grammar before) (hafter : Parsed grammar after) :
    ReadsSafely grammar before ∧ ReadsSafely grammar after ∧
      ∀ config : Config, 0 ≤ config.threshold → config.threshold ≤ 1 →
        config.validate = .ok config ∧
          (∃ scorer : Scorer Float, Scorer.ofSnapshots (snapshot grammar before)
            (snapshot grammar after) = .ok scorer) ∧
          ∃ found, findRelationships config (snapshot grammar before)
            (snapshot grammar after) = .ok found := by
  refine ⟨hbefore.readsSafely, hafter.readsSafely, ?_⟩
  intro config hlow hhigh
  have hvalid : config.isValid = true := Config.isValid_of_unit hlow hhigh
  obtain ⟨scorer, hscorer⟩ := Scorable.exists_scorer Float hbefore.scorable hafter.scorable
  exact ⟨if_pos hvalid, ⟨scorer, hscorer⟩, _, findRelationships_eq_ok hvalid hscorer⟩

theorem arrow_files_are_accepted :
    Parsed arrowGrammar (arrowFiles ["b.js"]) ∧ Parsed arrowGrammar (arrowFiles ["lib/c.js"]) ∧
      ReadsSafely arrowGrammar (arrowFiles ["b.js"]) ∧
      Config.validate { threshold := 1 } = .ok { threshold := 1 } ∧
      ∃ found, findRelationships { threshold := 1 } (snapshot arrowGrammar (arrowFiles ["b.js"]))
        (snapshot arrowGrammar (arrowFiles ["lib/c.js"])) = .ok found := by
  have hbefore : Parsed arrowGrammar (arrowFiles ["b.js"]) :=
    (readable_arrowFiles (by decide) (by decide)).parsed
  have hafter : Parsed arrowGrammar (arrowFiles ["lib/c.js"]) :=
    (readable_arrowFiles (by decide) (by decide)).parsed
  obtain ⟨hreads, -, haccepts⟩ :=
    parsed_files_are_accepted arrowGrammar _ _ hbefore hafter
  obtain ⟨hvalid, -, hfound⟩ := haccepts { threshold := 1 } (by decide) (by decide)
  exact ⟨hbefore, hafter, hreads, hvalid, hfound⟩

end JavaScript

end Lineage
