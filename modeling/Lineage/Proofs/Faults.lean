import Lineage.Proofs.Frequencies
import Lineage.Proofs.ReadingOnce

namespace Lineage

namespace Snapshot

/-- A file has tokens and contents, and all of the tokens lie in the contents. -/
def Covers (snapshot : Snapshot) (file : Path) : Prop :=
  ∃ index contents, snapshot.tree.tokensOf? file = some index ∧
    snapshot.files.find? file = some contents ∧
    ∀ token ∈ index.tokens, token.start ≤ token.stop ∧ token.stop ≤ contents.size

/-- What a file lacks, and the error that says so. -/
inductive Lacks (snapshot : Snapshot) (file : Path) : Error → Prop
  | tokens : snapshot.tree.tokensOf? file = none → Lacks snapshot file (.missingTokens file)
  | contents {index : TokenIndex} : snapshot.tree.tokensOf? file = some index →
      snapshot.files.find? file = none → Lacks snapshot file (.missingContents file)
  /-- The first token that is not in the contents, wherever the nodes of the file stand. -/
  | room {index : TokenIndex} {contents : ByteArray} {front back : List Token} {token : Token} :
      snapshot.tree.tokensOf? file = some index → snapshot.files.find? file = some contents →
      index.tokens.toList = front ++ token :: back →
      (∀ earlier ∈ front, earlier.start ≤ earlier.stop ∧ earlier.stop ≤ contents.size) →
      ¬(token.start ≤ token.stop ∧ token.stop ≤ contents.size) →
      Lacks snapshot file (.tokenOutOfBounds file token.start token.stop contents.size)

/-- The file that a node stands in is covered. -/
def CoversNode (snapshot : Snapshot) (id : NodeId) : Prop :=
  ∀ node, snapshot.tree.node? id = some node → snapshot.Covers node.location.file

end Snapshot

/-- The nodes of two snapshots in the order in which they are profiled. -/
def visits (before after : Snapshot) : List (Snapshot × NodeId) :=
  before.tree.levelOrder.map (before, ·) ++ after.tree.levelOrder.map (after, ·)

/-- The error of the first node that stands in a file with something missing. -/
inductive FirstFault : List (Snapshot × NodeId) → Error → Prop
  | here {snapshot : Snapshot} {id : NodeId} {node : Node} {rest : List (Snapshot × NodeId)}
      {error : Error} : snapshot.tree.node? id = some node →
      snapshot.Lacks node.location.file error → FirstFault ((snapshot, id) :: rest) error
  | later {snapshot : Snapshot} {id : NodeId} {rest : List (Snapshot × NodeId)} {error : Error} :
      snapshot.CoversNode id → FirstFault rest error → FirstFault ((snapshot, id) :: rest) error

section Sources

variable {snapshot : Snapshot} {file : Path}

theorem Profile.exists_source_iff :
    (∃ found, source snapshot file = .ok found) ↔ snapshot.Covers file := by
  constructor
  · rintro ⟨⟨index, contents⟩, hsource⟩
    obtain ⟨hindex, hcontents, hinside⟩ := of_source_eq_ok hsource
    exact ⟨index, contents, hindex, hcontents, fun token htoken =>
      isInside_iff.mp (hinside token htoken)⟩
  · rintro ⟨index, contents, hindex, hcontents, hinside⟩
    exact ⟨_, source_eq_ok hindex hcontents fun token htoken =>
      isInside_iff.mpr (hinside token htoken)⟩

theorem Profile.source_eq_error_iff {error : Error} :
    source snapshot file = .error error ↔ snapshot.Lacks file error := by
  constructor
  · intro h
    unfold source at h
    split at h
    · next hindex =>
      cases h
      exact .tokens hindex
    · next index hindex =>
      split at h
      · next hcontents =>
        cases h
        exact .contents hindex hcontents
      · next contents hcontents =>
        split at h
        · next token hfind =>
          cases h
          obtain ⟨hbad, front, back, heq, hfront⟩ := List.find?_eq_some_iff_append.mp hfind
          refine .room hindex hcontents heq ?_ ?_
          · intro earlier hearlier
            exact isInside_iff.mp (by simpa using hfront earlier hearlier)
          · rw [← isInside_iff]
            simpa using hbad
        · cases h
  · intro h
    cases h with
    | tokens hindex => simp only [source, hindex]
    | contents hindex hcontents => simp only [source, hindex, hcontents]
    | @room index contents front back token hindex hcontents heq hfront hbad =>
        have hfind : index.tokens.toList.find? (!isInside contents ·) = some token := by
          rw [List.find?_eq_some_iff_append]
          refine ⟨?_, front, back, heq, ?_⟩
          · rw [← isInside_iff] at hbad
            simpa using hbad
          · intro earlier hearlier
            simpa using isInside_iff.mpr (hfront earlier hearlier)
        simp only [source, hindex, hcontents, hfind]

theorem Snapshot.covers_or_lacks (snapshot : Snapshot) (file : Path) :
    snapshot.Covers file ∨ ∃ error, snapshot.Lacks file error := by
  cases hsource : Profile.source snapshot file with
  | error error => exact Or.inr ⟨error, Profile.source_eq_error_iff.mp hsource⟩
  | ok found => exact Or.inl (Profile.exists_source_iff.mp ⟨found, hsource⟩)

theorem Snapshot.Lacks.not_covers {error : Error} (h : snapshot.Lacks file error) :
    ¬snapshot.Covers file := by
  intro hcovers
  obtain ⟨found, hfound⟩ := Profile.exists_source_iff.mpr hcovers
  cases hfound.symm.trans (Profile.source_eq_error_iff.mpr h)

end Sources

section FirstFaults

variable {snapshot : Snapshot} {id : NodeId} {front back : List (Snapshot × NodeId)}
  {error : Error}

theorem not_firstFault_nil : ¬FirstFault [] error := by
  rintro ⟨⟩

theorem firstFault_cons_of_none (hnone : snapshot.tree.node? id = none) :
    FirstFault ((snapshot, id) :: back) error ↔ FirstFault back error := by
  constructor
  · intro h
    cases h with
    | here hnode => cases hnone.symm.trans hnode
    | later _ hrest => exact hrest
  · intro hrest
    refine .later ?_ hrest
    intro node hnode
    cases hnone.symm.trans hnode

theorem firstFault_cons_of_node {node : Node} (hnode : snapshot.tree.node? id = some node) :
    FirstFault ((snapshot, id) :: back) error ↔ snapshot.Lacks node.location.file error ∨
      snapshot.Covers node.location.file ∧ FirstFault back error := by
  constructor
  · intro h
    cases h with
    | here hown hlacks =>
        cases hnode.symm.trans hown
        exact Or.inl hlacks
    | later hcovers hrest => exact Or.inr ⟨hcovers node hnode, hrest⟩
  · rintro (hlacks | ⟨hcovers, hrest⟩)
    · exact .here hnode hlacks
    · refine .later ?_ hrest
      intro own hown
      cases hnode.symm.trans hown
      exact hcovers

theorem firstFault_append_iff :
    FirstFault (front ++ back) error ↔ FirstFault front error ∨
      (∀ visit ∈ front, visit.1.CoversNode visit.2) ∧ FirstFault back error := by
  induction front with
  | nil => simp [not_firstFault_nil]
  | cons visit rest ih =>
      obtain ⟨snapshot, id⟩ := visit
      constructor
      · intro h
        cases h with
        | here hnode hlacks => exact Or.inl (.here hnode hlacks)
        | later hcovers hrest =>
            rcases ih.mp hrest with hfirst | ⟨hall, hback⟩
            · exact Or.inl (.later hcovers hfirst)
            · exact Or.inr ⟨List.forall_mem_cons.mpr ⟨hcovers, hall⟩, hback⟩
      · rintro (h | ⟨hall, hback⟩)
        · cases h with
          | here hnode hlacks => exact .here hnode hlacks
          | later hcovers hrest => exact .later hcovers (ih.mpr (Or.inl hrest))
        · obtain ⟨hcovers, hrest⟩ := List.forall_mem_cons.mp hall
          exact .later hcovers (ih.mpr (Or.inr ⟨hrest, hback⟩))

theorem forall_not_firstFault_iff :
    (∀ error, ¬FirstFault front error) ↔ ∀ visit ∈ front, visit.1.CoversNode visit.2 := by
  induction front with
  | nil => simp [not_firstFault_nil]
  | cons visit rest ih =>
      obtain ⟨snapshot, id⟩ := visit
      rw [List.forall_mem_cons, ← ih]
      constructor
      · intro h
        have hcovers : snapshot.CoversNode id := by
          intro node hnode
          refine (snapshot.covers_or_lacks node.location.file).resolve_right ?_
          rintro ⟨error, hlacks⟩
          exact h error (.here hnode hlacks)
        exact ⟨hcovers, fun error hrest => h error (.later hcovers hrest)⟩
      · rintro ⟨hcovers, hrest⟩ error h
        cases h with
        | here hnode hlacks => exact hlacks.not_covers (hcovers _ hnode)
        | later _ hlater => exact hrest error hlater

end FirstFaults

section Profiles

variable {snapshot before after : Snapshot} {error : Error}

theorem Profile.ofNode_eq_error_iff (id : NodeId) {node : Node} :
    ofNode snapshot id node = .error error ↔ snapshot.Lacks node.location.file error := by
  rw [ofNode, map_eq_error_iff, source_eq_error_iff]

theorem Profile.exists_ofNode_iff (id : NodeId) {node : Node} :
    (∃ profile, ofNode snapshot id node = .ok profile) ↔ snapshot.Covers node.location.file := by
  rw [← exists_source_iff, exists_eq_ok_iff, exists_eq_ok_iff]
  simp only [ofNode, ne_eq, map_eq_error_iff]

theorem profiles_eq_error_iff (ids : List NodeId) :
    ((ids.filterMap fun id => (snapshot.tree.node? id).map fun node => (id, node)).mapM
      fun (id, node) => (Profile.ofNode snapshot id node).map fun profile => (id, profile)) =
        .error error ↔ FirstFault (ids.map (snapshot, ·)) error := by
  induction ids with
  | nil => simp [not_firstFault_nil, pure, Except.pure]
  | cons id rest ih =>
      cases hnode : snapshot.tree.node? id with
      | none =>
          rw [List.filterMap_cons, hnode, List.map_cons, firstFault_cons_of_none hnode]
          exact ih
      | some node =>
          rw [List.filterMap_cons, hnode, List.map_cons, firstFault_cons_of_node hnode, ← ih,
            ← Profile.ofNode_eq_error_iff id, ← Profile.exists_ofNode_iff id]
          simp only [Option.map_some, List.mapM_cons, bind_eq_error_iff, map_eq_error_iff,
            map_eq_ok_iff]
          constructor
          · rintro (hfirst | ⟨_, ⟨profile, hprofile, -⟩, hrest | ⟨_, -, ⟨⟩⟩⟩)
            · exact Or.inl hfirst
            · exact Or.inr ⟨⟨profile, hprofile⟩, hrest⟩
          · rintro (hfirst | ⟨⟨profile, hprofile⟩, hrest⟩)
            · exact Or.inl hfirst
            · exact Or.inr ⟨_, ⟨profile, hprofile, rfl⟩, Or.inl hrest⟩

theorem SnapshotProfile.ofSnapshot_eq_error_iff :
    ofSnapshot snapshot = .error error ↔
      FirstFault (snapshot.tree.levelOrder.map (snapshot, ·)) error := by
  rw [ofSnapshot, map_eq_error_iff, profiles_eq_error_iff]

theorem SnapshotProfile.exists_ofSnapshot_iff :
    (∃ profile, ofSnapshot snapshot = .ok profile) ↔
      ∀ visit ∈ snapshot.tree.levelOrder.map (snapshot, ·), visit.1.CoversNode visit.2 := by
  rw [exists_eq_ok_iff, ← forall_not_firstFault_iff]
  simp only [ne_eq, ofSnapshot_eq_error_iff]

theorem Scorer.ofSnapshots_eq_error_iff {α : Type} [Weighing α] :
    (ofSnapshots before after : Except Error (Scorer α)) = .error error ↔
      FirstFault (visits before after) error := by
  rw [visits, firstFault_append_iff, ← SnapshotProfile.exists_ofSnapshot_iff,
    ← SnapshotProfile.ofSnapshot_eq_error_iff, ← SnapshotProfile.ofSnapshot_eq_error_iff,
    ofSnapshots, bind_eq_error_iff]
  refine or_congr_right ?_
  constructor
  · rintro ⟨profile, hprofile, hrest⟩
    rcases bind_eq_error_iff.mp hrest with hafter | ⟨_, -, ⟨⟩⟩
    exact ⟨⟨profile, hprofile⟩, hafter⟩
  · rintro ⟨⟨profile, hprofile⟩, hafter⟩
    exact ⟨profile, hprofile, bind_eq_error_iff.mpr (Or.inl hafter)⟩

theorem Scorer.exists_ofSnapshots_iff {α : Type} [Weighing α] :
    (∃ scorer : Scorer α, ofSnapshots before after = .ok scorer) ↔
      ∀ visit ∈ visits before after, visit.1.CoversNode visit.2 := by
  rw [exists_eq_ok_iff, ← forall_not_firstFault_iff]
  simp only [ne_eq, ofSnapshots_eq_error_iff]

end Profiles

theorem CodeTree.Built.forall_levelOrder_iff {snapshot : Snapshot} (h : snapshot.tree.Built) :
    (∀ id ∈ snapshot.tree.levelOrder, snapshot.CoversNode id) ↔
      ∀ id < snapshot.tree.size, ¬snapshot.tree.Stuck id → snapshot.CoversNode id := by
  constructor
  · intro hall id hid hfree
    exact hall id ((h.mem_levelOrder_iff_not_stuck hid).mpr hfree)
  · intro hall id hmem
    exact hall id (h.coherent.lt_size_of_mem_levelOrder hmem) (h.not_stuck_of_mem_levelOrder hmem)

theorem forall_visits_iff {before after : Snapshot} (hbefore : before.tree.Built)
    (hafter : after.tree.Built) :
    (∀ visit ∈ visits before after, visit.1.CoversNode visit.2) ↔
      (∀ id < before.tree.size, ¬before.tree.Stuck id → before.CoversNode id) ∧
        ∀ id < after.tree.size, ¬after.tree.Stuck id → after.CoversNode id := by
  rw [← hbefore.forall_levelOrder_iff, ← hafter.forall_levelOrder_iff, visits,
    List.forall_mem_append, List.forall_mem_map, List.forall_mem_map]

/-- Two snapshots have a scorer exactly when the file of every node that can be reached has tokens
and contents that fit. Otherwise the first node that is visited and stands in another file decides
the error, even if each file is read once only. -/
theorem scoring_fails_at_the_first_fault (before after : Snapshot) (hbefore : before.tree.Built)
    (hafter : after.tree.Built) :
    (∀ (α : Type) [Weighing α],
      ((∃ scorer : Scorer α, Scorer.ofSnapshots before after = .ok scorer) ↔
        (∀ id < before.tree.size, ¬before.tree.Stuck id → before.CoversNode id) ∧
          ∀ id < after.tree.size, ¬after.tree.Stuck id → after.CoversNode id) ∧
      ∀ error, (Scorer.ofSnapshots before after : Except Error (Scorer α)) = .error error ↔
        FirstFault (visits before after) error) ∧
    SnapshotProfile.readingOnce before = SnapshotProfile.ofSnapshot before ∧
      SnapshotProfile.readingOnce after = SnapshotProfile.ofSnapshot after := by
  refine ⟨?_, SnapshotProfile.readingOnce_eq before, SnapshotProfile.readingOnce_eq after⟩
  intro α _
  rw [Scorer.exists_ofSnapshots_iff, forall_visits_iff hbefore hafter]
  exact ⟨Iff.rfl, fun error => Scorer.ofSnapshots_eq_error_iff⟩

/-- The text `x` with three tokens. The second one ends before it starts, the last one is far
outside. -/
def tornFile : Snapshot :=
  functionFile [120] [⟨0, 1⟩, ⟨1, 0⟩, ⟨7, 9⟩] 1 0 1

/-- The token that is turned around comes first, and no node of `f{x}` is at fault. -/
theorem turned_token_is_the_first_fault :
    dense.tree.Built ∧ tornFile.tree.Built ∧
      (Scorer.ofSnapshots dense tornFile : Except Error (Scorer Float)) =
        .error (.tokenOutOfBounds ⟨"a.js"⟩ 1 0 1) ∧
      FirstFault (visits dense tornFile) (.tokenOutOfBounds ⟨"a.js"⟩ 1 0 1) ∧
      SnapshotProfile.readingOnce tornFile = .error (.tokenOutOfBounds ⟨"a.js"⟩ 1 0 1) := by
  have hdense : dense.tree.Built := built_functionFile _ _ _ _ _
  have htorn : tornFile.tree.Built := built_functionFile _ _ _ _ _
  have herror : (Scorer.ofSnapshots dense tornFile : Except Error (Scorer Float)) =
      .error (.tokenOutOfBounds ⟨"a.js"⟩ 1 0 1) := rfl
  obtain ⟨hscorer, -, honce⟩ := scoring_fails_at_the_first_fault dense tornFile hdense htorn
  exact ⟨hdense, htorn, herror, ((hscorer Float).2 _).mp herror, honce.trans rfl⟩

/-- The file `x`. -/
def plainFile : Snapshot :=
  let location : Location :=
    { file := ⟨"a.js"⟩, lineStart := 1, lineStop := 1, start := 0, stop := 1 }
  { tree := (CodeTree.addRoot {} { kind := .file, name := "a.js", location }).setTokens ⟨"a.js"⟩
      { tokens := #[⟨0, 1⟩] }
    files := ⟨[(⟨"a.js"⟩, ⟨#[120]⟩)]⟩ }

theorem grown_plainFile : plainFile.tree.Grown :=
  .setTokens _ _ (.addRoot _ .empty)

/-- That file and a function in another file that is its own parent. The other file has no
tokens. -/
def strayFunction : Snapshot :=
  let location : Location :=
    { file := ⟨"b.js"⟩, lineStart := 1, lineStop := 1, start := 0, stop := 1 }
  { plainFile with
    tree := (plainFile.tree.addChild 1 { kind := .function, name := "f", location }).getD
      plainFile.tree }

/-- The function stands in a file without tokens, and scoring does not fail. -/
theorem missing_tokens_go_unnoticed :
    strayFunction.tree.Built ∧
      (∃ node, strayFunction.tree.node? 1 = some node ∧
        strayFunction.Lacks node.location.file (.missingTokens ⟨"b.js"⟩)) ∧
      ∃ scorer : Scorer Float, Scorer.ofSnapshots strayFunction strayFunction = .ok scorer := by
  refine ⟨.addChild_getD grown_plainFile.built 1 _, ⟨_, rfl, .tokens ?_⟩, _, rfl⟩
  decide +kernel

end Lineage
