import Lineage.Proofs.Paths
import Lineage.Proofs.Scoring

/-!
Reading each file once. Profiling asks for the file of every node anew; a walk that remembers the
texts of the files it has read comes to the same profiles, and fails at the same node with the same
error. A file that is remembered was read without a fault, under whatever spelling of its path.
-/

namespace Lineage

namespace Profile

/-- The texts of the tokens of a file; the first token outside of the contents decides the error. -/
def readTexts (snapshot : Snapshot) (file : Path) (index : TokenIndex) :
    Except Error (List String) :=
  match snapshot.files.find? file with
  | none => .error (.missingContents file)
  | some contents => index.tokens.toList.mapM fun token =>
    match slice? contents token.start token.stop with
    | none => .error (.tokenOutOfBounds file token.start token.stop contents.size)
    | some bytes => .ok (Utf8.lossyText bytes)

/-- The profile of a node, given the texts of all tokens of its file by their positions. -/
def ofTexts (tree : CodeTree) (id : NodeId) (node : Node) (index : TokenIndex)
    (texts : List String) : Profile :=
  let within := index.within node.location.start node.location.stop
  let inBody := within.filter fun (token, _) =>
    node.location.bodyStart ≤ token.start && token.stop ≤ node.location.bodyStop
  { tokens := Bag.ofList (within.map fun (_, i) => texts[i]?.getD "")
    body :=
      if node.location.hasBody then some (Bag.ofList (inBody.map fun (_, i) => texts[i]?.getD ""))
      else none
    name := Bag.ofList (nameSegments node.name (tree.depth id))
    params := node.params.getD [] }

/-- Profiles a node and remembers the texts of its file; those that are known already are not read
again. -/
def visit (snapshot : Snapshot) (known : PathMap (List String)) (id : NodeId) (node : Node) :
    Except Error (PathMap (List String) × Profile) :=
  match snapshot.tree.tokensOf? node.location.file with
  | none => .error (.missingTokens node.location.file)
  | some index =>
    match known.find? node.location.file with
    | some texts => .ok (known, ofTexts snapshot.tree id node index texts)
    | none => (readTexts snapshot node.location.file index).map fun texts =>
        (known.insert node.location.file texts, ofTexts snapshot.tree id node index texts)

def visitAll (snapshot : Snapshot) :
    PathMap (List String) → List (NodeId × Node) → Except Error (List (NodeId × Profile))
  | _, [] => .ok []
  | known, (id, node) :: rest => do
    let (known, profile) ← visit snapshot known id node
    let profiles ← visitAll snapshot known rest
    return (id, profile) :: profiles

end Profile

/-- Profiles all nodes and reads each file once. -/
def SnapshotProfile.readingOnce (snapshot : Snapshot) : Except Error SnapshotProfile :=
  let nodes := snapshot.tree.levelOrder.filterMap fun id =>
    (snapshot.tree.node? id).map fun node => (id, node)
  (Profile.visitAll snapshot {} nodes).map fun profiles => { profiles }

namespace Profile

variable {snapshot : Snapshot} {file : Path} {index : TokenIndex} {contents : ByteArray}

/-- The texts that are remembered are those of the file as it is. -/
def Remembers (snapshot : Snapshot) (known : PathMap (List String)) : Prop :=
  ∀ file texts, known.find? file = some texts → ∃ index contents,
    source snapshot file = .ok (index, contents) ∧
      texts = index.tokens.toList.map (tokenText contents)

theorem isInside_iff {token : Token} :
    isInside contents token = true ↔ token.start ≤ token.stop ∧ token.stop ≤ contents.size := by
  simp [isInside]

theorem mapM_tokenText (contents : ByteArray) (file : Path) (tokens : List Token) :
    (tokens.mapM fun token =>
      match slice? contents token.start token.stop with
      | none => Except.error (Error.tokenOutOfBounds file token.start token.stop contents.size)
      | some bytes => .ok (Utf8.lossyText bytes)) =
    match tokens.find? (!isInside contents ·) with
    | some token => .error (.tokenOutOfBounds file token.start token.stop contents.size)
    | none => .ok (tokens.map (tokenText contents)) := by
  induction tokens with
  | nil => rfl
  | cons token rest ih =>
      rw [List.mapM_cons, List.find?_cons]
      by_cases hinside : token.start ≤ token.stop ∧ token.stop ≤ contents.size
      · have hslice : slice? contents token.start token.stop =
            some (contents.extract token.start token.stop) := if_pos hinside
        rw [hslice, isInside_iff.mpr hinside, ih]
        cases rest.find? (!isInside contents ·) <;> rfl
      · have hslice : slice? contents token.start token.stop = none := if_neg hinside
        have houtside : isInside contents token = false := by
          rw [Bool.eq_false_iff, ne_eq, isInside_iff]
          exact hinside
        rw [hslice, houtside]
        rfl

theorem readTexts_eq (hindex : snapshot.tree.tokensOf? file = some index) :
    readTexts snapshot file index = (source snapshot file).map fun found =>
      found.1.tokens.toList.map (tokenText found.2) := by
  simp only [readTexts, source, hindex]
  cases snapshot.files.find? file with
  | none => rfl
  | some contents =>
      simp only [mapM_tokenText]
      cases index.tokens.toList.find? (!isInside contents ·) <;> rfl

theorem getElem?_map_of_mem_within {start stop : Nat} {text : Token → String}
    {found : Token × Nat} (hfound : found ∈ index.within start stop) :
    (index.tokens.toList.map text)[found.2]?.getD "" = text found.1 := by
  have hmem := List.mem_of_mem_drop ((List.takeWhile_sublist _).subset hfound)
  rw [List.getElem?_map, List.mem_zipIdx_iff_getElem?.mp hmem]
  rfl

theorem ofNode_eq_ofTexts {id : NodeId} {node : Node}
    (hsource : source snapshot node.location.file = .ok (index, contents)) :
    ofNode snapshot id node = .ok (ofTexts snapshot.tree id node index
      (index.tokens.toList.map (tokenText contents))) := by
  have htexts : ∀ part : List (Token × Nat),
      part ⊆ index.within node.location.start node.location.stop →
      (part.map fun found =>
        (index.tokens.toList.map (tokenText contents))[found.2]?.getD "") =
      (part.map Prod.fst).map (tokenText contents) := by
    intro part hpart
    rw [List.map_map]
    refine List.map_congr_left ?_
    intro found hfound
    exact getElem?_map_of_mem_within (hpart hfound)
  simp only [ofNode, hsource, Except.map, ofTexts, spanTokens, bodySpanTokens, List.filter_map,
    htexts _ (List.Subset.refl _), htexts _ List.filter_sublist.subset]
  rfl

theorem remembers_empty (snapshot : Snapshot) : Remembers snapshot {} := by
  intro file texts hfind
  cases hfind

theorem Remembers.insert {known : PathMap (List String)} (h : Remembers snapshot known)
    (hsource : source snapshot file = .ok (index, contents)) :
    Remembers snapshot (known.insert file (index.tokens.toList.map (tokenText contents))) := by
  intro other texts hfind
  by_cases hsame : file.same other = true
  · rw [← PathMap.find?_congr _ hsame, PathMap.find?_insert_self] at hfind
    cases hfind
    obtain ⟨hindex, hcontents, hinside⟩ := of_source_eq_ok hsource
    refine ⟨index, contents, source_eq_ok ?_ ?_ hinside, rfl⟩
    · rw [CodeTree.tokensOf?, ← PathMap.find?_congr _ hsame]
      exact hindex
    · rw [← PathMap.find?_congr _ hsame]
      exact hcontents
  · rw [PathMap.find?_insert_of_not_same _ _ (Bool.eq_false_iff.mpr hsame)] at hfind
    exact h other texts hfind

/-- A visit profiles the node as it is, and what is remembered stays true. -/
theorem Remembers.visit {known : PathMap (List String)} (h : Remembers snapshot known)
    (id : NodeId) (node : Node) :
    (visit snapshot known id node).map Prod.snd = ofNode snapshot id node ∧
      ∀ result, Profile.visit snapshot known id node = .ok result →
        Remembers snapshot result.1 := by
  unfold Profile.visit
  split
  · next hindex =>
    refine ⟨?_, fun result hresult => by cases hresult⟩
    simp only [ofNode, source, hindex]
    rfl
  · next index hindex =>
    split
    · next texts hknown =>
      obtain ⟨own, contents, hsource, rfl⟩ := h _ _ hknown
      cases hindex.symm.trans (of_source_eq_ok hsource).1
      refine ⟨(ofNode_eq_ofTexts hsource).symm, ?_⟩
      rintro _ ⟨⟩
      exact h
    · rw [readTexts_eq hindex]
      cases hsource : source snapshot node.location.file with
      | error error =>
          refine ⟨?_, fun result hresult => by cases hresult⟩
          rw [ofNode, hsource]
          rfl
      | ok found =>
          obtain ⟨own, contents⟩ := found
          cases hindex.symm.trans (of_source_eq_ok hsource).1
          refine ⟨(ofNode_eq_ofTexts hsource).symm, ?_⟩
          rintro _ ⟨⟩
          exact h.insert hsource

theorem Remembers.visitAll {known : PathMap (List String)} (h : Remembers snapshot known)
    (nodes : List (NodeId × Node)) :
    visitAll snapshot known nodes = nodes.mapM fun (id, node) =>
      (ofNode snapshot id node).map fun profile => (id, profile) := by
  induction nodes generalizing known with
  | nil => rfl
  | cons entry rest ih =>
      obtain ⟨id, node⟩ := entry
      obtain ⟨hprofile, hknown⟩ := h.visit id node
      simp only [List.mapM_cons, Profile.visitAll, ← hprofile]
      cases hvisit : Profile.visit snapshot known id node with
      | error error => rfl
      | ok result =>
          change Profile.visitAll snapshot result.1 rest >>= _ = _
          rw [ih (hknown result hvisit)]
          rfl

end Profile

theorem SnapshotProfile.readingOnce_eq (snapshot : Snapshot) :
    readingOnce snapshot = ofSnapshot snapshot := by
  rw [readingOnce, (Profile.remembers_empty snapshot).visitAll, ofSnapshot]

end Lineage
