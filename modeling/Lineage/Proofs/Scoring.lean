import Lineage.Similarity
import Lineage.Proofs.Outcomes

namespace Lineage

/-- Each node stands in a file with contents and with tokens that lie in them. -/
def Scorable (snapshot : Snapshot) : Prop :=
  ∀ id node, snapshot.tree.node? id = some node →
    ∃ source, Profile.source snapshot node.location.file = .ok source

theorem Profile.source_eq_ok {snapshot : Snapshot} {file : Path} {index : TokenIndex}
    {contents : ByteArray} (hindex : snapshot.tree.tokensOf? file = some index)
    (hcontents : snapshot.files.find? file = some contents)
    (hinside : ∀ token ∈ index.tokens, isInside contents token = true) :
    source snapshot file = .ok (index, contents) := by
  have hnone : index.tokens.toList.find? (!isInside contents ·) = none := by
    rw [List.find?_eq_none]
    intro token htoken
    rw [hinside token (Array.mem_toList_iff.mp htoken)]
    decide
  simp only [source, hindex, hcontents, hnone]

theorem Profile.of_source_eq_ok {snapshot : Snapshot} {file : Path} {index : TokenIndex}
    {contents : ByteArray} (h : source snapshot file = .ok (index, contents)) :
    snapshot.tree.tokensOf? file = some index ∧ snapshot.files.find? file = some contents ∧
      ∀ token ∈ index.tokens, isInside contents token = true := by
  unfold source at h
  split at h
  · cases h
  · next hindex =>
    split at h
    · cases h
    · next hcontents =>
      split at h
      · cases h
      · next hnone =>
        cases h
        refine ⟨hindex, hcontents, ?_⟩
        intro token htoken
        simpa using List.find?_eq_none.mp hnone token (Array.mem_toList_iff.mpr htoken)

theorem SnapshotProfile.exists_mem_profiles {snapshot : Snapshot} {profile : SnapshotProfile}
    (h : ofSnapshot snapshot = .ok profile) {id : NodeId} (hid : id ∈ snapshot.tree.levelOrder)
    {node : Node} (hnode : snapshot.tree.node? id = some node) :
    ∃ p, (id, p) ∈ profile.profiles ∧ Profile.ofNode snapshot id node = .ok p := by
  obtain ⟨profiles, hprofiles, rfl⟩ := map_eq_ok_iff.mp h
  have hentry : (id, node) ∈ snapshot.tree.levelOrder.filterMap fun id =>
      (snapshot.tree.node? id).map fun node => (id, node) :=
    List.mem_filterMap.mpr ⟨id, hid, by simp [hnode]⟩
  obtain ⟨_, hmem, hresult⟩ := exists_result_of_mem hprofiles hentry
  obtain ⟨p, hprofile, rfl⟩ := map_eq_ok_iff.mp hresult
  exact ⟨p, hmem, hprofile⟩

theorem Scorable.exists_profile {snapshot : Snapshot} (h : Scorable snapshot) :
    ∃ profile, SnapshotProfile.ofSnapshot snapshot = .ok profile := by
  have hprofiles : ∀ entry ∈ snapshot.tree.levelOrder.filterMap fun id =>
      (snapshot.tree.node? id).map fun node => (id, node),
      ∃ result, (Profile.ofNode snapshot entry.1 entry.2).map (fun profile => (entry.1, profile)) =
        .ok result := by
    rintro ⟨id, node⟩ hentry
    obtain ⟨_, -, hnode⟩ := List.mem_filterMap.mp hentry
    obtain ⟨_, hnode, heq⟩ := Option.map_eq_some_iff.mp hnode
    cases heq
    obtain ⟨source, hsource⟩ := h id node hnode
    exact ⟨_, map_eq_ok_iff.mpr ⟨_, map_eq_ok_iff.mpr ⟨source, hsource, rfl⟩, rfl⟩⟩
  obtain ⟨profiles, hresult⟩ := exists_mapM_eq_ok hprofiles
  exact ⟨_, map_eq_ok_iff.mpr ⟨profiles, hresult, rfl⟩⟩

theorem Scorable.exists_scorer (α : Type) [Weighing α] {before after : Snapshot}
    (hbefore : Scorable before) (hafter : Scorable after) :
    ∃ scorer : Scorer α, Scorer.ofSnapshots before after = .ok scorer := by
  obtain ⟨beforeProfile, hbeforeProfile⟩ := hbefore.exists_profile
  obtain ⟨afterProfile, hafterProfile⟩ := hafter.exists_profile
  exact ⟨_, bind_eq_ok_iff.mpr ⟨beforeProfile, hbeforeProfile,
    bind_eq_ok_iff.mpr ⟨afterProfile, hafterProfile, rfl⟩⟩⟩

end Lineage
