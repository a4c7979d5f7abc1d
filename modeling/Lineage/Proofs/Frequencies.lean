import Lineage.Proofs.Ancestry
import Lineage.Proofs.Bags
import Lineage.Proofs.ExactWeights
import Lineage.Proofs.Formatting
import Lineage.Proofs.Windows

namespace Lineage

/-- What two declarations are compared by. -/
inductive Aspect where
  | tokens
  | body
  | name
  deriving Repr, DecidableEq

/-- The aspect whose occurrences decide on the weights. Tokens of a body weigh what they weigh
anywhere. -/
def Aspect.counted : Aspect → Aspect
  | tokens | body => tokens
  | name => name

namespace Profile

def bag (profile : Profile) : Aspect → Bag String
  | .tokens => profile.tokens
  | .body => profile.bodyTokens
  | .name => profile.name

theorem proper_bag_empty (aspect : Aspect) : (({} : Profile).bag aspect).Proper := by
  cases aspect <;> exact .empty

theorem count_bag_empty (aspect : Aspect) (token : String) :
    (({} : Profile).bag aspect).count token = 0 := by
  cases aspect <;> rfl

variable {snapshot : Snapshot} {id : NodeId} {node : Node} {profile : Profile}

theorem proper_bag (h : ofNode snapshot id node = .ok profile) (aspect : Aspect) :
    (profile.bag aspect).Proper := by
  obtain ⟨⟨index, contents⟩, -, rfl⟩ := map_eq_ok_iff.mp h
  cases aspect with
  | tokens | name => exact Bag.proper_ofList _
  | body =>
      by_cases hbody : node.location.hasBody = true
      · simpa [bag, bodyTokens, hbody] using Bag.proper_ofList _
      · simpa [bag, bodyTokens, hbody] using Bag.Proper.empty

theorem count_pos_of_body (h : ofNode snapshot id node = .ok profile) {text : String}
    (htext : 0 < profile.bodyTokens.count text) : 0 < profile.tokens.count text := by
  obtain ⟨⟨index, contents⟩, -, rfl⟩ := map_eq_ok_iff.mp h
  by_cases hbody : node.location.hasBody = true
  · simp only [bodyTokens, hbody, if_true, Option.getD_some, Bag.count_ofList] at htext ⊢
    rw [List.count_pos_iff] at htext ⊢
    exact (List.filter_sublist.map _).subset htext
  · simp [bodyTokens, hbody] at htext

theorem count_pos_counted (h : ofNode snapshot id node = .ok profile) {aspect : Aspect}
    {text : String} (htext : 0 < (profile.bag aspect).count text) :
    0 < (profile.bag aspect.counted).count text := by
  cases aspect with
  | tokens | name => exact htext
  | body => exact count_pos_of_body h htext

end Profile

theorem count_flatMap_keys {α κ : Type} [DecidableEq κ] {items : List α} {bag : α → Bag κ}
    (h : ∀ item ∈ items, (bag item).Proper) (key : κ) :
    (items.flatMap fun item => (bag item).keys).count key =
      items.countP fun item => 0 < (bag item).count key := by
  induction items with
  | nil => rfl
  | cons item rest ih =>
      obtain ⟨hitem, hrest⟩ := List.forall_mem_cons.mp h
      rw [List.flatMap_cons, List.count_append, ih hrest, List.countP_cons, Nat.add_comm]
      congr 1
      by_cases hkey : key ∈ (bag item).keys
      · simp [List.count_eq_one_of_mem hitem.nodup_keys hkey, hitem.mem_keys_iff.mp hkey]
      · simp [List.count_eq_zero.mpr hkey, Bag.count_eq_zero_of_notMem hkey]

namespace SnapshotProfile

/-- In how many nodes each token of an aspect occurs. -/
def frequency (profile : SnapshotProfile) : Aspect → Bag String
  | .tokens | .body => profile.tokenFrequency
  | .name => profile.nameFrequency

theorem frequency_eq (profile : SnapshotProfile) (aspect : Aspect) :
    profile.frequency aspect =
      Bag.ofList (profile.profiles.flatMap fun entry => (entry.2.bag aspect.counted).keys) := by
  cases aspect <;> rfl

theorem find_cases (profile : SnapshotProfile) (id : NodeId) :
    (id ∉ profile.profiles.map Prod.fst ∧ profile.find id = {}) ∨
      (id, profile.find id) ∈ profile.profiles := by
  by_cases hid : id ∈ profile.profiles.map Prod.fst
  · refine Or.inr ?_
    cases hlookup : profile.profiles.lookup id with
    | none =>
        obtain ⟨entry, hentry, rfl⟩ := List.mem_map.mp hid
        simpa using List.lookup_eq_none_iff.mp hlookup entry hentry
    | some p =>
        rw [find, hlookup, Option.getD_some]
        exact mem_of_lookup_eq_some hlookup
  · refine Or.inl ⟨hid, ?_⟩
    rw [find, lookup_eq_none_of_notMem hid, Option.getD_none]

theorem mem_profiles_of_count_pos {profile : SnapshotProfile} {id : NodeId} (aspect : Aspect)
    {token : String} (htoken : 0 < ((profile.find id).bag aspect).count token) :
    (id, profile.find id) ∈ profile.profiles := by
  rcases profile.find_cases id with ⟨-, hempty⟩ | hmem
  · rw [hempty, Profile.count_bag_empty] at htoken
    exact absurd htoken (Nat.lt_irrefl 0)
  · exact hmem

section Profiled

variable {snapshot : Snapshot} {profile : SnapshotProfile}
  (h : ofSnapshot snapshot = .ok profile) {id : NodeId}

include h

theorem of_mem_profiles {p : Profile} (hmem : (id, p) ∈ profile.profiles) :
    id ∈ snapshot.tree.levelOrder ∧
      ∃ node, snapshot.tree.node? id = some node ∧ Profile.ofNode snapshot id node = .ok p := by
  obtain ⟨profiles, hprofiles, rfl⟩ := map_eq_ok_iff.mp h
  obtain ⟨⟨_, node⟩, hentry, hresult⟩ := exists_input_of_mem hprofiles hmem
  obtain ⟨own, hown, hnode⟩ := List.mem_filterMap.mp hentry
  obtain ⟨_, hnode, heq⟩ := Option.map_eq_some_iff.mp hnode
  cases heq
  obtain ⟨_, hprofile, heq⟩ := map_eq_ok_iff.mp hresult
  cases heq
  exact ⟨hown, node, hnode, hprofile⟩

theorem ofNode_eq_find (hid : id ∈ snapshot.tree.levelOrder) {node : Node}
    (hnode : snapshot.tree.node? id = some node) :
    Profile.ofNode snapshot id node = .ok (profile.find id) := by
  obtain ⟨_, hprofiled, -⟩ := exists_mem_profiles h hid hnode
  rcases profile.find_cases id with ⟨hmissing, -⟩ | hmem
  · exact absurd (List.mem_map_of_mem hprofiled) hmissing
  · obtain ⟨-, _, hnode', hprofile⟩ := of_mem_profiles h hmem
    cases hnode.symm.trans hnode'
    exact hprofile

theorem map_fst_profiles (hcoherent : snapshot.tree.Coherent) :
    profile.profiles.map Prod.fst = snapshot.tree.levelOrder := by
  obtain ⟨profiles, hprofiles, rfl⟩ := map_eq_ok_iff.mp h
  have hinputs : (snapshot.tree.levelOrder.filterMap fun id =>
      (snapshot.tree.node? id).map fun node => (id, node)).map Prod.fst =
        snapshot.tree.levelOrder := by
    rw [List.map_filterMap]
    refine (List.filterMap_congr ?_).trans List.filterMap_some
    intro id hid
    obtain ⟨node, hnode⟩ :=
      CodeTree.exists_node?_of_lt_size (hcoherent.lt_size_of_mem_levelOrder hid)
    simp [hnode]
  rw [← hinputs, ← List.forall₂_eq_eq_eq, List.forall₂_map_left_iff, List.forall₂_map_right_iff]
  refine (mapM_eq_ok_iff.mp hprofiles).flip.imp ?_
  intro result input hresult
  obtain ⟨_, -, rfl⟩ := map_eq_ok_iff.mp hresult
  rfl

theorem find_eq_empty (hid : id ∉ snapshot.tree.levelOrder) : profile.find id = {} := by
  rcases profile.find_cases id with ⟨-, hempty⟩ | hmem
  · exact hempty
  · exact absurd (of_mem_profiles h hmem).1 hid

theorem proper_bag_of_mem {entry : NodeId × Profile} (hentry : entry ∈ profile.profiles)
    (aspect : Aspect) : (entry.2.bag aspect).Proper := by
  obtain ⟨-, node, -, hprofile⟩ := of_mem_profiles h hentry
  exact Profile.proper_bag hprofile aspect

theorem proper_bag_find (id : NodeId) (aspect : Aspect) :
    ((profile.find id).bag aspect).Proper := by
  rcases profile.find_cases id with ⟨-, hempty⟩ | hmem
  · rw [hempty]
    exact Profile.proper_bag_empty aspect
  · exact proper_bag_of_mem h hmem aspect

theorem count_frequency_pos {aspect : Aspect} {token : String}
    (htoken : 0 < ((profile.find id).bag aspect).count token) :
    0 < (profile.frequency aspect).count token := by
  have hmem := mem_profiles_of_count_pos aspect htoken
  obtain ⟨-, node, -, hprofile⟩ := of_mem_profiles h hmem
  have hcounted := Profile.count_pos_counted hprofile htoken
  rw [frequency_eq, Bag.count_ofList, List.count_pos_iff]
  exact List.mem_flatMap.mpr ⟨_, hmem, (proper_bag_of_mem h hmem _).mem_keys_iff.mpr hcounted⟩

/-- A frequency counts the nodes whose bag has a token. Nodes that are not reached have none. -/
theorem count_frequency (hcoherent : snapshot.tree.Coherent) (aspect : Aspect) (token : String) :
    (profile.frequency aspect).count token =
      (List.range snapshot.tree.size).countP fun id =>
        0 < ((profile.find id).bag aspect.counted).count token := by
  have hnodup : (profile.profiles.map Prod.fst).Nodup := by
    rw [map_fst_profiles h hcoherent]
    exact hcoherent.nodup_levelOrder
  calc
    _ = profile.profiles.countP fun entry =>
          0 < (entry.2.bag aspect.counted).count token := by
        rw [frequency_eq, Bag.count_ofList]
        exact count_flatMap_keys (fun entry hentry => proper_bag_of_mem h hentry _) token
    _ = (profile.profiles.map Prod.fst).countP fun id =>
          0 < ((profile.find id).bag aspect.counted).count token := by
        rw [List.countP_map]
        refine List.countP_congr ?_
        rintro ⟨id, p⟩ hentry
        rw [Function.comp_apply, find, lookup_eq_some_of_mem hnodup hentry, Option.getD_some]
    _ = _ := by
        rw [map_fst_profiles h hcoherent, List.countP_eq_length_filter,
          List.countP_eq_length_filter]
        refine List.Perm.length_eq ?_
        rw [List.perm_ext_iff_of_nodup (hcoherent.nodup_levelOrder.filter _)
          (List.nodup_range.filter _)]
        intro id
        simp only [List.mem_filter, List.mem_range, decide_eq_true_eq, and_congr_left_iff]
        intro htoken
        refine ⟨hcoherent.lt_size_of_mem_levelOrder, ?_⟩
        intro _
        exact (of_mem_profiles h (mem_profiles_of_count_pos _ htoken)).1

theorem count_frequency_le (hcoherent : snapshot.tree.Coherent) (aspect : Aspect)
    (token : String) : (profile.frequency aspect).count token ≤ snapshot.tree.size := by
  rw [count_frequency h hcoherent]
  exact List.countP_le_length.trans_eq List.length_range

end Profiled

end SnapshotProfile

theorem Weights.lookup_ofFrequency {α : Type} [Weighing α] (documents : Nat)
    {frequency : Bag String} {token : String} (h : 0 < frequency.count token) :
    (ofFrequency documents frequency : Weights α).lookup token =
      some (Weighing.rarity documents (frequency.count token)) := by
  obtain ⟨entries⟩ := frequency
  simp only [ofFrequency, Bag.count] at h ⊢
  induction entries with
  | nil => cases h
  | cons entry rest ih =>
      obtain ⟨key, count⟩ := entry
      by_cases hkey : (token == key) = true
      · simp [List.lookup_cons, hkey]
      · simp only [List.lookup_cons, hkey] at h
        simpa [List.lookup_cons, hkey] using ih h

namespace Scorer

variable {α : Type} [Weighing α]

/-- The weights of the tokens of an aspect. -/
def weights (scorer : Scorer α) : Aspect → Weights α
  | .tokens | .body => scorer.tokenWeights
  | .name => scorer.nameWeights

/-- The number of documents that a token is said to occur in: the larger of its two frequencies. -/
def documentCount (scorer : Scorer α) (aspect : Aspect) (token : String) : Nat :=
  max ((scorer.before.frequency aspect).count token) ((scorer.after.frequency aspect).count token)

theorem ofSnapshots_eq_ok_iff {before after : Snapshot} {scorer : Scorer α} :
    ofSnapshots before after = .ok scorer ↔
      SnapshotProfile.ofSnapshot before = .ok scorer.before ∧
      SnapshotProfile.ofSnapshot after = .ok scorer.after ∧
      scorer = .ofProfiles (max before.tree.size after.tree.size) scorer.before scorer.after := by
  constructor
  · intro h
    obtain ⟨p, hp, hrest⟩ := bind_eq_ok_iff.mp h
    obtain ⟨q, hq, heq⟩ := bind_eq_ok_iff.mp hrest
    cases heq
    exact ⟨hp, hq, rfl⟩
  · rintro ⟨hp, hq, heq⟩
    rw [ofSnapshots, hp, hq, heq]
    rfl

theorem weights_ofProfiles (documents : Nat) (before after : SnapshotProfile) (aspect : Aspect) :
    (ofProfiles documents before after : Scorer α).weights aspect =
      .ofFrequency documents ((before.frequency aspect).union (after.frequency aspect)) := by
  cases aspect <;> rfl

omit [Weighing α] in
theorem count_union_frequency (scorer : Scorer α) (aspect : Aspect) (token : String) :
    ((scorer.before.frequency aspect).union (scorer.after.frequency aspect)).count token =
      scorer.documentCount aspect token := by
  refine Bag.count_union _ ?_ token
  rw [SnapshotProfile.frequency_eq]
  exact Bag.proper_ofList _

section Scored

variable {before after : Snapshot} {scorer : Scorer α} (h : ofSnapshots before after = .ok scorer)
  {aspect : Aspect} {side : Side} {id : NodeId} {token : String}

include h

theorem weights_eq (aspect : Aspect) :
    scorer.weights aspect = .ofFrequency (max before.tree.size after.tree.size)
      ((scorer.before.frequency aspect).union (scorer.after.frequency aspect)) := by
  obtain ⟨-, -, heq⟩ := ofSnapshots_eq_ok_iff.mp h
  rw [heq]
  exact weights_ofProfiles _ _ _ aspect

theorem proper_bag_profile (side : Side) (id : NodeId) (aspect : Aspect) :
    ((scorer.profile side id).bag aspect).Proper := by
  obtain ⟨hbefore, hafter, -⟩ := ofSnapshots_eq_ok_iff.mp h
  cases side with
  | before => exact SnapshotProfile.proper_bag_find hbefore id aspect
  | after => exact SnapshotProfile.proper_bag_find hafter id aspect

theorem documentCount_pos (htoken : 0 < ((scorer.profile side id).bag aspect).count token) :
    0 < scorer.documentCount aspect token := by
  obtain ⟨hbefore, hafter, -⟩ := ofSnapshots_eq_ok_iff.mp h
  cases side with
  | before => exact lt_max_of_lt_left (SnapshotProfile.count_frequency_pos hbefore htoken)
  | after => exact lt_max_of_lt_right (SnapshotProfile.count_frequency_pos hafter htoken)

theorem documentCount_le (hbefore : before.tree.Coherent) (hafter : after.tree.Coherent)
    (aspect : Aspect) (token : String) :
    scorer.documentCount aspect token ≤ max before.tree.size after.tree.size := by
  obtain ⟨hbeforeProfile, hafterProfile, -⟩ := ofSnapshots_eq_ok_iff.mp h
  exact max_le_max (SnapshotProfile.count_frequency_le hbeforeProfile hbefore aspect token)
    (SnapshotProfile.count_frequency_le hafterProfile hafter aspect token)

theorem lookup_weights (hpos : 0 < scorer.documentCount aspect token) :
    (scorer.weights aspect).lookup token =
      some (Weighing.rarity (max before.tree.size after.tree.size)
        (scorer.documentCount aspect token)) := by
  rw [← count_union_frequency] at hpos ⊢
  rw [weights_eq h, Weights.lookup_ofFrequency _ hpos]

end Scored

end Scorer

/-- The tokens of every file are in order. -/
def OrderedTokens (snapshot : Snapshot) : Prop :=
  ∀ file index, snapshot.tree.tokensOf? file = some index → index.Ordered

/-- The bags of a profile count the tokens of a file that lie in an extent, and in its body. -/
structure Profile.Counts (index : TokenIndex) (contents : ByteArray) (location : Location)
    (profile : Profile) : Prop where
  tokens : ∀ text, profile.tokens.count text = index.tokens.toList.countP fun token =>
    (location.start ≤ token.start ∧ token.stop ≤ location.stop) ∧
      Utf8.lossyText (contents.extract token.start token.stop) = text
  body_isSome_iff : profile.body.isSome = true ↔ location.bodyStart ≠ location.start
  body : ∀ bag, profile.body = some bag → ∀ text,
    bag.count text = index.tokens.toList.countP fun token =>
      (location.start ≤ token.start ∧ token.stop ≤ location.stop) ∧
        (location.bodyStart ≤ token.start ∧ token.stop ≤ location.bodyStop) ∧
          Utf8.lossyText (contents.extract token.start token.stop) = text

/-- The profiles of a snapshot and its frequencies are what they stand for. Only a node below one
that is its own parent has an empty profile instead. -/
structure SnapshotProfile.Exact (profile : SnapshotProfile) (snapshot : Snapshot) : Prop where
  counts : ∀ id node, snapshot.tree.node? id = some node → ¬snapshot.tree.Stuck id →
    ∃ index contents, snapshot.tree.tokensOf? node.location.file = some index ∧
      snapshot.files.find? node.location.file = some contents ∧
      (profile.find id).Counts index contents node.location
  stuck : ∀ id, snapshot.tree.Stuck id → profile.find id = {}
  tokenFrequency : ∀ text, profile.tokenFrequency.count text =
    (List.range snapshot.tree.size).countP fun id => 0 < (profile.find id).tokens.count text
  nameFrequency : ∀ text, profile.nameFrequency.count text =
    (List.range snapshot.tree.size).countP fun id => 0 < (profile.find id).name.count text

/-- The weights have an entry for every token of every bag. It refers to at least one document, and
to no more than there are. -/
def Scorer.KnowsTokens {α : Type} [Weighing α] (documents : Nat) (scorer : Scorer α) : Prop :=
  ∀ aspect side id token, 0 < ((scorer.profile side id).bag aspect).count token →
    (scorer.weights aspect).lookup token =
        some (Weighing.rarity documents (scorer.documentCount aspect token)) ∧
      1 ≤ scorer.documentCount aspect token ∧ scorer.documentCount aspect token ≤ documents ∧
      (2 : ℝ) ≤ 1 + documents / scorer.documentCount aspect token

theorem Location.hasBody_iff (location : Location) :
    location.hasBody = true ↔ location.bodyStart ≠ location.start := by
  simp [hasBody]

namespace Profile

variable {snapshot : Snapshot} {id : NodeId} {node : Node} {profile : Profile}

theorem counts_of_ofNode (hordered : OrderedTokens snapshot)
    (h : ofNode snapshot id node = .ok profile) :
    ∃ index contents, snapshot.tree.tokensOf? node.location.file = some index ∧
      snapshot.files.find? node.location.file = some contents ∧
      profile.Counts index contents node.location := by
  obtain ⟨⟨index, contents⟩, hsource, rfl⟩ := map_eq_ok_iff.mp h
  obtain ⟨hindex, hcontents, -⟩ := of_source_eq_ok hsource
  have hspan := spanTokens_eq (hordered _ _ hindex) node.location
  refine ⟨index, contents, hindex, hcontents, ?_, ?_, ?_⟩
  · intro text
    rw [Bag.count_ofList, hspan, List.count, List.countP_map, List.countP_filter]
    refine List.countP_congr ?_
    intro token _
    simp [tokenText, and_comm]
  · rw [← Location.hasBody_iff]
    cases node.location.hasBody <;> simp
  · intro bag hbag text
    by_cases hbody : node.location.hasBody = true
    · simp only [hbody, if_true, Option.some.injEq] at hbag
      subst hbag
      rw [Bag.count_ofList, bodySpanTokens, hspan, List.filter_filter, List.count, List.countP_map,
        List.countP_filter]
      refine List.countP_congr ?_
      intro token _
      simp only [tokenText, Function.comp_apply, Bool.and_eq_true, beq_iff_eq, decide_eq_true_eq]
      tauto
    · simp [hbody] at hbag

end Profile

theorem SnapshotProfile.exact_of_ordered {snapshot : Snapshot} {profile : SnapshotProfile}
    (hbuilt : snapshot.tree.Built) (hordered : OrderedTokens snapshot)
    (h : ofSnapshot snapshot = .ok profile) : profile.Exact snapshot where
  counts id node hnode hfree := by
    have hid := (hbuilt.mem_levelOrder_iff_not_stuck (CodeTree.lt_size_of_node? hnode)).mpr hfree
    exact Profile.counts_of_ofNode hordered (ofNode_eq_find h hid hnode)
  stuck id hstuck := by
    refine find_eq_empty h ?_
    intro hid
    exact hbuilt.not_stuck_of_mem_levelOrder hid hstuck
  tokenFrequency := count_frequency h hbuilt.coherent .tokens
  nameFrequency := count_frequency h hbuilt.coherent .name

theorem Scorer.knowsTokens {α : Type} [Weighing α] {before after : Snapshot} {scorer : Scorer α}
    (hbefore : before.tree.Coherent) (hafter : after.tree.Coherent)
    (h : ofSnapshots before after = .ok scorer) :
    scorer.KnowsTokens (max before.tree.size after.tree.size) := by
  intro aspect side id token htoken
  have hpos := documentCount_pos h htoken
  have hle := documentCount_le h hbefore hafter aspect token
  refine ⟨lookup_weights h hpos, hpos, hle, ?_⟩
  have hone : (1 : ℝ) ≤ (max before.tree.size after.tree.size : ℕ) /
      scorer.documentCount aspect token := by
    rw [one_le_div (Nat.cast_pos.mpr hpos)]
    exact Nat.cast_le.mpr hle
  linarith

/-- Profiles and frequencies are exact for tokens in order, whatever numbers a builder passed, apart
from nodes that cannot be reached; and the weights know every token. -/
theorem profiles_and_frequencies_are_exact (before after : Snapshot) (hbefore : before.tree.Built)
    (hafter : after.tree.Built) :
    (∀ profile, OrderedTokens before → SnapshotProfile.ofSnapshot before = .ok profile →
      profile.Exact before) ∧
      ∀ (α : Type) [Weighing α] (scorer : Scorer α), Scorer.ofSnapshots before after = .ok scorer →
        scorer.KnowsTokens (max before.tree.size after.tree.size) :=
  ⟨fun _ hordered hprofile => SnapshotProfile.exact_of_ordered hbefore hordered hprofile,
    fun _ _ _ hscorer => Scorer.knowsTokens hbefore.coherent hafter.coherent hscorer⟩

theorem orderedTokens_of_entries {snapshot : Snapshot}
    (h : ∀ entry ∈ snapshot.tree.tokens.entries, entry.2.Ordered) : OrderedTokens snapshot := by
  intro file index hindex
  obtain ⟨entry, hentry, rfl⟩ := Option.map_eq_some_iff.mp hindex
  exact h entry (List.mem_of_find?_eq_some hentry)

theorem dense_profiles_are_exact :
    dense.tree.Built ∧ spacious.tree.Built ∧ OrderedTokens dense ∧
      (∃ profile, SnapshotProfile.ofSnapshot dense = .ok profile ∧ profile.Exact dense ∧
        profile.tokenFrequency.count "x" = 2 ∧ (profile.find 1).bodyTokens.count "x" = 1) ∧
      ∃ scorer : Scorer Float, Scorer.ofSnapshots dense spacious = .ok scorer ∧
        scorer.KnowsTokens 2 := by
  have hdense : dense.tree.Built := built_functionFile _ _ _ _ _
  have hspacious : spacious.tree.Built := built_functionFile _ _ _ _ _
  have hordered : OrderedTokens dense := by
    refine orderedTokens_of_entries ?_
    unfold TokenIndex.Ordered
    decide
  obtain ⟨hexact, hknows⟩ := profiles_and_frequencies_are_exact dense spacious hdense hspacious
  refine ⟨hdense, hspacious, hordered, ⟨_, rfl, hexact _ hordered rfl, ?_, ?_⟩, _, rfl,
    hknows Float _ rfl⟩
  · decide +kernel
  · decide +kernel

/-- The file `x` with a function that is its own parent. -/
def ownParent : Snapshot :=
  let location : Location :=
    { file := ⟨"a.js"⟩, lineStart := 1, lineStop := 1, start := 0, stop := 1 }
  let root := (CodeTree.addRoot {} { kind := .file, name := "a.js", location }).setTokens
    ⟨"a.js"⟩ { tokens := #[⟨0, 1⟩] }
  { tree := (root.addChild 1 { kind := .function, name := "f", location }).getD root
    files := ⟨[(⟨"a.js"⟩, ⟨#[120]⟩)]⟩ }

/-- The function extends over the token `x`, and its bag does not have it. -/
theorem own_parent_has_an_empty_bag :
    ownParent.tree.Built ∧ OrderedTokens ownParent ∧
      ∃ profile node index contents, SnapshotProfile.ofSnapshot ownParent = .ok profile ∧
        ownParent.tree.node? 1 = some node ∧
        ownParent.tree.tokensOf? node.location.file = some index ∧
        ownParent.files.find? node.location.file = some contents ∧
        (index.tokens.toList.countP fun token =>
          (node.location.start ≤ token.start ∧ token.stop ≤ node.location.stop) ∧
            Utf8.lossyText (contents.extract token.start token.stop) = "x") = 1 ∧
        (profile.find 1).tokens.count "x" = 0 := by
  refine ⟨.addChild_getD (.setTokens _ _ (.addRoot _ .empty)) 1 _, ?_, _, _, _, _, rfl, rfl, rfl,
    rfl, ?_, ?_⟩
  · refine orderedTokens_of_entries ?_
    unfold TokenIndex.Ordered
    decide
  · decide +kernel
  · decide +kernel

end Lineage
