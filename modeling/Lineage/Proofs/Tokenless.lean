import Lineage.Proofs.Accounting
import Lineage.Proofs.Faults
import Lineage.Proofs.JavaScript.Laminarity
import Lineage.Proofs.MovedCode
import Lineage.Proofs.Reportable

/-!
Nodes without tokens. No score speaks for them, and none of their children has a token either, so
the children cannot have been paired before their parents by anything but their names. What is left
to a node without tokens is a node of the same name in the same place, or none.
-/

namespace Lineage

open Relationship (Matched)

/-- Equal names in places that correspond: at the roots of one namespace, or below matched
parents. -/
def NamedInPlace (matched : NodeId → NodeId → Prop) (before after : Node) : Prop :=
  before.name = after.name ∧
    ((before.parent = none ∧ after.parent = none ∧ before.scope = after.scope) ∨
      ParentsMatched matched before after)

/-- One relationship of a result settles a node: it has the node on its side, and either gives it no
counterpart or one by name. -/
def SettledByName (trees : TreePair) (found : List Relationship) (side : Side) (id : NodeId) :
    Prop :=
  ∃ r, found.filter (fun r => side.pick r.before r.after = some id) = [r] ∧
    (r = side.pick (.removed id) (.added id) ∨
      r.IsMatch ∧ ∃ b a x y, r.before = some b ∧ r.after = some a ∧
        trees.before.node? b = some x ∧ trees.after.node? a = some y ∧
        NamedInPlace (Matched found) x y)

namespace Evidence

/-- The scores have nothing to say for certain nodes. -/
structure Ignores (evidence : Evidence) (bare : Side → NodeId → Prop) : Prop where
  similar : ∀ b a, evidence.similar b a = true → ¬bare .before b ∧ ¬bare .after a
  extracted : ∀ b a e, evidence.extracted b a e = true → ¬bare .before b ∧ ¬bare .after e
  inlined : ∀ b a i, evidence.inlined b a i = true → ¬bare .before i ∧ ¬bare .after a

open Classical in
/-- The most that scores can say that ignore certain nodes. -/
noncomputable def sparing (bare : Side → NodeId → Prop) : Evidence where
  similar b a := ¬bare .before b ∧ ¬bare .after a
  nameSimilar b a := ¬bare .before b ∧ ¬bare .after a
  extracted _ _ _ := false
  inlined _ _ _ := false

theorem similar_sparing_iff {bare : Side → NodeId → Prop} {b a : NodeId} :
    (sparing bare).similar b a = true ↔ ¬bare .before b ∧ ¬bare .after a := by
  simp [sparing]

theorem nameSimilar_sparing_iff {bare : Side → NodeId → Prop} {b a : NodeId} :
    (sparing bare).nameSimilar b a = true ↔ ¬bare .before b ∧ ¬bare .after a := by
  simp [sparing]

end Evidence

section Reasons

variable {trees : TreePair} {bare : Side → NodeId → Prop} {matched : NodeId → NodeId → Prop}
  {b a : NodeId} {before after : Node}

theorem NamedInPlace.mono {matched' : NodeId → NodeId → Prop}
    (hmono : ∀ p q, matched p q → matched' p q) (h : NamedInPlace matched before after) :
    NamedInPlace matched' before after :=
  ⟨h.1, h.2.imp_right (.mono hmono)⟩

theorem Justified.namedInPlace (h : Justified trees (.sparing bare) matched b a before after) :
    NamedInPlace matched before after ∨ (¬bare .before b ∧ ¬bare .after a) := by
  cases h with
  | named hscope hname hplace =>
      refine .inl ⟨hname, hplace.imp_left ?_⟩
      rintro ⟨hbefore, hafter⟩
      exact ⟨hbefore, hafter, hscope⟩
  | signed _ hname _ hparents => exact .inl ⟨hname, .inr hparents⟩
  | similar _ hsimilar => exact .inr (Evidence.similar_sparing_iff.mp hsimilar)
  | inhabited _ hnames => exact .inr (Evidence.nameSimilar_sparing_iff.mp hnames)

end Reasons

namespace TreePair

open Matching (Splits)

/-- The children of certain nodes are among them. -/
def PassesDown (trees : TreePair) (bare : Side → NodeId → Prop) : Prop :=
  ∀ side id, bare side id →
    ∀ child ∈ (side.pick trees.before trees.after).children id, bare side child

variable {trees : TreePair} {evidence : Evidence} {bare : Side → NodeId → Prop}

section Pairs

variable (hbefore : trees.before.Coherent) (hafter : trees.after.Coherent)
  (hignores : evidence.Ignores bare) (hinherit : trees.PassesDown bare)

include hbefore hafter hinherit

theorem not_bare_of_sharesChildren {matching : Matching} {befores afters : List NodeId}
    (hsplits : Splits befores afters matching)
    (hpairs : trees.AllWarranted (.sparing bare) matching) {b a : NodeId}
    (hfree : matching.isFree b a = true)
    (hshares : SharesChildren trees (fun p q => (p, q) ∈ matching.pairs) b a) :
    ¬bare .before b ∧ ¬bare .after a := by
  obtain ⟨c, hc, _, _, _, ⟨d, hd, hpair⟩, _⟩ := hshares
  obtain ⟨x, y, hx, hy, hjustified⟩ := hpairs (c, d) hpair
  have hcParent : x.parent = some b := by
    simpa [CodeTree.parent?, hx] using (hbefore.mem_children_iff b c).mp hc
  have hdParent : y.parent = some a := by
    simpa [CodeTree.parent?, hy] using (hafter.mem_children_iff a d).mp hd
  rcases hjustified.namedInPlace with ⟨-, hplace⟩ | ⟨hcBare, hdBare⟩
  · exfalso
    rcases hplace with ⟨hroot, -⟩ | ⟨p, q, hp, hq, hparents⟩
    · cases hcParent.symm.trans hroot
    · -- Their names count only once the parents are a pair themselves.
      cases hcParent.symm.trans hp
      cases hdParent.symm.trans hq
      rw [hsplits.not_isFree_of_mem hparents] at hfree
      cases hfree
  · exact ⟨fun hbare => hcBare (hinherit .before b hbare c hc),
      fun hbare => hdBare (hinherit .after a hbare d hd)⟩

include hignores

theorem allWarranted_sparing :
    trees.AllWarranted (.sparing bare) (trees.matching evidence) := by
  refine allWarranted_of_passes hbefore hafter ?_ ?_
  · intro current b a hcurrent haccepted
    refine warranted_of_classify? hcurrent (classify?_isSome_iff.mpr ?_)
    exact (classify?_isSome_iff.mp haccepted).imp_right <| Or.imp_right fun hscore =>
      Evidence.similar_sparing_iff.mpr (hignores.similar b a hscore)
  · intro current b a hcurrent hpairs hfree haccepted
    refine warranted_of_matchedChildren hbefore hcurrent ⟨haccepted.1, ?_⟩
    rw [Evidence.nameSimilar_sparing_iff]
    exact not_bare_of_sharesChildren hbefore hafter hinherit hcurrent hpairs hfree
      ((one_lt_matchedChildren_iff hbefore hcurrent).mp haccepted.1)

end Pairs

section Sides

variable {r : Relationship} {side : Side} {id : NodeId}

theorem Arises.mem_levelOrder {matching : Matching}
    (h : Splits trees.before.levelOrder trees.after.levelOrder matching)
    (hr : Arises trees evidence matching r) (hside : side.pick r.before r.after = some id) :
    id ∈ (side.pick trees.before trees.after).levelOrder := by
  cases side with
  | before => exact hr.before_mem h hside
  | after => exact hr.after_mem h hside

theorem Arises.of_bare {matching : Matching} (hignores : evidence.Ignores bare)
    (hr : Arises trees evidence matching r) (hbare : bare side id)
    (hside : side.pick r.before r.after = some id) :
    r = side.pick (.removed id) (.added id) ∨
      ∃ b a, (b, a) ∈ matching.pairs ∧ r = .pair b a (trees.classify evidence matching b a) := by
  cases hr with
  | paired hpair => exact .inr ⟨_, _, hpair, rfl⟩
  | extracted _ _ horigin | moved _ _ _ horigin =>
      obtain ⟨hb, he⟩ := hignores.extracted _ _ _ (extracted_of_origin? horigin)
      cases side <;> cases hside <;> contradiction
  | inlined _ _ hhost =>
      obtain ⟨hi, ha⟩ := hignores.inlined _ _ _ (inlined_of_host? hhost)
      cases side <;> cases hside <;> contradiction
  | removed | added =>
      cases side <;> cases hside
      exact .inl rfl

theorem exists_filter_eq_singleton (hignores : evidence.Ignores bare)
    (h : Splits trees.before.levelOrder trees.after.levelOrder (trees.matching evidence))
    (hbare : bare side id) (hid : id ∈ (side.pick trees.before trees.after).levelOrder) :
    ∃ r, (trees.changes evidence).filter (fun r => side.pick r.before r.after = some id) = [r] := by
  rw [← List.length_eq_one_iff, ← List.countP_eq_length_filter]
  have hkind : ∀ r ∈ trees.changes evidence, side.pick r.before r.after = some id →
      r.kind ≠ .extract ∧ r.kind ≠ .extractAndMove ∧ r.kind ≠ .inline := by
    intro r hr hside
    rcases ((mem_changes_iff h).mp hr).of_bare hignores hbare hside with rfl | ⟨b, a, -, rfl⟩
    · cases side <;> simp [Side.pick, Relationship.removed, Relationship.added]
    · exact ⟨classify_ne (by decide) b a, classify_ne (by decide) b a, classify_ne (by decide) b a⟩
  cases side with
  | before =>
      rw [← countP_before_eq_one h hid]
      refine List.countP_congr ?_
      intro r hr
      rw [decide_eq_true_eq, decide_eq_true_eq]
      exact ⟨fun hside => ⟨hside, (hkind r hr hside).1, (hkind r hr hside).2.1⟩, And.left⟩
  | after =>
      rw [← countP_after_eq_one h hid]
      refine List.countP_congr ?_
      intro r hr
      rw [decide_eq_true_eq, decide_eq_true_eq]
      exact ⟨fun hside => ⟨hside, (hkind r hr hside).2.2⟩, And.left⟩

theorem settledByName_changes (hbefore : trees.before.Coherent) (hafter : trees.after.Coherent)
    (hignores : evidence.Ignores bare) (hinherit : trees.PassesDown bare) (hbare : bare side id)
    (hid : id ∈ (side.pick trees.before trees.after).levelOrder) :
    SettledByName trees (trees.changes evidence) side id := by
  have h := splits_matching hbefore hafter evidence
  obtain ⟨r, hfilter⟩ := exists_filter_eq_singleton hignores h hbare hid
  have hr := hfilter ▸ List.mem_singleton_self r
  rw [List.mem_filter, decide_eq_true_eq] at hr
  refine ⟨r, hfilter, ?_⟩
  refine (((mem_changes_iff h).mp hr.1).of_bare hignores hbare hr.2).imp_right ?_
  rintro ⟨b, a, hpair, rfl⟩
  obtain ⟨x, y, hx, hy, hjustified⟩ :=
    allWarranted_sparing hbefore hafter hignores hinherit (b, a) hpair
  refine ⟨⟨rfl, rfl, isNonMatching_classify b a⟩, b, a, x, y, rfl, rfl, hx, hy, ?_⟩
  refine (hjustified.namedInPlace.resolve_right ?_).mono fun _ _ => (matched_changes_iff h).mpr
  rintro ⟨hbBare, haBare⟩
  cases side with
  | before => exact hbBare (Option.some.inj hr.2 ▸ hbare)
  | after => exact haBare (Option.some.inj hr.2 ▸ hbare)

end Sides

end TreePair

namespace Scorer

variable (scorer : Scorer ℝ)

/-- The bag of the tokens of a node is empty. -/
def Tokenless (side : Side) (id : NodeId) : Prop :=
  ∀ token, (scorer.profile side id).tokens.count token = 0

/-- The tokens of a node contain those of its children. -/
def NestsTokens (before after : Snapshot) : Prop :=
  ∀ (side : Side) parent, ∀ child ∈ (side.pick before after).tree.children parent, ∀ token,
    (scorer.profile side child).tokens.count token ≤
      (scorer.profile side parent).tokens.count token

/-- How a result treats the nodes without tokens: those that can be reached are settled by name, the
others are not in it. -/
structure SettlesTokenless (before after : Snapshot) (found : List Relationship) : Prop where
  settled : ∀ (side : Side) id, id < (side.pick before after).tree.size →
    ¬(side.pick before after).tree.Stuck id → scorer.Tokenless side id →
      SettledByName ⟨before.tree, after.tree⟩ found side id
  absent : ∀ (side : Side) id, (side.pick before after).tree.Stuck id →
    ∀ r ∈ found, side.pick r.before r.after ≠ some id

variable {scorer} {before after : Snapshot} (h : ofSnapshots before after = .ok scorer)

include h

theorem count_pos_of_body {side : Side} {id : NodeId} {token : String}
    (htoken : 0 < (scorer.profile side id).bodyTokens.count token) :
    0 < (scorer.profile side id).tokens.count token := by
  obtain ⟨hbefore, hafter, -⟩ := ofSnapshots_eq_ok_iff.mp h
  cases side with
  | before =>
      have hmem := SnapshotProfile.mem_profiles_of_count_pos .body htoken
      obtain ⟨-, _, -, hprofile⟩ := SnapshotProfile.of_mem_profiles hbefore hmem
      exact Profile.count_pos_of_body hprofile htoken
  | after =>
      have hmem := SnapshotProfile.mem_profiles_of_count_pos .body htoken
      obtain ⟨-, _, -, hprofile⟩ := SnapshotProfile.of_mem_profiles hafter hmem
      exact Profile.count_pos_of_body hprofile htoken

theorem not_tokenless_of_body {side : Side} {id : NodeId} {token : String}
    (htoken : 0 < (scorer.profile side id).bodyTokens.count token) : ¬scorer.Tokenless side id :=
  fun hbare => (count_pos_of_body h htoken).ne' (hbare token)

theorem ignores_tokenless {threshold : ℝ} (hthreshold : 0 ≤ threshold) :
    (Evidence.ofScorer scorer threshold).Ignores scorer.Tokenless where
  similar b a hsimilar := by
    obtain ⟨token, -, htoken⟩ := Weights.exists_count_pos
      ((scoreFormula h .tokens .before b .after a).part_pos hthreshold hsimilar)
    obtain ⟨hb, ha⟩ := Nat.lt_min.mp htoken
    exact ⟨fun hbare => hb.ne' (hbare token), fun hbare => ha.ne' (hbare token)⟩
  extracted b a e hextracted := by
    obtain ⟨token, -, hpart, hless⟩ := codeMoved_of_extracted h hthreshold hextracted
    exact ⟨not_tokenless_of_body h (Nat.zero_lt_of_lt hless), not_tokenless_of_body h hpart⟩
  inlined b a i hinlined := by
    obtain ⟨token, -, hpart, hless⟩ := codeMoved_of_inlined h hthreshold hinlined
    exact ⟨not_tokenless_of_body h hpart, not_tokenless_of_body h (Nat.zero_lt_of_lt hless)⟩

theorem settlesTokenless_changes (hbefore : before.tree.Built) (hafter : after.tree.Built)
    (hnests : scorer.NestsTokens before after) {threshold : ℝ} (hthreshold : 0 ≤ threshold) :
    scorer.SettlesTokenless before after
      (TreePair.changes ⟨before.tree, after.tree⟩ (.ofScorer scorer threshold)) where
  settled side id hlt hfree hbare := by
    have hinherit : TreePair.PassesDown ⟨before.tree, after.tree⟩ scorer.Tokenless := by
      intro side id hempty child hchild token
      have hle := hnests side id child (by cases side <;> exact hchild) token
      exact Nat.le_zero.mp (hempty token ▸ hle)
    refine TreePair.settledByName_changes hbefore.coherent hafter.coherent
      (ignores_tokenless h hthreshold) hinherit hbare ?_
    cases side with
    | before => exact (hbefore.mem_levelOrder_iff_not_stuck hlt).mpr hfree
    | after => exact (hafter.mem_levelOrder_iff_not_stuck hlt).mpr hfree
  absent side id hstuck r hr hside := by
    have hsplits := @TreePair.splits_matching ⟨before.tree, after.tree⟩ hbefore.coherent
      hafter.coherent (.ofScorer scorer threshold)
    have hid := ((TreePair.mem_changes_iff hsplits).mp hr).mem_levelOrder hsplits hside
    cases side with
    | before => exact hbefore.not_stuck_of_mem_levelOrder hid hstuck
    | after => exact hafter.not_stuck_of_mem_levelOrder hid hstuck

end Scorer

namespace JavaScript

variable {grammar : Grammar} {files : PathMap ByteArray} {entry : Path × ByteArray}
  {offset id : NodeId} {node : Node}

theorem Stands.exists_encloses (hfits : (grammar entry.2).Fits entry.2.size)
    (h : Stands grammar files entry offset id)
    (hnode : (outline grammar files).node? id = some node) {parent : NodeId}
    (hparent : node.parent = some parent) :
    ∃ above outer, Stands grammar files entry above parent ∧
      (outline grammar files).node? parent = some outer ∧
      outer.location.Encloses node.location := by
  have hne : offset ≠ 0 := by
    intro hzero
    cases hparent.symm.trans ((h.isPart hnode).2.1 hzero).2
  obtain ⟨start, own, hblock, hown, hshift⟩ := h.exists_node?
  cases hnode.symm.trans hshift
  obtain ⟨above, outer, habove, -, houter, hencloses⟩ :=
    (laminar_addFile {} hfits).parent offset own (Nat.pos_of_ne_zero hne) hown
  have hlt : above < (fileTree grammar entry).size := CodeTree.lt_size_of_node? houter
  simp only [Node.shift, habove, Option.map_some, Option.some.injEq] at hparent
  subst hparent
  refine ⟨above, outer.shift start, ⟨hlt, start, hblock, rfl⟩, ?_, hencloses⟩
  rw [outline_eq_besideAll, CodeTree.node?_besideAll_of_mem_blocks _ hblock hlt]
  exact congrArg (Option.map _) houter

theorem Stands.tokens_find (hfiles : Parsed grammar files) {profile : SnapshotProfile}
    (hprofile : SnapshotProfile.ofSnapshot (snapshot grammar files) = .ok profile)
    (h : Stands grammar files entry offset id)
    (hnode : (outline grammar files).node? id = some node) :
    (profile.find id).tokens =
      Bag.ofList (textsWithin entry.2 (grammar entry.2) node.location) := by
  have hid := (grown_outline grammar files).mem_levelOrder_iff.mpr (CodeTree.lt_size_of_node? hnode)
  obtain ⟨⟨index, contents⟩, hsource, heq⟩ :=
    map_eq_ok_iff.mp (SnapshotProfile.ofNode_eq_find hprofile hid hnode)
  obtain ⟨hindex, hcontents, -⟩ := Profile.of_source_eq_ok hsource
  rw [(h.isPart hnode).1] at hindex hcontents
  cases hindex.symm.trans (tokensOf?_outline hfiles.distinct h.mem)
  cases hcontents.symm.trans (PathMap.find?_eq_some_of_mem hfiles.distinct h.mem)
  rw [← heq, textsWithin, ← Profile.spanTokens_eq (hfiles.fits entry h.mem).1.ordered]

theorem count_tokens_le (hfiles : Parsed grammar files) {profile : SnapshotProfile}
    (hprofile : SnapshotProfile.ofSnapshot (snapshot grammar files) = .ok profile)
    {parent child : NodeId} (hchild : child ∈ (outline grammar files).children parent)
    (token : String) :
    (profile.find child).tokens.count token ≤ (profile.find parent).tokens.count token := by
  have hcoherent := (grown_outline grammar files).built.coherent
  have hparent := (hcoherent.mem_children_iff parent child).mp hchild
  obtain ⟨node, hnode, hparent⟩ := Option.bind_eq_some_iff.mp hparent
  obtain ⟨entry, offset, hstands⟩ := exists_stands (CodeTree.lt_size_of_node? hnode)
  obtain ⟨_, outer, hstandsParent, houter, hencloses⟩ :=
    hstands.exists_encloses (hfiles.fits entry hstands.mem) hnode hparent
  rw [hstands.tokens_find hfiles hprofile hnode, hstandsParent.tokens_find hfiles hprofile houter,
    Bag.count_ofList, Bag.count_ofList]
  exact count_textsWithin_le entry.2 (grammar entry.2) hencloses token

theorem nestsTokens_snapshot {before after : PathMap ByteArray} (hbefore : Parsed grammar before)
    (hafter : Parsed grammar after) {scorer : Scorer ℝ}
    (h : Scorer.ofSnapshots (snapshot grammar before) (snapshot grammar after) = .ok scorer) :
    scorer.NestsTokens (snapshot grammar before) (snapshot grammar after) := by
  obtain ⟨hbeforeProfile, hafterProfile, -⟩ := Scorer.ofSnapshots_eq_ok_iff.mp h
  intro side parent child hchild
  cases side with
  | before => exact count_tokens_le hbefore hbeforeProfile hchild
  | after => exact count_tokens_le hafter hafterProfile hchild

end JavaScript

/-- Whatever the threshold, nodes without tokens are matched by name or not at all, if no node has a
token that its parent does not have. The nodes of JavaScript files are such. -/
theorem nodes_without_tokens_match_by_name (threshold : ℝ) (hthreshold : 0 ≤ threshold) :
    (∀ (before after : Snapshot) (scorer : Scorer ℝ), before.tree.Built → after.tree.Built →
      Scorer.ofSnapshots before after = .ok scorer → scorer.NestsTokens before after →
        ∃ found, relationships threshold before after = .ok found ∧
          scorer.SettlesTokenless before after found) ∧
    ∀ (grammar : JavaScript.Grammar) (before after : PathMap ByteArray) (scorer : Scorer ℝ),
      JavaScript.Parsed grammar before → JavaScript.Parsed grammar after →
      Scorer.ofSnapshots (JavaScript.snapshot grammar before) (JavaScript.snapshot grammar after) =
        .ok scorer →
      scorer.NestsTokens (JavaScript.snapshot grammar before)
        (JavaScript.snapshot grammar after) := by
  constructor
  · intro before after scorer hbefore hafter hscorer hnests
    exact ⟨_, map_eq_ok_iff.mpr ⟨scorer, hscorer, rfl⟩,
      Scorer.settlesTokenless_changes hscorer hbefore hafter hnests hthreshold⟩
  · intro grammar before after scorer hbefore hafter hscorer
    exact JavaScript.nestsTokens_snapshot hbefore hafter hscorer

/-- The file `x` with a function without any text. -/
def hollowFile (parent : NodeId) (name : String) : Snapshot :=
  let location : Location :=
    { file := ⟨"a.js"⟩, lineStart := 1, lineStop := 1, start := 0, stop := 0 }
  { plainFile with
    tree := (plainFile.tree.addChild parent { kind := .function, name, location }).getD
      plainFile.tree }

theorem grown_hollowFile (name : String) : (hollowFile 0 name).tree.Grown :=
  .addChild_getD grown_plainFile Nat.zero_lt_one _

theorem tokens_hollowFile {name : String} {profile : SnapshotProfile}
    (h : SnapshotProfile.ofSnapshot (hollowFile 0 name) = .ok profile) (token : String) :
    (profile.find 1).tokens.count token = 0 := by
  have hordered : OrderedTokens (hollowFile 0 name) := by
    refine orderedTokens_of_entries ?_
    intro entry hentry
    cases List.mem_singleton.mp hentry
    exact List.pairwise_singleton _ _
  have hid := (grown_hollowFile name).mem_levelOrder_iff.mpr Nat.one_lt_two
  have hknown : (hollowFile 0 name).tree.tokensOf? ⟨"a.js"⟩ = some { tokens := #[⟨0, 1⟩] } := rfl
  obtain ⟨index, contents, hindex, -, hcounts⟩ :=
    Profile.counts_of_ofNode hordered (SnapshotProfile.ofNode_eq_find h hid rfl)
  cases hknown.symm.trans hindex
  rw [hcounts.tokens]
  rfl

theorem nestsTokens_hollowFile {name other : String} {scorer : Scorer ℝ}
    (h : Scorer.ofSnapshots (hollowFile 0 name) (hollowFile 0 other) = .ok scorer) :
    scorer.NestsTokens (hollowFile 0 name) (hollowFile 0 other) := by
  obtain ⟨hbefore, hafter, -⟩ := Scorer.ofSnapshots_eq_ok_iff.mp h
  have hchild : ∀ name parent child, child ∈ (hollowFile 0 name).tree.children parent →
      child = 1 := by
    intro name parent child hchild
    have hparent := ((grown_hollowFile name).built.coherent.mem_children_iff _ _).mp hchild
    match child with
    | 0 => cases hparent
    | 1 => rfl
    | n + 2 => cases hparent
  intro side parent child hmem token
  cases side with
  | before =>
      rw [hchild name parent child hmem]
      exact (tokens_hollowFile hbefore token).trans_le (Nat.zero_le _)
  | after =>
      rw [hchild other parent child hmem]
      exact (tokens_hollowFile hafter token).trans_le (Nat.zero_le _)

/-- Even at threshold zero the function `f` is gone, and not renamed to `g`. -/
theorem hollow_function_is_removed :
    (∃ scorer : Scorer ℝ,
      Scorer.ofSnapshots (hollowFile 0 "f") (hollowFile 0 "g") = .ok scorer ∧
      scorer.NestsTokens (hollowFile 0 "f") (hollowFile 0 "g") ∧ scorer.Tokenless .before 1 ∧
      ∃ found, relationships (0 : ℝ) (hollowFile 0 "f") (hollowFile 0 "g") = .ok found ∧
        found.filter (fun r => r.before = some 1) = [.removed 1]) ∧
    ∃ scorer : Scorer ℝ, Scorer.ofSnapshots JavaScript.whole JavaScript.divided = .ok scorer ∧
      scorer.NestsTokens JavaScript.whole JavaScript.divided := by
  obtain ⟨hsettles, hnests⟩ := nodes_without_tokens_match_by_name 0 le_rfl
  constructor
  · obtain ⟨scorer, hscorer⟩ : ∃ scorer : Scorer ℝ,
        Scorer.ofSnapshots (hollowFile 0 "f") (hollowFile 0 "g") = .ok scorer := ⟨_, rfl⟩
    have hbare : scorer.Tokenless .before 1 :=
      tokens_hollowFile (Scorer.ofSnapshots_eq_ok_iff.mp hscorer).1
    have hhollow := nestsTokens_hollowFile hscorer
    obtain ⟨found, hfound, hsettled⟩ := hsettles _ _ scorer (grown_hollowFile _).built
      (grown_hollowFile _).built hscorer hhollow
    refine ⟨scorer, hscorer, hhollow, hbare, found, hfound, ?_⟩
    obtain ⟨r, hfilter, hr⟩ :=
      hsettled.settled .before 1 Nat.one_lt_two ((grown_hollowFile _).not_stuck 1) hbare
    rcases hr with rfl | ⟨-, b, a, x, y, hb, -, hx, hy, hname, -⟩
    · exact hfilter
    · -- No node after has the name `f`.
      exfalso
      have hr := hfilter ▸ List.mem_singleton_self r
      cases hb.symm.trans (of_decide_eq_true (List.mem_filter.mp hr).2)
      cases hx
      match a with
      | 0 | 1 =>
          cases hy
          exact absurd hname (by decide)
      | n + 2 => cases hy
  · obtain ⟨scorer, hscorer⟩ := Scorable.exists_scorer ℝ JavaScript.parsed_wholeFiles.scorable
      JavaScript.parsed_dividedFiles.scorable
    exact ⟨scorer, hscorer, hnests _ _ _ scorer JavaScript.parsed_wholeFiles
      JavaScript.parsed_dividedFiles hscorer⟩

/-- A function without any text that is its own parent is neither removed nor matched. -/
theorem unreachable_function_is_not_removed :
    (hollowFile 1 "f").tree.Built ∧ plainFile.tree.Built ∧
      ∃ scorer : Scorer ℝ, Scorer.ofSnapshots (hollowFile 1 "f") plainFile = .ok scorer ∧
        scorer.NestsTokens (hollowFile 1 "f") plainFile ∧
        1 < (hollowFile 1 "f").tree.size ∧ scorer.Tokenless .before 1 ∧
        ∃ found, relationships (0 : ℝ) (hollowFile 1 "f") plainFile = .ok found ∧
          ∀ r ∈ found, r.before ≠ some 1 := by
  have hbuilt : (hollowFile 1 "f").tree.Built := .addChild_getD grown_plainFile.built 1 _
  have hstuck : (hollowFile 1 "f").tree.Stuck 1 := ⟨0, 1, rfl, rfl⟩
  obtain ⟨scorer, hscorer⟩ : ∃ scorer : Scorer ℝ,
      Scorer.ofSnapshots (hollowFile 1 "f") plainFile = .ok scorer := ⟨_, rfl⟩
  have hnests : scorer.NestsTokens (hollowFile 1 "f") plainFile := by
    intro side parent child hchild token
    cases side with
    | before =>
        have hparent := (hbuilt.coherent.mem_children_iff _ _).mp hchild
        match child with
        | 1 =>
            cases hparent
            exact Nat.le_refl _
        | 0 | n + 2 => cases hparent
    | after =>
        have hparent := (grown_plainFile.built.coherent.mem_children_iff _ _).mp hchild
        match child with
        | 0 | n + 1 => cases hparent
  have hempty : scorer.profile .before 1 = {} :=
    SnapshotProfile.find_eq_empty (Scorer.ofSnapshots_eq_ok_iff.mp hscorer).1 fun hid =>
      hbuilt.not_stuck_of_mem_levelOrder hid hstuck
  refine ⟨hbuilt, grown_plainFile.built, scorer, hscorer, hnests, Nat.one_lt_two, ?_, _,
    map_eq_ok_iff.mpr ⟨scorer, hscorer, rfl⟩, ?_⟩
  · intro token
    rw [hempty]
    rfl
  · exact (Scorer.settlesTokenless_changes hscorer hbuilt grown_plainFile.built hnests
      le_rfl).absent .before 1 hstuck

end Lineage
