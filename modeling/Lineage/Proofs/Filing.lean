import Lineage.Proofs.Reportable

namespace Lineage

namespace Relationship

def HasSide (relationship : Relationship) : Prop :=
  relationship.before ≠ none ∨ relationship.after ≠ none

instance : DecidablePred HasSide := fun relationship =>
  inferInstanceAs (Decidable (relationship.before ≠ none ∨ relationship.after ≠ none))

/-- Made of nodes, in one of the ways that there are. -/
inductive Made : Relationship → Prop where
  | ofSides {before after : Option NodeId} {kind : RelationKind} {relationship : Relationship}
    (h : ofSides before after kind = .ok relationship) : Made relationship
  | pair (before after : NodeId) (kind : RelationKind) : Made (pair before after kind)
  | added (after : NodeId) : Made (added after)
  | removed (before : NodeId) : Made (removed before)

theorem ofSides_eq_ok_iff {before after : Option NodeId} {kind : RelationKind}
    {relationship : Relationship} :
    ofSides before after kind = .ok relationship ↔
      relationship = ⟨before, after, kind⟩ ∧ relationship.HasSide := by
  unfold ofSides
  split
  · next hnone =>
    rw [Bool.and_eq_true, Option.isNone_iff_eq_none, Option.isNone_iff_eq_none] at hnone
    constructor
    · rintro ⟨⟩
    · rintro ⟨rfl, hside⟩
      simp [HasSide, hnone] at hside
  · next hside =>
    rw [Bool.and_eq_true, Option.isNone_iff_eq_none, Option.isNone_iff_eq_none,
      not_and_or] at hside
    constructor
    · rintro ⟨⟩
      exact ⟨rfl, hside⟩
    · rintro ⟨rfl, -⟩
      rfl

theorem Made.hasSide {relationship : Relationship} (h : Made relationship) :
    relationship.HasSide := by
  cases h with
  | ofSides h => exact (ofSides_eq_ok_iff.mp h).2
  | pair | removed => exact Or.inl (Option.some_ne_none _)
  | added => exact Or.inr (Option.some_ne_none _)

/-- A value that says what stands on one of the two sides. -/
inductive GivesSide : Json → Prop where
  | member {members : List (Option String × Json)} {field : String} {side : Json}
    (hfield : field ∈ ["before", "after"]) (hmember : (some field, side) ∈ members)
    (hside : side ≠ .null) : GivesSide (.object members)
  | item {items : List Json} {i : Nat} {side : Json} (hi : i < 2) (hitem : items[i]? = some side)
    (hside : side ≠ .null) : GivesSide (.array items)

end Relationship

namespace Json

theorem optional?_eq_none_iff {α : Type} {read : Json → Option α} {value : Json}
    {result : Option α} (h : value.optional? read = some result) :
    result = none ↔ value = .null := by
  unfold optional? at h
  split at h
  · cases h
    simp
  · next hvalue =>
    obtain ⟨_, -, rfl⟩ := Option.map_eq_some_iff.mp h
    simpa using hvalue

theorem lookup_eq_some_iff_mem {key : Option String} {members : List (Option String × Json)}
    (h : members.countP (·.1 == key) ≤ 1) {value : Json} :
    members.lookup key = some value ↔ (key, value) ∈ members := by
  rw [List.lookup_eq_some_iff]
  constructor
  · rintro ⟨front, back, rfl, -⟩
    simp
  · intro hmem
    obtain ⟨front, back, rfl⟩ := List.append_of_mem hmem
    refine ⟨front, back, rfl, ?_⟩
    have hfront : front.countP (·.1 == key) = 0 := by
      rw [List.countP_append, List.countP_cons_of_pos (by simp)] at h
      omega
    intro member hmember
    have hne := List.countP_eq_zero.mp hfront member hmember
    simpa using fun heq : key = member.1 => hne (by simp [heq])

end Json

namespace Relationship

theorem ofJson?_eq_some {value : Json} {relationship : Relationship}
    (h : ofJson? value = some relationship) :
    ∃ before after kind, value.record? fields = some [before, after, some kind] ∧
      (relationship.before = none ↔ before.getD .null = .null) ∧
      (relationship.after = none ↔ after.getD .null = .null) := by
  unfold ofJson? at h
  split at h
  · next before after kind hrecord =>
    obtain ⟨b, hb, h⟩ := Option.bind_eq_some_iff.mp h
    obtain ⟨a, ha, h⟩ := Option.bind_eq_some_iff.mp h
    obtain ⟨_, -, h⟩ := Option.bind_eq_some_iff.mp h
    cases h
    exact ⟨before, after, kind, hrecord, Json.optional?_eq_none_iff hb,
      Json.optional?_eq_none_iff ha⟩
  · cases h

theorem givesSide_array_iff {items : List Json} :
    GivesSide (.array items) ↔ ∃ i < 2, items[i]?.getD .null ≠ .null := by
  constructor
  · rintro (_ | ⟨hi, hitem, hside⟩)
    exact ⟨_, hi, by rwa [hitem]⟩
  · rintro ⟨i, hi, hside⟩
    cases hitem : items[i]? with
    | none => simp [hitem] at hside
    | some side => exact .item hi hitem (by rwa [hitem] at hside)

theorem givesSide_object_iff {members : List (Option String × Json)}
    (h : ∀ field ∈ fields, members.countP (·.1 == some field) ≤ 1) :
    GivesSide (.object members) ↔
      ∃ field ∈ ["before", "after"], (members.lookup (some field)).getD .null ≠ .null := by
  have hfields : ∀ field ∈ ["before", "after"], members.countP (·.1 == some field) ≤ 1 :=
    fun field hfield => h field (List.mem_append_left ["kind"] hfield)
  constructor
  · rintro (⟨hfield, hmember, hside⟩ | _)
    rw [← Json.lookup_eq_some_iff_mem (hfields _ hfield)] at hmember
    exact ⟨_, hfield, by rwa [hmember]⟩
  · rintro ⟨field, hfield, hside⟩
    cases hlookup : members.lookup (some field) with
    | none => simp [hlookup] at hside
    | some side =>
        rw [hlookup] at hside
        exact .member hfield ((Json.lookup_eq_some_iff_mem (hfields _ hfield)).mp hlookup) hside

theorem givesSide_iff_of_record? {value : Json} {before after kind : Option Json}
    (h : value.record? fields = some [before, after, kind]) :
    GivesSide value ↔ before.getD .null ≠ .null ∨ after.getD .null ≠ .null := by
  unfold Json.record? at h
  split at h
  · next items =>
    obtain ⟨-, h⟩ := Option.ite_none_right_eq_some.mp h
    rw [givesSide_array_iff]
    match items, h with
    | [b, a, k], h =>
      cases h
      have htwo : ∀ i, i < 2 ↔ i = 0 ∨ i = 1 := by omega
      simp [htwo]
  · next members =>
    obtain ⟨-, h⟩ := Option.ite_none_left_eq_some.mp h
    obtain ⟨honce, h⟩ := Option.ite_none_left_eq_some.mp h
    have hcount : ∀ field ∈ fields, members.countP (·.1 == some field) ≤ 1 := by
      simpa using honce
    rw [givesSide_object_iff hcount]
    cases h
    simp
  · cases h

theorem hasSide_iff_givesSide {value : Json} {relationship : Relationship}
    (h : ofJson? value = some relationship) : relationship.HasSide ↔ GivesSide value := by
  obtain ⟨before, after, kind, hrecord, hbefore, hafter⟩ := ofJson?_eq_some h
  rw [givesSide_iff_of_record? hrecord]
  exact or_congr (not_congr hbefore) (not_congr hafter)

end Relationship

namespace Report

/-- How building a report ends without one: with an error, or at a relationship that cannot be
filed. -/
inductive Halt where
  | failed (error : Error)
  | unfiled (relationship : Relationship)

/-- The node that a relationship is filed under, which there has to be. -/
def primary (context : Context) (relationship : Relationship) : Except Halt Node :=
  match context.primary? relationship with
  | some node => .ok node
  | none => .error (.unfiled relationship)

/-- Goes over relationships in turn. Each is filed, and those that are taken are dealt with at
once. -/
def pass {α : Type} (context : Context) (takes : Relationship → Node → Bool)
    (deal : Relationship → Except Error α) : List Relationship → Except Halt (List α)
  | [] => .ok []
  | relationship :: rest => do
    let node ← primary context relationship
    if takes relationship node then
      let result ← (deal relationship).mapError .failed
      return result :: (← pass context takes deal rest)
    else pass context takes deal rest

/-- The report of a list of relationships, made in two passes over them. -/
def buildInTurn (before after : Snapshot) (relationships : List Relationship) :
    Except Halt Report := do
  let context : Context := ⟨before, after⟩
  let files := relationships.filter context.isFile
  let reports ← pass context (fun _ node => node.isFile) (fileReport context) relationships
  let placed ← pass context (fun relationship node => !node.isFile && !relationship.isNonMatching)
    (placedEntries context relationships files reports) relationships
  return {
    files := reports.zipIdx.map fun (report, i) =>
      { report with
        entries := placed.flatten.filterMap fun (j, e) => if j = i then some e else none } }

/-- The nodes of the relationships are in the trees. -/
def InRange (context : Context) (relationships : List Relationship) : Prop :=
  ∀ r ∈ relationships, (∀ b ∈ r.before, b < context.before.tree.size) ∧
    ∀ a ∈ r.after, a < context.after.tree.size

instance (context : Context) (relationships : List Relationship) :
    Decidable (InRange context relationships) :=
  inferInstanceAs (Decidable (∀ r ∈ relationships, _ ∧ _))

/-- Filing relationships in turn comes to one without a side, and no report of a file fails before
that. -/
inductive StopsAt (context : Context) : List Relationship → Relationship → Prop where
  | here {r : Relationship} {rest : List Relationship} (hside : ¬r.HasSide) :
    StopsAt context (r :: rest) r
  | later {first r : Relationship} {rest : List Relationship} (hside : first.HasSide)
    (hreport : context.isFile first = true → ∃ report, fileReport context first = .ok report)
    (hrest : StopsAt context rest r) : StopsAt context (first :: rest) r

section Stops

variable {context : Context} {first r : Relationship} {rest : List Relationship}

theorem stopsAt_cons_of_not_hasSide (h : ¬first.HasSide) :
    StopsAt context (first :: rest) r ↔ first = r := by
  constructor
  · intro hstops
    cases hstops with
    | here => rfl
    | later hside => exact absurd hside h
  · rintro rfl
    exact .here h

theorem stopsAt_cons_of_hasSide (h : first.HasSide) :
    StopsAt context (first :: rest) r ↔
      (context.isFile first = true → ∃ report, fileReport context first = .ok report) ∧
        StopsAt context rest r := by
  constructor
  · intro hstops
    cases hstops with
    | here hside => exact absurd h hside
    | later _ hreport hrest => exact ⟨hreport, hrest⟩
  · rintro ⟨hreport, hrest⟩
    exact .later h hreport hrest

end Stops

section Passes

variable {α : Type} {context : Context} {takes : Relationship → Node → Bool}
  {deal : Relationship → Except Error α} {found : List Relationship}

theorem exists_primary?_iff {r : Relationship} (h : InRange context [r]) :
    (∃ node, context.primary? r = some node) ↔ r.HasSide := by
  obtain ⟨hbefore, hafter⟩ := h r List.mem_cons_self
  constructor
  · rintro ⟨node, hnode⟩
    by_contra hside
    obtain ⟨hb, ha⟩ := not_or.mp hside
    simp [Context.primary?, Context.afterNode?, not_not.mp hb, not_not.mp ha] at hnode
  · exact primary?_isSome
      (fun b hb => CodeTree.exists_node?_of_lt_size (hbefore b hb))
      (fun a ha => CodeTree.exists_node?_of_lt_size (hafter a ha))

theorem mapError_eq_ok_iff {step : Except Error α} {value : α} :
    step.mapError Halt.failed = .ok value ↔ step = .ok value := by
  cases step with
  | error error => simp [Except.mapError]
  | ok value => simp [Except.mapError]

theorem mapError_bind {β : Type} (step : Except Error α) (next : α → Except Error β) :
    (step >>= next).mapError Halt.failed =
      step.mapError Halt.failed >>= fun value => (next value).mapError Halt.failed := by
  cases step with
  | error error => rfl
  | ok value => rfl

theorem mapError_ne_unfiled (step : Except Error α) (r : Relationship) :
    step.mapError Halt.failed ≠ .error (.unfiled r) := by
  cases step with
  | error error => simp [Except.mapError]
  | ok value => simp [Except.mapError]

theorem pass_cons_of_node {r : Relationship} {node : Node} (h : context.primary? r = some node)
    (rest : List Relationship) :
    pass context takes deal (r :: rest) =
      if takes r node then
        (deal r).mapError Halt.failed >>= fun result =>
          pass context takes deal rest >>= fun results => .ok (result :: results)
      else pass context takes deal rest := by
  rw [pass, primary, h]
  rfl

theorem pass_cons_of_none {r : Relationship} (h : context.primary? r = none)
    (rest : List Relationship) :
    pass context takes deal (r :: rest) = .error (.unfiled r) := by
  rw [pass, primary, h]
  rfl

theorem pass_eq_mapM (h : ∀ r ∈ found, ∃ node, context.primary? r = some node) :
    pass context takes deal found =
      ((found.filter fun r => (context.primary? r).any (takes r)).mapM deal).mapError .failed := by
  induction found with
  | nil => rfl
  | cons r rest ih =>
      obtain ⟨⟨node, hnode⟩, hrest⟩ := List.forall_mem_cons.mp h
      rw [pass_cons_of_node hnode, ih hrest]
      by_cases htakes : takes r node = true
      · rw [if_pos htakes, List.filter_cons_of_pos (by simpa [hnode] using htakes),
          List.mapM_cons, mapError_bind]
        refine congrArg _ (funext fun result => ?_)
        rw [mapError_bind]
        rfl
      · rw [if_neg htakes, List.filter_cons_of_neg (by simpa [hnode] using htakes)]

theorem exists_primary?_of_pass {results : List α}
    (h : pass context takes deal found = .ok results) :
    ∀ r ∈ found, ∃ node, context.primary? r = some node := by
  induction found generalizing results with
  | nil => exact List.forall_mem_nil _
  | cons r rest ih =>
      cases hnode : context.primary? r with
      | none =>
          rw [pass_cons_of_none hnode] at h
          cases h
      | some node =>
          rw [pass_cons_of_node hnode] at h
          refine List.forall_mem_cons.mpr ⟨⟨node, hnode⟩, ?_⟩
          split at h
          · obtain ⟨_, -, h⟩ := bind_eq_ok_iff.mp h
            obtain ⟨_, hrest, -⟩ := bind_eq_ok_iff.mp h
            exact ih hrest
          · exact ih h

theorem pass_fileReport_eq_unfiled_iff (hrange : InRange context found) {r : Relationship} :
    pass context (fun _ node => node.isFile) (fileReport context) found =
        .error (.unfiled r) ↔ StopsAt context found r := by
  induction found with
  | nil =>
      constructor
      · rintro ⟨⟩
      · rintro ⟨⟩
  | cons first rest ih =>
      obtain ⟨hfirst, hrest⟩ := List.forall_mem_cons.mp hrange
      have hside := exists_primary?_iff (List.forall_mem_singleton.mpr hfirst)
      cases hnode : context.primary? first with
      | none =>
          have hempty : ¬first.HasSide := by simp [← hside, hnode]
          rw [pass_cons_of_none hnode, stopsAt_cons_of_not_hasSide hempty]
          simp
      | some node =>
          have hfile : context.isFile first = node.isFile := by simp [Context.isFile, hnode]
          rw [pass_cons_of_node hnode, stopsAt_cons_of_hasSide (hside.mp ⟨node, hnode⟩), hfile,
            ← ih hrest]
          by_cases hisFile : node.isFile = true
          · simp only [hisFile, if_true, true_imp_iff, bind_eq_error_iff, mapError_ne_unfiled,
              false_or, mapError_eq_ok_iff, reduceCtorEq, and_false, exists_false, or_false]
            exact exists_and_right
          · simp [hisFile]

end Passes

section Building

variable {before after : Snapshot} {found : List Relationship}

/-- Where everything can be filed, taking turns makes no difference. -/
theorem buildInTurn_eq_build
    (h : ∀ r ∈ found, ∃ node, Context.primary? ⟨before, after⟩ r = some node) :
    buildInTurn before after found = (build before after found).mapError .failed := by
  have hinner : (found.filter fun r => (Context.primary? ⟨before, after⟩ r).any fun node =>
      !node.isFile && !r.isNonMatching) = inner ⟨before, after⟩ found := by
    refine List.filter_congr fun r hr => ?_
    obtain ⟨node, hnode⟩ := h r hr
    simp [Context.isInner, hnode]
  rw [buildInTurn, build, mapError_bind, pass_eq_mapM h]
  refine congrArg _ (funext fun reports => ?_)
  rw [mapError_bind, pass_eq_mapM h, hinner]
  rfl

theorem buildInTurn_eq_unfiled_iff (hrange : InRange ⟨before, after⟩ found) {r : Relationship} :
    buildInTurn before after found = .error (.unfiled r) ↔ StopsAt ⟨before, after⟩ found r := by
  rw [← pass_fileReport_eq_unfiled_iff hrange, buildInTurn, bind_eq_error_iff]
  refine ⟨fun h => h.resolve_right ?_, Or.inl⟩
  rintro ⟨reports, hreports, h⟩
  rw [pass_eq_mapM (exists_primary?_of_pass hreports)] at h
  rcases bind_eq_error_iff.mp h with hfail | ⟨_, -, ⟨⟩⟩
  exact mapError_ne_unfiled _ _ hfail

end Building

end Report

/-- A relationship that is made has a side, and one that is read has one exactly when the text gives
one. Building a report stops at a relationship exactly when filing comes to one without a side
first; if all have a side, the outcome is the report or the error of `Report.build`. -/
theorem only_read_relationships_lack_sides (before after : Snapshot) (found : List Relationship)
    (hrange : Report.InRange ⟨before, after⟩ found) :
    (∀ r, Relationship.Made r → r.HasSide) ∧
      (∀ text value r, Json.parse? text = some value → Relationship.ofJson? value = some r →
        (r.HasSide ↔ Relationship.GivesSide value)) ∧
      (∀ r, Report.buildInTurn before after found = .error (.unfiled r) ↔
        Report.StopsAt ⟨before, after⟩ found r) ∧
      ((∀ r ∈ found, r.HasSide) →
        Report.buildInTurn before after found =
          (Report.build before after found).mapError .failed) := by
  refine ⟨fun r hr => hr.hasSide, fun _ _ _ _ hr => Relationship.hasSide_iff_givesSide hr,
    fun _ => Report.buildInTurn_eq_unfiled_iff hrange, fun hsides => ?_⟩
  refine Report.buildInTurn_eq_build fun r hr => ?_
  rw [Report.exists_primary?_iff (List.forall_mem_singleton.mpr (hrange r hr))]
  exact hsides r hr

/-- The pair of files is filed before the relationship without a side stops the report; the added
function behind it never is. -/
theorem report_stops_behind_the_file :
    Report.InRange ⟨loader "parse", loader "read"⟩
        [.pair 0 0 .same, ⟨none, none, .same⟩, .added 2] ∧
      Report.buildInTurn (loader "parse") (loader "read")
        [.pair 0 0 .same, ⟨none, none, .same⟩, .added 2] =
          .error (.unfiled ⟨none, none, .same⟩) := by
  have hrange : Report.InRange ⟨loader "parse", loader "read"⟩
      [.pair 0 0 .same, ⟨none, none, .same⟩, .added 2] := by
    decide
  obtain ⟨hmade, -, hstops, -⟩ := only_read_relationships_lack_sides _ _ _ hrange
  refine ⟨hrange, (hstops _).mpr ?_⟩
  exact .later (hmade _ (.pair 0 0 .same)) (fun _ => ⟨_, rfl⟩) (.here (by decide))

/-- A text that gives a kind only is read, and the report of what it reads as stops. -/
theorem empty_relationship_is_read :
    (Json.parse? "\x7b\"kind\":\"same\"\x7d").bind Relationship.ofJson? =
        some ⟨none, none, .same⟩ ∧
      ¬(⟨none, none, .same⟩ : Relationship).HasSide ∧
      Report.buildInTurn {} {} [⟨none, none, .same⟩] = .error (.unfiled ⟨none, none, .same⟩) :=
  ⟨by decide +kernel, by decide, rfl⟩

end Lineage
