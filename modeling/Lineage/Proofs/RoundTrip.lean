import Lineage.Codec
import Lineage.Proofs.Bags
import Lineage.Proofs.JsonText

namespace Lineage

namespace Json

/-- Every part of a value can be written and read. -/
def Legible (value : Json) : Prop :=
  ∀ lexeme ∈ value.lexemes, lexeme.Legible

section Legibility

theorem legible_null : Legible .null := by
  simp [Legible, lexemes, Lexeme.Legible]

theorem legible_text (s : String) : (text s).Legible := by
  simp [Legible, text, lexemes, Lexeme.Legible]

theorem legible_nat (n : Nat) : (nat n).Legible := by
  simp [Legible, nat, lexemes, Lexeme.Legible, Number.ofNat]

theorem legible_ofOption {value : Option Json} (h : ∀ inner ∈ value, inner.Legible) :
    (ofOption value).Legible := by
  cases value with
  | none => exact legible_null
  | some inner => exact h inner rfl

theorem legible_itemLexemes : (items : List Json) → (∀ item ∈ items, item.Legible) →
    ∀ lexeme ∈ itemLexemes items, lexeme.Legible
  | [], _ => List.forall_mem_nil _
  | [item], h => h item List.mem_cons_self
  | item :: second :: rest, h => by
      obtain ⟨hitem, hrest⟩ := List.forall_mem_cons.mp h
      have hlater := legible_itemLexemes (second :: rest) hrest
      rw [itemLexemes.eq_3 _ _ (by simp), List.forall_mem_append, List.forall_mem_cons]
      exact ⟨hitem, trivial, hlater⟩

theorem legible_array {items : List Json} (h : ∀ item ∈ items, item.Legible) :
    Legible (.array items) := by
  rw [Legible, lexemes, List.cons_append, List.forall_mem_cons, List.forall_mem_append,
    List.forall_mem_singleton]
  exact ⟨trivial, legible_itemLexemes items h, trivial⟩

theorem legible_memberLexemes : (members : List (String × Json)) →
    (∀ member ∈ members, member.2.Legible) →
    ∀ lexeme ∈ memberLexemes (members.map fun (key, value) => (some key, value)), lexeme.Legible
  | [], _ => List.forall_mem_nil _
  | [(key, value)], h => by
      rw [List.map_singleton, memberLexemes, List.forall_mem_cons, List.forall_mem_cons]
      exact ⟨rfl, trivial, h (key, value) List.mem_cons_self⟩
  | (key, value) :: second :: rest, h => by
      obtain ⟨hvalue, hrest⟩ := List.forall_mem_cons.mp h
      have hlater := legible_memberLexemes (second :: rest) hrest
      rw [List.map_cons, memberLexemes.eq_3 _ _ _ (by simp), List.cons_append, List.cons_append,
        List.forall_mem_cons, List.forall_mem_cons, List.forall_mem_append, List.forall_mem_cons]
      exact ⟨rfl, trivial, hvalue, trivial, hlater⟩

theorem legible_record {members : List (String × Json)}
    (h : ∀ member ∈ members, member.2.Legible) : (record members).Legible := by
  rw [Legible, record, lexemes, List.cons_append, List.forall_mem_cons, List.forall_mem_append,
    List.forall_mem_singleton]
  exact ⟨trivial, legible_memberLexemes members h, trivial⟩

end Legibility

section Shapes

theorem natBelow?_nat {bound n : Nat} (h : n < bound) : (nat n).natBelow? bound = some n := by
  simp [nat, natBelow?, Number.ofNat, Number.toNat?, h]

theorem size?_nat {n : Nat} (h : n < UInt64.size) : (nat n).size? = some n :=
  natBelow?_nat h

theorem record?_record {members : List (String × Json)} {fields : List String}
    (hfields : members.map Prod.fst = fields) (hnodup : fields.Nodup) :
    (record members).record? fields = some (members.map fun member => some member.2) := by
  subst hfields
  unfold record
  generalize hkeyed : members.map (fun (key, value) => (some key, value)) = keyed
  have hkeys : (keyed.map Prod.fst).Nodup := by
    have hsome : keyed.map Prod.fst = (members.map Prod.fst).map some := by simp [← hkeyed]
    exact hsome ▸ hnodup.map fun _ _ => Option.some.inj
  have hnamed : keyed.any (·.1.isNone) = false := by simp [← hkeyed]
  have honce : (members.map Prod.fst).any
      (fun field => 1 < keyed.countP (·.1 == some field)) = false := by
    rw [List.any_eq_false]
    intro field _
    have hcount := List.nodup_iff_count_le_one.mp hkeys (some field)
    rw [List.count, List.countP_map] at hcount
    rw [decide_eq_true_eq, Nat.not_lt]
    exact hcount
  have hlookup : (members.map Prod.fst).map (fun field => keyed.lookup (some field)) =
      members.map fun member => some member.2 := by
    rw [List.map_map]
    refine List.map_congr_left fun member hmember => ?_
    exact lookup_eq_some_of_mem hkeys (hkeyed ▸ List.mem_map.mpr ⟨member, hmember, rfl⟩)
  simp only [record?, hnamed, honce, hlookup, Bool.false_eq_true, if_false]

theorem mapM_map_eq_some {α : Type} {write : α → Json} {read : Json → Option α} {values : List α}
    (h : ∀ value ∈ values, read (write value) = some value) :
    (values.map write).mapM read = some values := by
  induction values with
  | nil => rfl
  | cons value rest ih =>
      obtain ⟨hvalue, hrest⟩ := List.forall_mem_cons.mp h
      rw [List.map_cons, List.mapM_cons, hvalue, ih hrest]
      rfl

end Shapes

end Json

section Values

/-- Reading what is written for a value gives that value again. -/
def ReadsBack {α : Type} (write : α → Json) (read : Json → Option α) (value : α) : Prop :=
  (Json.parse? (write value).compact).bind read = some value

theorem readsBack_of_legible {α : Type} {write : α → Json} {read : Json → Option α} {value : α}
    (hlegible : (write value).Legible) (hread : read (write value) = some value) :
    ReadsBack write read value := by
  rw [ReadsBack, Json.parse?_compact hlegible, Option.bind_some, hread]

/-- All numbers have 64 bits. -/
def Location.Fits (location : Location) : Prop :=
  ∀ size ∈ [location.lineStart, location.lineStop, location.start, location.stop,
    location.bodyStart, location.bodyStop], size < UInt64.size

/-- Both ends have 64 bits. -/
def Token.Fits (token : Token) : Prop :=
  token.start < UInt64.size ∧ token.stop < UInt64.size

/-- Node numbers have 32 bits. -/
def Relationship.Fits (relationship : Relationship) : Prop :=
  (∀ id ∈ relationship.before, id < UInt32.size) ∧ ∀ id ∈ relationship.after, id < UInt32.size

theorem readsBack_nodeKind (kind : NodeKind) : ReadsBack NodeKind.toJson NodeKind.ofJson? kind :=
  readsBack_of_legible (Json.legible_text _) (NodeKind.ofLabel?_label kind)

theorem readsBack_relationKind (kind : RelationKind) :
    ReadsBack RelationKind.toJson RelationKind.ofJson? kind :=
  readsBack_of_legible (Json.legible_text _) (RelationKind.ofLabel?_label kind)

theorem readsBack_nodeId {id : NodeId} (h : id < UInt32.size) :
    ReadsBack NodeId.toJson NodeId.ofJson? id :=
  readsBack_of_legible (Json.legible_nat _) (Json.natBelow?_nat h)

theorem Token.ofJson?_toJson {token : Token} (h : token.Fits) :
    ofJson? token.toJson = some token := by
  rw [ofJson?, toJson, Json.record?_record]
  · simp [Json.size?_nat h.1, Json.size?_nat h.2]
  · rfl
  · decide

theorem Token.legible_toJson (token : Token) : token.toJson.Legible := by
  apply Json.legible_record
  simp [Json.legible_nat]

theorem readsBack_location {location : Location} (h : location.Fits) :
    ReadsBack Location.toJson Location.ofJson? location := by
  simp only [Location.Fits, List.forall_mem_cons] at h
  obtain ⟨hlineStart, hlineStop, hstart, hstop, hbodyStart, hbodyStop, -⟩ := h
  apply readsBack_of_legible
  · apply Json.legible_record
    simp [Json.legible_nat, Json.legible_text]
  · rw [Location.ofJson?, Location.toJson, Json.record?_record]
    · simp [Json.text, Json.text?, Json.size?_nat, *]
    · rfl
    · decide

theorem readsBack_tokenIndex {index : TokenIndex} (h : ∀ token ∈ index.tokens, token.Fits) :
    ReadsBack TokenIndex.toJson TokenIndex.ofJson? index := by
  apply readsBack_of_legible
  · apply Json.legible_record
    simp [Json.legible_array, Token.legible_toJson]
  · have hread : (index.tokens.toList.map Token.toJson).mapM Token.ofJson? =
        some index.tokens.toList :=
      Json.mapM_map_eq_some fun token htoken =>
        Token.ofJson?_toJson (h token (by simpa using htoken))
    rw [TokenIndex.ofJson?, TokenIndex.toJson, Json.record?_record]
    · simp [Json.array?, hread]
    · rfl
    · decide

theorem NodeId.optional?_ofOption {id : Option NodeId} (h : ∀ n ∈ id, n < UInt32.size) :
    (Json.ofOption (id.map NodeId.toJson)).optional? NodeId.ofJson? = some id := by
  cases id with
  | none => rfl
  | some n =>
      have hread := Json.natBelow?_nat (h n rfl)
      change ((Json.nat n).natBelow? UInt32.size).map some = some (some n)
      rw [hread, Option.map_some]

theorem NodeId.legible_ofOption (id : Option NodeId) :
    (Json.ofOption (id.map NodeId.toJson)).Legible := by
  apply Json.legible_ofOption
  intro inner hinner
  obtain ⟨n, -, rfl⟩ := Option.map_eq_some_iff.mp hinner
  exact Json.legible_nat n

theorem readsBack_relationship {relationship : Relationship} (h : relationship.Fits) :
    ReadsBack Relationship.toJson Relationship.ofJson? relationship := by
  have hkind : RelationKind.ofJson? relationship.kind.toJson = some relationship.kind :=
    RelationKind.ofLabel?_label _
  apply readsBack_of_legible
  · apply Json.legible_record
    simp [NodeId.legible_ofOption, RelationKind.toJson, Json.legible_text]
  · rw [Relationship.ofJson?, Relationship.toJson, Json.record?_record]
    · simp [NodeId.optional?_ofOption h.1, NodeId.optional?_ofOption h.2, hkind]
    · rfl
    · decide

end Values

/-- Whatever characters a path has and however large the numbers are, as long as they fit their
words, each kind of value is read back from its text. -/
theorem written_values_are_read_back :
    (∀ location : Location, location.Fits →
      ReadsBack Location.toJson Location.ofJson? location) ∧
    (∀ token : Token, token.Fits → ReadsBack Token.toJson Token.ofJson? token) ∧
    (∀ index : TokenIndex, (∀ token ∈ index.tokens, token.Fits) →
      ReadsBack TokenIndex.toJson TokenIndex.ofJson? index) ∧
    (∀ id : NodeId, id < UInt32.size → ReadsBack NodeId.toJson NodeId.ofJson? id) ∧
    (∀ kind : NodeKind, ReadsBack NodeKind.toJson NodeKind.ofJson? kind) ∧
    (∀ kind : RelationKind, ReadsBack RelationKind.toJson RelationKind.ofJson? kind) ∧
    (∀ relationship : Relationship, relationship.Fits →
      ReadsBack Relationship.toJson Relationship.ofJson? relationship) :=
  ⟨fun _ => readsBack_location,
    fun token h => readsBack_of_legible token.legible_toJson (Token.ofJson?_toJson h),
    fun _ => readsBack_tokenIndex, fun _ => readsBack_nodeId, readsBack_nodeKind,
    readsBack_relationKind, fun _ => readsBack_relationship⟩

/-- A path with a quote, a backslash, control characters and letters of two and of four bytes. -/
def awkwardLocation : Location where
  file := ⟨"a\"\\/\n\x01é😀.js"⟩
  lineStart := 0
  lineStop := 1
  start := 9
  stop := 18446744073709551615

theorem awkward_location_is_read_back :
    awkwardLocation.Fits ∧
      awkwardLocation.toJson.compact =
        "\x7b\"file\":\"a\\\"\\\\/\\n\\u0001é😀.js\",\"line_start\":0,\"line_end\":1,\"begin\":9,"
          ++ "\"end\":18446744073709551615,\"body_begin\":9,\"body_end\":18446744073709551615\x7d" ∧
      ReadsBack Location.toJson Location.ofJson? awkwardLocation ∧
      Relationship.Fits ⟨none, some 7, .added⟩ ∧
      ReadsBack Relationship.toJson Relationship.ofJson? ⟨none, some 7, .added⟩ := by
  have hfits : awkwardLocation.Fits := by
    unfold Location.Fits
    decide
  have hadded : Relationship.Fits ⟨none, some 7, .added⟩ := by
    unfold Relationship.Fits
    decide
  obtain ⟨hlocation, -, -, -, -, -, hrelationship⟩ := written_values_are_read_back
  exact ⟨hfits, by decide +kernel, hlocation _ hfits, hadded, hrelationship _ hadded⟩

end Lineage
