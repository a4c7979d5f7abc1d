import Lineage.Proofs.JavaScript.Nesting
import Lineage.Proofs.LastItem

namespace Lineage.JavaScript

section Names

/-- The name that a syntax node calls inside a class: that of a function, or that of a method of
`this`, which the name of the class precedes. -/
inductive Names (bytes : ByteArray) (className : Option String) (call : SyntaxTree) : String → Prop
  | function {callee : SyntaxTree} {name : String} :
      call.kind = "call_expression" → call.child? "function" = some callee →
      callee.kind = "identifier" → callee.text? bytes = some name →
      Names bytes className call name
  | method {callee object property : SyntaxTree} {around name : String} :
      call.kind = "call_expression" → call.child? "function" = some callee →
      callee.kind = "member_expression" →
      callee.child? "object" = some object → object.kind = "this" →
      callee.child? "property" = some property → property.kind = "property_identifier" →
      property.text? bytes = some name → className = some around →
      Names bytes className call (around ++ "." ++ name)

variable {bytes : ByteArray} {className : Option String} {tree : SyntaxTree} {name : String}

theorem callee?_eq_some_iff :
    callee? bytes className tree = some name ↔ Names bytes className tree name := by
  constructor
  · intro h
    unfold callee? at h
    simp only [Option.bind_eq_bind, Option.pure_def] at h
    split at h
    · cases h
    · next hkind =>
      have hkind : tree.kind = "call_expression" := by simpa using hkind
      obtain ⟨callee, hcallee, h⟩ := Option.bind_eq_some_iff.mp h
      split at h
      · next hidentifier => exact .function hkind hcallee hidentifier h
      · next hmember =>
        obtain ⟨object, hobject, h⟩ := Option.bind_eq_some_iff.mp h
        obtain ⟨property, hproperty, h⟩ := Option.bind_eq_some_iff.mp h
        split at h
        · cases h
        · next hkinds =>
          have hkinds : object.kind = "this" ∧ property.kind = "property_identifier" := by
            simpa using hkinds
          obtain ⟨text, htext, h⟩ := Option.bind_eq_some_iff.mp h
          obtain ⟨around, hclass, h⟩ := Option.bind_eq_some_iff.mp h
          cases h
          exact .method hkind hcallee hmember hobject hkinds.1 hproperty hkinds.2 htext hclass
      · cases h
  · rintro (⟨hkind, hcallee, hidentifier, htext⟩ |
      ⟨hkind, hcallee, hmember, hobject, hthis, hproperty, hidentifier, htext, hclass⟩)
    · simp [callee?, hkind, hcallee, hidentifier, htext]
    · simp [callee?, hkind, hcallee, hmember, hobject, hthis, hproperty, hidentifier, htext, hclass,
        memberKey]

end Names

section Resolution

variable (bytes : ByteArray) (program : SyntaxTree)

/-- A position declares something that can be called by a name. Classes cannot. -/
def CallableAs (name : String) (position : Position) : Prop :=
  ∃ declaration, declaredAt? bytes program position = some declaration ∧
    declaration.kind ≠ .classDecl ∧ declaration.key = name

/-- A position declares what a name refers to: no later one can be called by it. -/
structure LastDeclared (name : String) (position : Position) : Prop where
  callable : CallableAs bytes program name position
  last : ∀ later, Precedes position later → ¬CallableAs bytes program name later

/-- The name by which a position can be called. -/
def keyAt? (position : Position) : Option String :=
  (declaredAt? bytes program position).bind Declaration.callKey

variable {bytes program}

theorem keyAt?_eq_some_iff {name : String} {position : Position} :
    keyAt? bytes program position = some name ↔ CallableAs bytes program name position := by
  simp only [keyAt?, Declaration.callKey, CallableAs, Option.bind_eq_some_iff,
    Option.ite_none_left_eq_some, Option.some.injEq]

theorem CallableAs.isSome {name : String} {position : Position}
    (h : CallableAs bytes program name position) :
    (declaredAt? bytes program position).isSome = true := by
  obtain ⟨declaration, hdeclared, -⟩ := h
  rw [hdeclared]
  rfl

theorem isLast_iff_lastDeclared {order : List Position} (hsorted : order.Pairwise Precedes)
    (hmem : ∀ position, position ∈ order ↔ (declaredAt? bytes program position).isSome = true)
    {name : String} {position : Position} :
    IsLast (CallableAs bytes program name) order position ↔
      LastDeclared bytes program name position := by
  constructor
  · rintro ⟨front, back, rfl, hcallable, hback⟩
    refine ⟨hcallable, ?_⟩
    intro later hlater hcalled
    rw [List.pairwise_append, List.pairwise_cons] at hsorted
    obtain ⟨-, ⟨-, -⟩, hfront⟩ := hsorted
    rcases List.mem_append.mp ((hmem later).mpr hcalled.isSome) with hin | hin
    · exact List.lt_asymm hlater (hfront later hin position List.mem_cons_self)
    · rcases List.mem_cons.mp hin with rfl | hin
      · exact List.lt_irrefl _ hlater
      · exact hback later hin hcalled
  · rintro ⟨hcallable, hlast⟩
    obtain ⟨front, back, rfl⟩ := List.append_of_mem ((hmem position).mpr hcallable.isSome)
    refine ⟨front, back, rfl, hcallable, ?_⟩
    intro later hlater
    rw [List.pairwise_append, List.pairwise_cons] at hsorted
    exact hlast later (hsorted.2.1.1 later hlater)

theorem resolve?_eq {number : Position → NodeId} (name : String) {first : NodeId}
    {found : List Found} {order : List Position}
    (hkeys : found.map (·.key) = order.map (keyAt? bytes program))
    (hnumber : order.map number = List.range' first order.length) :
    resolve? first found name =
      (order.reverse.find? fun position => keyAt? bytes program position == some name).map
        number := by
  induction order generalizing first found with
  | nil =>
      rw [List.map_eq_nil_iff.mp hkeys]
      rfl
  | cons position order ih =>
      obtain ⟨f, rest, rfl, hkey, hrest⟩ := List.map_eq_cons_iff.mp hkeys
      rw [List.map_cons, List.length_cons, List.range'_succ] at hnumber
      obtain ⟨hfirst, hlater⟩ := List.cons.inj hnumber
      have ih := ih hrest hlater
      rw [resolve?] at ih ⊢
      rw [List.zipIdx_cons, List.reverse_cons, List.reverse_cons, List.find?_append,
        List.find?_append, Option.map_or, Option.map_or, ih]
      congr 1
      simp only [List.find?_singleton, hkey]
      split
      · exact congrArg some hfirst.symm
      · rfl

theorem resolve?_lt {first callee : NodeId} {found : List Found} {name : String}
    (h : resolve? first found name = some callee) : callee < first + found.length := by
  obtain ⟨⟨f, id⟩, hfind, rfl⟩ := Option.map_eq_some_iff.mp h
  have hmem := List.mem_reverse.mp (List.mem_of_find?_eq_some hfind)
  exact (List.mem_zipIdx hmem).2.1

theorem addCalls_eq_foldl (first : NodeId) (found : List Found) (tree : CodeTree)
    (calls : List (NodeId × String)) :
    addCalls first found tree calls =
      (calls.filterMap fun call => (resolve? first found call.2).map (call.1, ·)).foldl
        (fun tree edge => tree.addCall edge.1 edge.2) tree := by
  rw [addCalls, List.foldl_filterMap]
  congr 1
  funext tree call
  obtain ⟨caller, name⟩ := call
  cases hcallee : resolve? first found name <;>
    simp only [hcallee, Option.map_none, Option.map_some]

/-- A node lists the nodes that it calls once, in the order in which they come up. -/
theorem callees_foldl_addCall {caller : NodeId} {tree : CodeTree} (known : List NodeId)
    {edges : List (NodeId × NodeId)} (hcaller : caller < tree.size)
    (hends : ∀ edge ∈ edges, edge.2 < tree.size) (hknown : tree.callees caller = known.eraseDups) :
    (edges.foldl (fun tree edge => tree.addCall edge.1 edge.2) tree).callees caller =
      (known ++ edges.filterMap fun edge =>
        if edge.1 = caller then some edge.2 else none).eraseDups := by
  induction edges generalizing tree known with
  | nil => rw [List.foldl_nil, List.filterMap_nil, List.append_nil, hknown]
  | cons edge rest ih =>
      obtain ⟨origin, callee⟩ := edge
      obtain ⟨hcallee, hrest⟩ := List.forall_mem_cons.mp hends
      have hsize := tree.size_addCall origin callee
      rw [← hsize] at hcaller hrest
      rw [List.foldl_cons]
      by_cases horigin : origin = caller
      · subst horigin
        rw [List.filterMap_cons, if_pos rfl, List.append_cons]
        refine ih _ hcaller hrest ?_
        have hnew : tree.isNewCall origin callee = true ↔ callee ∉ known := by
          rw [hsize] at hcaller
          rw [CodeTree.isNewCall_iff, hknown, List.mem_eraseDups]
          simp [hcaller, hcallee]
        rw [CodeTree.callees_addCall, CodeTree.eraseDups_append_singleton, hknown]
        by_cases hmem : callee ∈ known <;> simp [hnew, hmem]
      · rw [List.filterMap_cons, if_neg horigin]
        refine ih known hcaller hrest ?_
        rw [CodeTree.callees_addCall, if_neg (fun h => horigin h.1.symm), hknown]

theorem callees_addFound {source : Source} {tree : CodeTree} {found : List Found}
    (h : Placed source tree.size found) (id : NodeId) :
    (addFound tree found).callees id = tree.callees id := by
  refine addFound_induction (motive := fun current => current.callees id = tree.callees id)
    ?_ rfl h
  intro current next parent element hcurrent _ _ _ hadd
  rw [CodeTree.callees_addChild hadd, hcurrent]

end Resolution

section Sites

variable (source : Source) (program : SyntaxTree) (file : NodeId) (number : Position → NodeId)

/-- A call that belongs to a node, and the declaration that it goes to. -/
structure CallSite (caller : NodeId) (call target : Position) : Prop where
  caller_eq : parentOf source program file number call = caller
  exists_name : ∃ part name, program.at? call = some part ∧
    Names source.bytes (classAround? source.bytes program call) part name ∧
    LastDeclared source.bytes program name target

/-- A node calls what its call sites go to, in the order of the first site for each. -/
structure ResolvesCalls (caller : NodeId) (callees : List NodeId) : Prop where
  mem_iff : ∀ callee, callee ∈ callees ↔
    ∃ call target, CallSite source program file number caller call target ∧ callee = number target
  in_turn : ∃ sites : List (Position × Position),
    sites.Pairwise (fun earlier later => Precedes earlier.1 later.1) ∧
    (∀ site, site ∈ sites ↔ CallSite source program file number caller site.1 site.2) ∧
    callees = (sites.map fun site => number site.2).eraseDups

variable {source program file number}

theorem ResolvesCalls.of_sites {caller : NodeId} {sites : List (Position × Position)}
    (hsorted : sites.Pairwise fun earlier later => Precedes earlier.1 later.1)
    (hmem : ∀ site, site ∈ sites ↔ CallSite source program file number caller site.1 site.2) :
    ResolvesCalls source program file number caller
      (sites.map fun site => number site.2).eraseDups := by
  refine ⟨?_, sites, hsorted, hmem, rfl⟩
  intro callee
  rw [List.mem_eraseDups, List.mem_map]
  constructor
  · rintro ⟨⟨call, target⟩, hsite, rfl⟩
    exact ⟨call, target, (hmem _).mp hsite, rfl⟩
  · rintro ⟨call, target, hsite, rfl⟩
    exact ⟨(call, target), (hmem _).mpr hsite, rfl⟩

variable (source program file number) in
/-- The call at a position if it belongs to `caller`, with the last of the positions in `order` that
can be called by its name. -/
def siteAt? (order : List Position) (caller : NodeId) (call : Position) :
    Option (Position × Position) :=
  if parentOf source program file number call = caller then
    (calledAt? source.bytes program call).bind fun name =>
      (order.reverse.find? fun position => keyAt? source.bytes program position == some name).map
        (call, ·)
  else none

theorem siteAt?_eq_some_iff {order : List Position} (hsorted : order.Pairwise Precedes)
    (hmem : ∀ position, position ∈ order ↔
      (declaredAt? source.bytes program position).isSome = true)
    {caller : NodeId} {call : Position} {site : Position × Position} :
    siteAt? source program file number order caller call = some site ↔
      site.1 = call ∧ CallSite source program file number caller site.1 site.2 := by
  have hlast (name : String) (target : Position) :
      (order.reverse.find? fun position => keyAt? source.bytes program position == some name) =
        some target ↔ LastDeclared source.bytes program name target := by
    rw [← isLast_iff_lastDeclared hsorted hmem]
    refine find?_reverse_eq_some_iff ?_
    intro position _
    rw [beq_iff_eq, keyAt?_eq_some_iff]
  rw [siteAt?, Option.ite_none_right_eq_some, Option.bind_eq_some_iff]
  constructor
  · rintro ⟨hcaller, name, hname, hsite⟩
    obtain ⟨target, htarget, rfl⟩ := Option.map_eq_some_iff.mp hsite
    obtain ⟨part, hpart, hcallee⟩ := Option.bind_eq_some_iff.mp hname
    exact ⟨rfl, hcaller, part, name, hpart, callee?_eq_some_iff.mp hcallee,
      (hlast name target).mp htarget⟩
  · obtain ⟨call', target⟩ := site
    rintro ⟨rfl, hcaller, part, name, hpart, hnames, htarget⟩
    refine ⟨hcaller, name, ?_, ?_⟩
    · rw [calledAt?_of_at? hpart]
      exact callee?_eq_some_iff.mpr hnames
    · rw [(hlast name target).mpr htarget]
      rfl

theorem map_siteAt? {first : NodeId} {found : List Found} {order : List Position}
    (hresolve : ∀ name, resolve? first found name =
      (order.reverse.find? fun position => keyAt? source.bytes program position == some name).map
        number) (caller : NodeId) (call : Position) :
    (siteAt? source program file number order caller call).map (fun site => number site.2) =
      (callAt? source program file number call).bind fun made =>
        ((resolve? first found made.2).map (made.1, ·)).bind fun edge =>
          if edge.1 = caller then some edge.2 else none := by
  rw [siteAt?, callAt?]
  cases calledAt? source.bytes program call with
  | none => simp
  | some name =>
      rw [Option.map_some, Option.bind_some, Option.bind_some, hresolve]
      generalize order.reverse.find? (fun position =>
        keyAt? source.bytes program position == some name) = target?
      cases target? with
      | none => simp
      | some target =>
          by_cases hcaller : parentOf source program file number call = caller <;> simp [hcaller]

theorem CallSite.at?_isSome {caller : NodeId} {call target : Position}
    (h : CallSite source program file number caller call target) :
    (program.at? call).isSome = true := by
  obtain ⟨part, _, hpart, -⟩ := h.exists_name
  rw [hpart]
  rfl

theorem resolvesCalls_positions {order : List Position} (hsorted : order.Pairwise Precedes)
    (hmem : ∀ position, position ∈ order ↔
      (declaredAt? source.bytes program position).isSome = true) (caller : NodeId) :
    ResolvesCalls source program file number caller
      (((program.positions []).filterMap (siteAt? source program file number order caller)).map
        fun site => number site.2).eraseDups := by
  refine .of_sites ?_ ?_
  · rw [List.pairwise_filterMap]
    refine (program.pairwise_positions []).imp ?_
    intro earlier later hlt site hsite site' hsite'
    rwa [((siteAt?_eq_some_iff hsorted hmem).mp hsite).1,
      ((siteAt?_eq_some_iff hsorted hmem).mp hsite').1]
  · intro site
    rw [List.mem_filterMap]
    constructor
    · rintro ⟨call, -, hsite⟩
      exact ((siteAt?_eq_some_iff hsorted hmem).mp hsite).2
    · intro hsite
      refine ⟨site.1, ?_, (siteAt?_eq_some_iff hsorted hmem).mpr ⟨rfl, hsite⟩⟩
      exact (SyntaxTree.mem_positions_iff program [] site.1).mpr
        ⟨site.1, hsite.at?_isSome, (List.append_nil _).symm⟩

end Sites

theorem Nests.map_key {source : Source} {program : SyntaxTree} {file : NodeId}
    {order : List Position} {found : List Found} (h : Nests source program file order found) :
    found.map (·.key) = order.map (keyAt? source.bytes program) := by
  refine List.ext_getElem? ?_
  intro index
  rw [List.getElem?_map, List.getElem?_map]
  cases hposition : order[index]? with
  | none =>
      rw [List.getElem?_eq_none_iff, ← h.length_eq, ← List.getElem?_eq_none_iff] at hposition
      rw [hposition]
      rfl
  | some position =>
      obtain ⟨part, declaration, hpart, hdeclaration, hfound⟩ := h.declared index position hposition
      rw [hfound, Option.map_some, Option.map_some, keyAt?, declaredAt?_of_at? hpart,
        hdeclaration, Option.bind_some]

theorem callees_addFile {tree : CodeTree} {source : Source} {program : SyntaxTree}
    {order : List Position}
    (hnests : Nests source program tree.size order
      (outlineTree source { container := tree.size } (tree.size + 1) program).found)
    (hcalls : (outlineTree source { container := tree.size } (tree.size + 1) program).calls =
      (program.positions []).filterMap
        (callAt? source program tree.size (tree.size + 1 + order.idxOf ·)))
    {caller : NodeId} (hle : tree.size ≤ caller)
    (hlt : caller < (addFile tree source program).size) :
    (addFile tree source program).callees caller =
      (((program.positions []).filterMap (siteAt? source program tree.size
        (tree.size + 1 + order.idxOf ·) order caller)).map
          fun site => tree.size + 1 + order.idxOf site.2).eraseDups := by
  set outline := outlineTree source { container := tree.size } (tree.size + 1) program
  set declared := addFound (rooted tree source program) outline.found with hdeclared
  have hplaced : Placed source (rooted tree source program).size outline.found := by
    rw [size_rooted]
    exact placed_outlineTree source program _ _ (Nat.lt_succ_self tree.size)
  have hsize : declared.size = tree.size + 1 + outline.found.length := by
    rw [hdeclared, size_addFound hplaced, size_rooted]
  have hfresh : declared.callees caller = [] := by
    rw [hdeclared, callees_addFound hplaced]
    refine (tree.callees_addRoot (fileElement source) caller).trans ?_
    rw [CodeTree.callees, CodeTree.node?_eq_none_of_size_le hle]
    rfl
  have hresolve (name : String) :=
    resolve?_eq name hnests.map_key
      (map_add_idxOf (nodup_of_precedes hnests.pre_order) (tree.size + 1))
  change (addCalls (tree.size + 1) outline.found declared outline.calls).callees caller = _
  rw [addCalls_eq_foldl, callees_foldl_addCall [] ?_ ?_ hfresh, List.nil_append,
    hcalls, List.filterMap_filterMap, List.filterMap_filterMap, List.map_filterMap]
  · congr 2
    funext call
    exact (map_siteAt? hresolve caller call).symm
  · exact Nat.lt_of_lt_of_eq hlt (size_addCalls _ _ _ _)
  · intro edge hedge
    obtain ⟨made, -, hmade⟩ := List.mem_filterMap.mp hedge
    obtain ⟨callee, hcallee, rfl⟩ := Option.map_eq_some_iff.mp hmade
    rw [hsize]
    exact resolve?_lt hcallee

/-- Calls are resolved within a file once all of its declarations are known: whatever was in the
tree before, each node of the file calls the last declarations with the names that it uses. -/
theorem calls_go_to_last_declarations (tree : CodeTree) (source : Source) (program : SyntaxTree) :
    ∃ (order : List Position) (found : List Found),
      Nests source program tree.size order found ∧
      Appends tree (addFile tree source program) (fileElement source) found ∧
      ∀ caller, tree.size ≤ caller → caller < (addFile tree source program).size →
        ResolvesCalls source program tree.size (tree.size + 1 + order.idxOf ·) caller
          ((addFile tree source program).callees caller) := by
  have hnests := nests_outlineTree source program tree.size
  refine ⟨_, _, hnests, appends_addFile tree source program, ?_⟩
  intro caller hle hlt
  rw [callees_addFile hnests ?_ hle hlt]
  · exact resolvesCalls_positions hnests.pre_order hnests.mem_iff caller
  · exact (outlined program _ (tree.size + 1) [] rfl ⟨rfl, rfl⟩
      (map_add_idxOf (nodup_of_precedes hnests.pre_order) _)).calls_eq

/-- A file with the text `f();class K{m(){this.m();f()}}function f(){}function f(){f()}`. -/
def callingSource : Source where
  file := ⟨"a.js"⟩
  bytes := ⟨#[102, 40, 41, 59, 99, 108, 97, 115, 115, 32, 75, 123, 109, 40, 41, 123, 116, 104,
    105, 115, 46, 109, 40, 41, 59, 102, 40, 41, 125, 125, 102, 117, 110, 99, 116, 105,
    111, 110, 32, 102, 40, 41, 123, 125, 102, 117, 110, 99, 116, 105, 111, 110, 32,
    102, 40, 41, 123, 102, 40, 41, 125]⟩

/-- The call `f()` at an offset. -/
def plainCall (start : Nat) : SyntaxTree :=
  .node "call_expression" "" true start (start + 3)
    [.node "identifier" "function" true start (start + 1) [],
      .node "arguments" "arguments" true (start + 1) (start + 3) []]

/-- A declaration of `f` from an offset on. -/
def plainFunction (start stop : Nat) (body : List SyntaxTree) : SyntaxTree :=
  .node "function_declaration" "" true start stop
    [.node "function" "" false start (start + 8) [],
      .node "identifier" "name" true (start + 9) (start + 10) [],
      .node "formal_parameters" "parameters" true (start + 10) (start + 12) [],
      .node "statement_block" "body" true (start + 12) stop body]

def callingProgram : SyntaxTree :=
  .node "program" "" true 0 61
    [.node "expression_statement" "" true 0 4 [plainCall 0],
      .node "class_declaration" "" true 4 30
        [.node "identifier" "name" true 10 11 [],
          .node "class_body" "body" true 11 30
            [.node "method_definition" "" true 12 29
              [.node "property_identifier" "name" true 12 13 [],
                .node "formal_parameters" "parameters" true 13 15 [],
                .node "statement_block" "body" true 15 29
                  [.node "call_expression" "" true 16 24
                    [.node "member_expression" "function" true 16 22
                      [.node "this" "object" true 16 20 [],
                        .node "property_identifier" "property" true 21 22 []],
                      .node "arguments" "arguments" true 22 24 []],
                    plainCall 25]]]],
      plainFunction 30 44 [], plainFunction 44 61 [plainCall 57]]

theorem method_calls_the_last_declarations :
    2 < (addFile {} callingSource callingProgram).size ∧
      (addFile {} callingSource callingProgram).callees 2 = [2, 4] ∧
      ∃ order : List Position, order.length = 4 ∧
        ResolvesCalls callingSource callingProgram 0 (0 + 1 + order.idxOf ·) 2 [2, 4] := by
  have hcallees : (addFile {} callingSource callingProgram).callees 2 = [2, 4] := by decide
  have hsize : (addFile {} callingSource callingProgram).size = 5 := by decide
  have hlt : 2 < (addFile {} callingSource callingProgram).size := by
    rw [hsize]
    decide
  obtain ⟨order, found, hnests, happends, hresolves⟩ :=
    calls_go_to_last_declarations {} callingSource callingProgram
  refine ⟨hlt, hcallees, order, ?_, ?_⟩
  · have hcount := happends.size_eq
    rw [hsize, hnests.length_eq] at hcount
    change 5 = 0 + 1 + order.length at hcount
    omega
  · rw [← hcallees]
    exact hresolves 2 (Nat.zero_le 2) hlt

end Lineage.JavaScript
