import T3x.Yschema.Normalized
import T3x.Yschema.Reports
import T3x.Walks

/-!
# Cycles among relations

The search for a cycle holds a walk on its stack, and what it has left leads to no
cycle. So what it finds is a closed walk, and it finds one where there is a cycle. Its
edges are the relations of one type whose endpoints are right: leaving out what
repeats an earlier relation leaves out no edge.
-/

namespace T3x.Yschema

open Js Walks

/-! ## The search -/

/-- The edges as a relation. -/
def Edge (edges : List RelationEdge) (a b : JsString) : Prop := (a, b) ∈ edges

variable {edges : List RelationEdge}

/-- The targets of a node are where its edges lead. -/
theorem mem_targets {a b : JsString} : b ∈ targets edges a ↔ Edge edges a b := by
  simp [targets, Edge]

/-- The ends of an edge are nodes. -/
theorem mem_edgeNodes {a b : JsString} (h : Edge edges a b) :
    a ∈ edgeNodes edges ∧ b ∈ edgeNodes edges := by
  constructor <;> exact mem_distinct.mpr (List.mem_flatMap.mpr ⟨(a, b), h, by simp⟩)

/-- Nodes that the search has left: none leads to a cycle. -/
def Left (edges : List RelationEdge) (visited : List JsString) : Prop :=
  ∀ a ∈ visited, ¬ LeadsToCycle (Edge edges) a

/-- What a search from some nodes gives: a closed walk, or the nodes that it has left, those
among them. -/
def Searched (edges : List RelationEdge) (nodes visited : List JsString) :
    Except (List JsString) (List JsString) → Prop
  | .error cycle => ClosedWalk (Edge edges) cycle
  | .ok visited' => visited ⊆ visited' ∧ nodes ⊆ visited' ∧ Left edges visited'

/-- A loop of searches from some nodes is a search from all of them. -/
theorem searched_foldlM {search : List JsString → JsString →
    Except (List JsString) (List JsString)} {nodes visited : List JsString}
    (hsearch : ∀ visited, Left edges visited → ∀ node ∈ nodes,
      Searched edges [node] visited (search visited node)) (hleft : Left edges visited) :
    Searched edges nodes visited (nodes.foldlM search visited) := by
  induction nodes generalizing visited with
  | nil => exact ⟨List.Subset.refl _, List.nil_subset _, hleft⟩
  | cons node nodes ih =>
    rw [List.foldlM_cons]
    have hnode := hsearch visited hleft node List.mem_cons_self
    cases hresult : search visited node with
    | error cycle =>
      rw [hresult] at hnode
      exact hnode
    | ok visited' =>
      rw [hresult] at hnode
      obtain ⟨hsub, hvisits, hleft'⟩ := hnode
      have hrest := ih (fun visited hv m hm => hsearch visited hv m (List.mem_cons_of_mem _ hm))
        hleft'
      change Searched edges (node :: nodes) visited (nodes.foldlM search visited')
      cases hfold : nodes.foldlM search visited' with
      | error cycle =>
        rw [hfold] at hrest
        exact hrest
      | ok visited'' =>
        rw [hfold] at hrest
        obtain ⟨hsub', hvisits', hleft''⟩ := hrest
        refine ⟨fun a ha => hsub' (hsub ha), ?_, hleft''⟩
        exact List.cons_subset.mpr ⟨hsub' (hvisits List.mem_cons_self), hvisits'⟩

/-- What holds of the stack of a search before it visits a node. -/
structure OnStack (edges : List RelationEdge) (stack : List JsString) (node : JsString) : Prop where
  /-- No node is on it twice. -/
  nodup : stack.Nodup
  /-- It holds nodes of the graph. -/
  nodes : stack ⊆ edgeNodes edges
  /-- It is a walk that goes on to the node. -/
  walk : (stack ++ [node]).IsChain (Edge edges)

/-- A node that is not on the stack is put on it before its targets are visited. -/
theorem OnStack.push {stack : List JsString} {node next : JsString} (h : OnStack edges stack node)
    (hnew : node ∉ stack) (hedge : Edge edges node next) :
    OnStack edges (stack ++ [node]) next where
  nodup := by
    rw [List.nodup_append]
    exact ⟨h.nodup, List.nodup_singleton _, fun a ha b hb =>
      fun heq => hnew (List.mem_singleton.mp hb ▸ heq ▸ ha)⟩
  nodes := List.append_subset.mpr
    ⟨h.nodes, List.cons_subset.mpr ⟨(mem_edgeNodes hedge).1, List.nil_subset _⟩⟩
  walk := by
    refine List.isChain_append.mpr ⟨h.walk, List.isChain_singleton _, ?_⟩
    simpa using hedge

/-- A search with fuel for all nodes gives a closed walk, or leaves its node. -/
theorem visit_searched {fuel : ℕ} {stack visited : List JsString} {node : JsString}
    (hfuel : (edgeNodes edges).length < fuel + stack.length) (hstack : OnStack edges stack node)
    (hleft : Left edges visited) :
    Searched edges [node] visited (visit edges fuel stack visited node) := by
  induction fuel generalizing stack visited node with
  | zero =>
    -- The stack cannot be longer than the list of the nodes.
    have hlength := (List.subperm_of_subset hstack.nodup hstack.nodes).length_le
    omega
  | succ fuel ih =>
    rw [visit]
    split_ifs with hon hvisited
    · have hindex := List.idxOf_lt_length_of_mem hon
      have hdrop : stack.drop (stack.idxOf node) =
          node :: stack.drop (stack.idxOf node + 1) := by
        rw [List.drop_eq_getElem_cons hindex, List.getElem_idxOf hindex]
      have hwalk : (stack.take (stack.idxOf node) ++
          node :: (stack.drop (stack.idxOf node + 1) ++ [node])).IsChain (Edge edges) := by
        rw [← List.cons_append, ← hdrop, ← List.append_assoc, List.take_append_drop]
        exact hstack.walk
      rw [hdrop]
      exact closedWalk_of_edge hwalk
    · exact ⟨List.Subset.refl _, List.cons_subset.mpr ⟨hvisited, List.nil_subset _⟩, hleft⟩
    · have htargets : Searched edges (targets edges node) visited ((targets edges node).foldlM
          (fun visited next => visit edges fuel (stack ++ [node]) visited next) visited) := by
        refine searched_foldlM (fun visited hv next hnext => ?_) hleft
        refine ih ?_ (hstack.push hon (mem_targets.mp hnext)) hv
        rw [List.length_append, List.length_singleton]
        omega
      cases hresult : (targets edges node).foldlM
          (fun visited next => visit edges fuel (stack ++ [node]) visited next) visited with
      | error cycle =>
        rw [hresult] at htargets
        exact htargets
      | ok visited' =>
        rw [hresult] at htargets
        obtain ⟨hsub, hvisits, hleft'⟩ := htargets
        refine ⟨fun a ha => List.mem_cons_of_mem _ (hsub ha),
          List.cons_subset.mpr ⟨List.mem_cons_self, List.nil_subset _⟩, ?_⟩
        intro a ha
        rcases List.mem_cons.mp ha with rfl | ha
        · rw [leadsToCycle_iff]
          rintro ⟨next, hedge, hleads⟩
          exact hleft' next (hvisits (mem_targets.mpr hedge)) hleads
        · exact hleft' a ha

/-- What is found is a closed walk, and it is found exactly where there is a cycle. -/
theorem findCycle_spec (edges : List RelationEdge) :
    ((findCycle edges).isSome = true ↔ HasCycle (Edge edges)) ∧
      ∀ cycle, findCycle edges = some cycle → ClosedWalk (Edge edges) cycle := by
  have hsearched : Searched edges (edgeNodes edges) [] ((edgeNodes edges).foldlM
      (fun visited node => visit edges ((edgeNodes edges).length + 1) [] visited node) []) := by
    refine searched_foldlM (fun visited hv node _ => visit_searched ?_ ?_ hv) ?_
    · simp
    · exact ⟨List.nodup_nil, List.nil_subset _, List.isChain_singleton _⟩
    · exact fun a ha => absurd ha List.not_mem_nil
  unfold findCycle
  simp only
  cases hresult : (edgeNodes edges).foldlM
      (fun visited node => visit edges ((edgeNodes edges).length + 1) [] visited node) [] with
  | error cycle =>
    rw [hresult] at hsearched
    refine ⟨⟨fun _ => hsearched.hasCycle, fun _ => rfl⟩, ?_⟩
    rintro _ ⟨⟩
    exact hsearched
  | ok visited =>
    rw [hresult] at hsearched
    obtain ⟨-, hvisits, hleft⟩ := hsearched
    refine ⟨⟨fun h => absurd h Bool.false_ne_true, fun hcycle => ?_⟩, by simp⟩
    obtain ⟨a, ⟨b, hedge⟩, hleads⟩ := hasCycle_iff.mp hcycle
    exact absurd hleads (hleft a (hvisits (mem_edgeNodes hedge).1))

/-! ## The edges of a type -/

/-- A machine-safe key holds no unit below the letters. -/
theorem not_mem_of_isKey {key : JsString} (h : isKey key = true) : (0 : UInt16) ∉ key := by
  intro hmem
  match key, h, hmem with
  | u :: rest, h, hmem =>
    simp only [isKey, Bool.and_eq_true, List.all_eq_true] at h
    rcases List.mem_cons.mp hmem with hzero | hmem
    · rw [← hzero] at h
      exact absurd h.1 (by decide)
    · exact absurd (h.2 0 hmem) (by decide)

/-- A path holds none either. -/
theorem not_mem_of_isPath {path : JsString} (h : isPath path = true) : (0 : UInt16) ∉ path := by
  intro hmem
  rw [← join_split (unit '/') path] at hmem
  have hparts : ∀ parts : List JsString, (∀ part ∈ parts, isKey part = true) →
      (0 : UInt16) ∉ join (unit '/') parts := by
    intro parts hkeys
    induction parts with
    | nil => exact List.not_mem_nil
    | cons part parts ih =>
      have hpart := not_mem_of_isKey (hkeys part List.mem_cons_self)
      have hrest := ih fun p hp => hkeys p (List.mem_cons_of_mem _ hp)
      cases parts with
      | nil => rwa [join_singleton]
      | cons next parts =>
        rw [join_cons_cons]
        simp only [List.mem_append, List.mem_cons, not_or]
        exact ⟨hpart, by decide, hrest⟩
  exact hparts _ (List.all_eq_true.mp h) hmem

/-- A key of relations with neither of the three parts holding the separator belongs to one
relation alone. -/
theorem relationKey_injective {relation other : YSchemaRelation}
    (htype : (0 : UInt16) ∉ relation.type) (hfrom : (0 : UInt16) ∉ relation.from)
    (hto : (0 : UInt16) ∉ relation.to) (h : relationKey other = relationKey relation) :
    other = relation := by
  have hsplit : split 0 other.type ++ (split 0 other.from ++ split 0 other.to) =
      [relation.type, relation.from, relation.to] := by
    have heq := congrArg (split 0) h
    simpa only [relationKey, split_append_cons, split_of_not_mem htype, split_of_not_mem hfrom,
      split_of_not_mem hto, List.append_assoc, List.cons_append, List.nil_append] using heq
  have hpos : ∀ s : JsString, 0 < (split 0 s).length := fun s =>
    List.length_pos_of_ne_nil (split_ne_nil _ _)
  have hlength := congrArg List.length hsplit
  simp only [List.length_append, List.length_cons, List.length_nil] at hlength
  have hone : ∀ s : JsString, (split 0 s).length = 1 → split 0 s = [s] := by
    intro s hs
    obtain ⟨part, hpart⟩ := List.length_eq_one_iff.mp hs
    have hjoin := join_split 0 s
    rw [hpart, join_singleton] at hjoin
    rw [hpart, hjoin]
  have h1 := hpos other.type
  have h2 := hpos other.from
  have h3 := hpos other.to
  rw [hone _ (by omega), hone _ (by omega), hone _ (by omega)] at hsplit
  obtain ⟨otherFrom, otherTo, otherType⟩ := other
  obtain ⟨relationFrom, relationTo, relationType⟩ := relation
  simp only [List.cons_append, List.nil_append, List.cons.injEq, and_true] at hsplit
  obtain ⟨rfl, rfl, rfl⟩ := hsplit
  rfl

variable {input : ValidationInput}

/-- An endpoint is right: it is a path to something in the document, of the pattern. -/
def endpointFits (input : ValidationInput) (pattern endpoint : JsString) : Bool :=
  isPath endpoint && (resolvePath input.tree endpoint).isSome && endpointMatches pattern endpoint

/-- Nothing is found at an endpoint exactly when it is right. -/
theorem validateEndpoint_eq_nil_iff {pattern : JsString} {index : ℕ} {side : String}
    {endpoint : JsString} :
    validateEndpoint input (some pattern) index side endpoint = [] ↔
      endpointFits input pattern endpoint = true := by
  unfold validateEndpoint endpointFits
  dsimp only
  cases isPath endpoint <;> cases (resolvePath input.tree endpoint).isSome <;>
    cases endpointMatches pattern endpoint <;> simp [demand]

/-- The structurally valid edges of a relation type: the relations of the type with right
endpoints. -/
def ValidEdge (input : ValidationInput) (type a b : JsString) : Prop :=
  ∃ typeSchema, Record.get (input.schema.relationTypes.getD []) type = some typeSchema ∧
    ⟨a, b, type⟩ ∈ input.relations ∧ endpointFits input typeSchema.from a = true ∧
    endpointFits input typeSchema.to b = true

/-- A type whose relations form no cycle. -/
def IsAcyclic (input : ValidationInput) (type : JsString) : Prop :=
  ∃ typeSchema, Record.get (input.schema.relationTypes.getD []) type = some typeSchema ∧
    typeSchema.acyclic = some true

/-- The relations among which cycles are looked for. -/
def acyclicRelations (input : ValidationInput) : List YSchemaRelation :=
  ((withEarlier input.relations).filter fun r => isAcyclicEdge input r.1 r.2).map Prod.snd

/-- The edges of a type among which cycles are looked for. -/
def acyclicEdges (input : ValidationInput) (type : JsString) : List RelationEdge :=
  ((acyclicRelations input).filter fun r => decide (r.type = type)).map fun r => (r.from, r.to)

/-- When a relation is an edge among which cycles are looked for. -/
theorem isAcyclicEdge_iff {earlier : List YSchemaRelation} {relation : YSchemaRelation} :
    isAcyclicEdge input earlier relation = true ↔
      ∃ typeSchema, Record.get (input.schema.relationTypes.getD []) relation.type = some typeSchema ∧
        endpointFits input typeSchema.from relation.from = true ∧
        endpointFits input typeSchema.to relation.to = true ∧ typeSchema.acyclic = some true ∧
        seenBefore input earlier relation = false ∧
        ∀ other ∈ earlier, relationKey other ≠ relationKey relation := by
  unfold isAcyclicEdge relationTypeOf
  cases hget : Record.get (input.schema.relationTypes.getD []) relation.type with
  | none => split_ifs <;> simp
  | some typeSchema =>
    simp only [Bool.and_eq_true, List.isEmpty_iff, validateEndpoints, List.append_eq_nil_iff,
      validateEndpoint_eq_nil_iff, Bool.not_eq_true', List.any_eq_false, decide_eq_true_eq,
      beq_iff_eq, Option.some.injEq, exists_eq_left']
    tauto

/-- The edges of an acyclic type among which cycles are looked for are its structurally valid
edges: the first of the relations with one key is never left out. -/
theorem edge_acyclicEdges {type : JsString} (hkey : isKey type = true)
    (hacyclic : IsAcyclic input type) :
    Edge (acyclicEdges input type) = ValidEdge input type := by
  funext a b
  refine propext ?_
  unfold Edge acyclicEdges acyclicRelations
  simp only [List.mem_map, List.mem_filter, decide_eq_true_eq, Prod.exists, Prod.mk.injEq]
  constructor
  · rintro ⟨relation, ⟨⟨earlier, relation, ⟨hmem, hedge⟩, rfl⟩, rfl⟩, rfl, rfl⟩
    obtain ⟨typeSchema, hget, hfrom, hto, -⟩ := isAcyclicEdge_iff.mp hedge
    exact ⟨typeSchema, hget, exists_mem_withEarlier.mp ⟨earlier, hmem⟩, hfrom, hto⟩
  · rintro ⟨typeSchema, hget, hmem, hfrom, hto⟩
    obtain ⟨typeSchema', hget', htrue⟩ := hacyclic
    obtain rfl := Option.some.inj (hget.symm.trans hget')
    have hfits := fun {pattern endpoint : JsString}
        (h : endpointFits input pattern endpoint = true) => by
      simp only [endpointFits, Bool.and_eq_true] at h
      exact not_mem_of_isPath h.1.1
    -- The first relation with the key is the relation itself, and it is an edge.
    have hsome : (input.relations.find? fun r =>
        decide (relationKey r = relationKey ⟨a, b, type⟩)).isSome = true :=
      List.find?_isSome.mpr ⟨_, hmem, by simp⟩
    obtain ⟨relation, hfirst⟩ := Option.isSome_iff_exists.mp hsome
    obtain ⟨hsame, earlier, after, hsplit, hearlier⟩ := List.find?_eq_some_iff_append.mp hfirst
    obtain rfl : relation = ⟨a, b, type⟩ := relationKey_injective (not_mem_of_isKey hkey)
      (hfits hfrom) (hfits hto) (of_decide_eq_true hsame)
    have hnew : ∀ other ∈ earlier, relationKey other ≠ relationKey ⟨a, b, type⟩ := by
      intro other hother
      simpa using hearlier other hother
    have hseen : seenBefore input earlier ⟨a, b, type⟩ = false := by
      unfold seenBefore
      simp only [List.any_eq_false, Bool.and_eq_true, decide_eq_true_eq, not_and]
      exact fun other hother _ => hnew other hother
    exact ⟨_, ⟨⟨earlier, _, ⟨mem_withEarlier.mpr ⟨after, hsplit⟩,
      isAcyclicEdge_iff.mpr ⟨typeSchema, hget, hfrom, hto, htrue, hseen, hnew⟩⟩, rfl⟩, rfl⟩, rfl, rfl⟩

/-! ## What is reported -/

variable (regExpTest : JsString → JsString → Bool) (localeCompare : JsString → JsString → Int)

/-- The error about a cycle among the relations of a type. -/
def cycleError (type : JsString) (cycle : List JsString) : ValidationError where
  code := "RELATION_CYCLE"
  path := js "$relations"
  message := js "Relation type \"" ++ type ++ js "\" must be acyclic."
  details := some [(js "type", .str type), (js "cycle", .arr (cycle.map .str))]

/-- The cycle errors are those about the cycles that are found. -/
theorem mem_findings_cycle {e : ValidationError} :
    .error e ∈ findings regExpTest input ∧ e.code = "RELATION_CYCLE" ↔
      ∃ type ∈ (acyclicRelations input).map YSchemaRelation.type, ∃ cycle,
        findCycle (acyclicEdges input type) = some cycle ∧ e = cycleError type cycle := by
  have hcycles : Finding.error e ∈
      (distinct ((acyclicRelations input).map YSchemaRelation.type)).flatMap (fun type =>
        (findCycle (acyclicEdges input type)).toList.map fun cycle =>
          Finding.error (cycleError type cycle)) ↔
      ∃ type ∈ (acyclicRelations input).map YSchemaRelation.type, ∃ cycle,
        findCycle (acyclicEdges input type) = some cycle ∧ e = cycleError type cycle := by
    simp only [List.mem_flatMap, mem_distinct, List.mem_map, Option.mem_toList,
      Finding.error.injEq, eq_comm]
  rw [← hcycles]
  constructor
  · rintro ⟨h, hcode⟩
    rcases mem_findings_cases regExpTest input h with ⟨-, h⟩ | h | ⟨r, -, h⟩ | ⟨h, -⟩ | h
    · exact absurd (hcode.symm.trans h) (by decide)
    · exact absurd (hcode ▸ h) (by decide)
    · exact absurd (hcode ▸ code_of_mem_validateRelation input h) (by decide)
    · rcases List.mem_append.mp h with h | h
      · obtain ⟨r, -, h⟩ := List.mem_flatMap.mp h
        exact absurd (hcode ▸ code_of_mem_validateRelation input h) (by decide)
      · exact h
    · exact absurd (hcode.symm.trans h) (by decide)
  · intro h
    refine ⟨?_, ?_⟩
    · unfold findings
      exact List.mem_append_left _ (List.mem_append_right _ (List.mem_append_right _ h))
    · obtain ⟨type, -, cycle, -, rfl⟩ := hcycles.mp h
      rfl

/-- A relation among which cycles are looked for is of an acyclic type. -/
theorem isAcyclic_of_mem {type : JsString}
    (h : type ∈ (acyclicRelations input).map YSchemaRelation.type) : IsAcyclic input type := by
  unfold acyclicRelations at h
  simp only [List.mem_map, List.mem_filter, Prod.exists] at h
  obtain ⟨relation, ⟨earlier, relation, ⟨-, hedge⟩, rfl⟩, rfl⟩ := h
  obtain ⟨typeSchema, hget, -, -, htrue, -⟩ := isAcyclicEdge_iff.mp hedge
  exact ⟨typeSchema, hget, htrue⟩

/-- The validation reports a cycle among the relations of a type. -/
def ReportsCycle (input : ValidationInput) (type : JsString) (e : ValidationError) : Prop :=
  input.Reports regExpTest localeCompare e ∧ e.code = "RELATION_CYCLE" ∧
    Record.get (e.details.getD []) (js "type") = some (.str type)

/-- Cycles are reported exactly: for each acyclic type that has one, with a closed walk of its
edges. -/
structure CyclesExact (input : ValidationInput) : Prop where
  /-- A cycle is reported exactly where there is one. -/
  reported : ∀ type, IsAcyclic input type →
    ((∃ e, ReportsCycle regExpTest localeCompare input type e) ↔ HasCycle (ValidEdge input type))
  /-- What is reported is a closed walk of the edges. -/
  walk : ∀ type e, ReportsCycle regExpTest localeCompare input type e →
    ∃ cycle : List JsString, Record.get (e.details.getD []) (js "cycle") =
      some (.arr (cycle.map .str)) ∧ ClosedWalk (ValidEdge input type) cycle

/-- A cycle that is reported is a closed walk of the edges of an acyclic type. -/
theorem ReportsCycle.walk {regExpError : JsString → Option JsString}
    (hschema : input.schema.IsNormalized regExpError) {type : JsString} {e : ValidationError}
    (h : ReportsCycle regExpTest localeCompare input type e) :
    ∃ cycle : List JsString, Record.get (e.details.getD []) (js "cycle") =
      some (.arr (cycle.map .str)) ∧ ClosedWalk (ValidEdge input type) cycle := by
  obtain ⟨hreports, hcode, htype⟩ := h
  obtain ⟨-, hfound⟩ := (reports_iff regExpTest localeCompare input).mp hreports
  obtain ⟨type', hmem, cycle, hcycle, rfl⟩ := (mem_findings_cycle regExpTest).mp ⟨hfound, hcode⟩
  obtain rfl : type' = type := by
    have hget : Record.get ((cycleError type' cycle).details.getD []) (js "type") =
        some (.str type') := rfl
    exact JsValue.str.inj (Option.some.inj (hget.symm.trans htype))
  have hacyclic := isAcyclic_of_mem hmem
  obtain ⟨typeSchema, hget, -⟩ := hacyclic
  have hwalk := (findCycle_spec _).2 cycle hcycle
  rw [edge_acyclicEdges (hschema.isKey_relationType hget) (isAcyclic_of_mem hmem)] at hwalk
  exact ⟨cycle, rfl, hwalk⟩

/-- Cycles are reported exactly if and only if the validation throws nothing, or there is no
cycle to report. -/
theorem cyclesExact_iff {regExpError : JsString → Option JsString}
    (hschema : input.schema.IsNormalized regExpError) :
    CyclesExact regExpTest localeCompare input ↔
      input.Quiet ∨ ∀ type, IsAcyclic input type → ¬ HasCycle (ValidEdge input type) := by
  constructor
  · intro h
    refine or_iff_not_imp_left.mpr fun hloud type hacyclic hcycle => ?_
    obtain ⟨e, hreports, -⟩ := (h.reported type hacyclic).mpr hcycle
    exact hloud ((reports_iff regExpTest localeCompare input).mp hreports).1
  · intro h
    refine ⟨fun type hacyclic => ⟨?_, fun hcycle => ?_⟩, fun type e he =>
      he.walk regExpTest localeCompare hschema⟩
    · rintro ⟨e, he⟩
      obtain ⟨cycle, -, hwalk⟩ := he.walk regExpTest localeCompare hschema
      exact hwalk.hasCycle
    · have hquiet : input.Quiet := h.resolve_right fun hnone => hnone type hacyclic hcycle
      obtain ⟨typeSchema, hget, -⟩ := id hacyclic
      have hedges := edge_acyclicEdges (hschema.isKey_relationType hget) hacyclic
      rw [← hedges] at hcycle
      obtain ⟨cycle, hfound⟩ := Option.isSome_iff_exists.mp ((findCycle_spec _).1.mpr hcycle)
      have hmem : type ∈ (acyclicRelations input).map YSchemaRelation.type := by
        obtain ⟨a, ⟨b, hedge⟩, -⟩ := hasCycle_iff.mp hcycle
        unfold Edge acyclicEdges at hedge
        obtain ⟨relation, hrelation, -⟩ := List.mem_map.mp hedge
        obtain ⟨hrelation, htype⟩ := List.mem_filter.mp hrelation
        exact of_decide_eq_true htype ▸ List.mem_map_of_mem hrelation
      have hfinding := (mem_findings_cycle regExpTest).mpr ⟨type, hmem, cycle, hfound, rfl⟩
      exact ⟨cycleError type cycle,
        (reports_iff regExpTest localeCompare input).mpr ⟨hquiet, hfinding.1⟩, hfinding.2, rfl⟩

/-- The description of a schema with items that depend on one another without a cycle. -/
def itemsSchemaText : JsValue :=
  .obj [(js "yschema", .str (js "0.1")), (js "name", .str (js "items")),
    (js "nodes", .obj [(js "items", .obj [(js "repeated", .bool true)])]),
    (js "relationTypes", .obj [(js "needs", .obj [(js "from", .str (js "items/*")),
      (js "to", .str (js "items/*")), (js "acyclic", .bool true)])])]

/-- A schema with items that depend on one another without a cycle. -/
def itemsSchema : YSchema where
  name := js "items"
  strict := some false
  nodes := [(js "items", .mk { repeated := some true } none)]
  rules := some []
  relationTypes := some [(js "needs",
    { «from» := js "items/*", «to» := js "items/*", acyclic := some true })]

/-- A document with two items, and relations between them. -/
def twoItems (relations : List YSchemaRelation) : ValidationInput where
  tree := .obj [(js "items", .obj [(js "x", .obj []), (js "y", .obj [])])]
  relations := relations
  schema := itemsSchema

/-- Two items that need each other. -/
def mutualNeeds : List YSchemaRelation :=
  [⟨js "items/x", js "items/y", js "needs"⟩, ⟨js "items/y", js "items/x", js "needs"⟩]

/-- The schema is what reading its description gives. -/
theorem itemsSchema_isNormalized : itemsSchema.IsNormalized fun _ => none :=
  ⟨itemsSchemaText, rfl⟩

/-- Two items that need each other are reported exactly. -/
theorem cyclesExact_mutualNeeds :
    itemsSchema.IsNormalized (fun _ => none) ∧
      CyclesExact (fun _ _ => true) (fun _ _ => 0) (twoItems mutualNeeds) := by
  refine ⟨itemsSchema_isNormalized, ?_⟩
  have hquiet : (twoItems mutualNeeds).Quiet :=
    (exists_validateTree (fun _ _ => true) (fun _ _ => 0) _).mp ⟨_, rfl⟩
  exact (cyclesExact_iff _ _ itemsSchema_isNormalized).mpr (.inl hquiet)

/-- Two items that need each other, with a relation of a type that every object inherits. -/
def inheritedBesideNeeds : ValidationInput :=
  twoItems (⟨js "items/x", js "items/y", js "constructor"⟩ :: mutualNeeds)

/-- A relation of a type that every object inherits keeps a cycle from being reported. -/
theorem not_cyclesExact_inherited : ¬ ∀ input : ValidationInput,
    input.schema.IsNormalized (fun _ => none) →
      CyclesExact (fun _ _ => true) (fun _ _ => 0) input := by
  intro h
  have hexact := h inheritedBesideNeeds itemsSchema_isNormalized
  have hforth : ValidEdge inheritedBesideNeeds (js "needs") (js "items/x") (js "items/y") :=
    ⟨_, rfl, by decide, by decide, by decide⟩
  have hback : ValidEdge inheritedBesideNeeds (js "needs") (js "items/y") (js "items/x") :=
    ⟨_, rfl, by decide, by decide, by decide⟩
  have hcycle : HasCycle (ValidEdge inheritedBesideNeeds (js "needs")) :=
    ⟨_, Reaches.cyclic (Relation.ReflTransGen.single hforth) hback⟩
  obtain ⟨e, hreports, -⟩ := (hexact.reported (js "needs") ⟨_, rfl, rfl⟩).mpr hcycle
  have hquiet := ((reports_iff _ _ _).mp hreports).1
  exact hquiet.2 ⟨js "items/x", js "items/y", js "constructor"⟩ (by decide)
    ⟨⟨by decide, by decide⟩, .inl (by decide)⟩

end T3x.Yschema
