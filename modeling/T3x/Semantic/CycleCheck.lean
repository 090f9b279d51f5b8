import T3x.Semantic.Integrity

/-!
# What the cycle check finds

A search keeps two facts about its marks: a node that it has left leads to no
cycle, and a node that it is in leads to the node where it stands, or to a cycle
that an earlier search has found. So a search from a node finds a cycle exactly when
the node leads to one, and the node it reports is one from which a cycle is reached.
-/

namespace T3x.Semantic

open Js Walks

/-- The edges of the causal graph as a relation. -/
def Edge (edges : List CausalEdge) (a b : JsString) : Prop := (a, b) ∈ edges

/-- A relation of a causal type leads from one path to the other. -/
def Causal (relations : List Relation) (a b : JsString) : Prop :=
  ∃ rel ∈ relations, isCausal rel = true ∧ rel.fromPath = a ∧ rel.toPath = b

/-- The edges of the causal graph are the causal relations. -/
theorem edge_causalEdges (relations : List Relation) :
    Edge (causalEdges relations) = Causal relations := by
  funext a b
  simp [Edge, Causal, causalEdges, and_assoc]

variable {edges : List CausalEdge}

/-- The neighbors of a node are where its edges lead. -/
theorem mem_neighbors {a b : JsString} : b ∈ neighbors edges a ↔ Edge edges a b := by
  simp [neighbors, Edge]

/-- The keys of the graph are the nodes with an edge. -/
theorem mem_graphKeys {a : JsString} : a ∈ graphKeys edges ↔ ∃ b, Edge edges a b := by
  simp [graphKeys, Edge]

/-- An edge leads to a node of the graph. -/
theorem mem_graphNodes {a b : JsString} (h : Edge edges a b) : b ∈ graphNodes edges := by
  refine mem_distinct.mpr (List.mem_flatMap.mpr ⟨(a, b), h, ?_⟩)
  simp

/-- A key of the graph is a node of it. -/
theorem graphKeys_subset {a : JsString} (h : a ∈ graphKeys edges) : a ∈ graphNodes edges := by
  obtain ⟨b, hab⟩ := mem_graphKeys.mp h
  refine mem_distinct.mpr (List.mem_flatMap.mpr ⟨(a, b), hab, ?_⟩)
  simp

/-- How many nodes of the graph were not visited. -/
def unvisited (edges : List CausalEdge) (visited : List JsString) : ℕ :=
  ((graphNodes edges).filter fun a => decide (a ∉ visited)).length

/-- Visiting more leaves fewer nodes. -/
theorem unvisited_mono {visited visited' : List JsString} (h : visited ⊆ visited') :
    unvisited edges visited' ≤ unvisited edges visited := by
  refine (List.Sublist.length_le ?_)
  refine List.monotone_filter_right _ fun a ha => ?_
  exact decide_eq_true fun hmem => of_decide_eq_true ha (h hmem)

/-- Visiting a new node leaves one fewer. -/
theorem unvisited_cons_lt {visited : List JsString} {node : JsString}
    (hnode : node ∈ graphNodes edges) (hnew : node ∉ visited) :
    unvisited edges (node :: visited) < unvisited edges visited := by
  have hsplit : (graphNodes edges).filter (fun a => decide (a ∉ node :: visited)) =
      ((graphNodes edges).filter fun a => decide (a ∉ visited)).filter
        fun a => decide (a ≠ node) := by
    rw [List.filter_filter]
    refine List.filter_congr fun a _ => ?_
    simp [List.mem_cons, not_or]
  unfold unvisited
  rw [hsplit]
  refine List.length_filter_lt_length_iff_exists.mpr ⟨node, ?_, by simp⟩
  exact List.mem_filter.mpr ⟨hnode, decide_eq_true hnew⟩

/-- What holds of the marks of a search: it was in every node that it is in, and a node that
it has left leads to no cycle. -/
structure Search.Sound (edges : List CausalEdge) (s : Search) : Prop where
  /-- It was in the nodes that it is in. -/
  entered : s.inStack ⊆ s.visited
  /-- What it has left leads to no cycle. -/
  left : ∀ a ∈ s.visited, a ∉ s.inStack → ¬ LeadsToCycle (Edge edges) a

/-- Every node that a search is in leads to a cycle. -/
def Search.Stale (edges : List CausalEdge) (s : Search) : Prop :=
  ∀ a ∈ s.inStack, LeadsToCycle (Edge edges) a

/-- Every node that a search is in leads to a cycle or to the node where the search stands. -/
def Search.At (edges : List CausalEdge) (s : Search) (node : JsString) : Prop :=
  ∀ a ∈ s.inStack, LeadsToCycle (Edge edges) a ∨ Reaches (Edge edges) a node

/-- What a search that stands at a node has when the node is found to lead to a cycle. -/
theorem Search.At.stale {s : Search} {node : JsString} (h : s.At edges node)
    (hnode : LeadsToCycle (Edge edges) node) : s.Stale edges := fun a ha =>
  (h a ha).elim id fun hwalk => hnode.of_walk hwalk

/-- A search that steps along an edge stands at the neighbor. -/
theorem Search.At.step {s : Search} {node neighbor : JsString} (h : s.At edges node)
    (hedge : Edge edges node neighbor) : s.At edges neighbor := fun a ha =>
  (h a ha).imp_right fun hwalk => hwalk.tail hedge

/-- What a search may do from marks on: it visits more and keeps its marks sound; if it finds
a cycle, what it is in leads to one, and else it is in what it was in. -/
structure Outcome (edges : List CausalEdge) (s : Search) (r : Bool × Search) : Prop where
  /-- What was visited stays visited. -/
  grows : s.visited ⊆ r.2.visited
  /-- The marks are sound. -/
  sound : r.2.Sound edges
  /-- After a cycle, everything the search is in leads to a cycle. -/
  stale : r.1 = true → r.2.Stale edges
  /-- Without a cycle, the search is in what it was in. -/
  same : r.1 = false → r.2.inStack = s.inStack

/-- The outcome of a search from a node: it finds a cycle exactly when the node leads to one. -/
structure NodeOutcome (edges : List CausalEdge) (node : JsString) (s : Search)
    (r : Bool × Search) : Prop extends Outcome edges s r where
  /-- The node is visited. -/
  visits : node ∈ r.2.visited
  /-- The search finds a cycle exactly when the node leads to one. -/
  exact : r.1 = true ↔ LeadsToCycle (Edge edges) node

/-- What the calls of `hasCycle` with some fuel do. -/
def Visits (edges : List CausalEdge) (fuel : ℕ) (visit : JsString → Search → Bool × Search) :
    Prop :=
  ∀ node s, node ∈ graphNodes edges → node ∉ s.visited → unvisited edges s.visited ≤ fuel →
    s.Sound edges → s.At edges node → NodeOutcome edges node s (visit node s)

/-- The loop over some neighbors of a node: it finds a cycle exactly when one of them leads
to a cycle. -/
theorem searchNeighbors_outcome {fuel : ℕ} {visit : JsString → Search → Bool × Search}
    (hvisit : Visits edges fuel visit) {node : JsString} {rest : List JsString}
    (hrest : ∀ b ∈ rest, Edge edges node b) {s : Search}
    (hfuel : unvisited edges s.visited ≤ fuel) (hsound : s.Sound edges)
    (hat : s.At edges node) :
    Outcome edges s (searchNeighbors visit rest s) ∧
      ((searchNeighbors visit rest s).1 = true ↔ ∃ b ∈ rest, LeadsToCycle (Edge edges) b) := by
  induction rest generalizing s with
  | nil =>
    refine ⟨⟨List.Subset.refl _, hsound, fun h => absurd h Bool.false_ne_true, fun _ => rfl⟩, ?_⟩
    simp [searchNeighbors]
  | cons neighbor rest ih =>
    have hedge : Edge edges node neighbor := hrest neighbor List.mem_cons_self
    have hrest' : ∀ b ∈ rest, Edge edges node b := fun b hb => hrest b (List.mem_cons_of_mem _ hb)
    rw [searchNeighbors]
    split_ifs with hin hvisited
    · -- The neighbor is on the path, or an earlier search has left it behind at a cycle.
      have hleads : LeadsToCycle (Edge edges) neighbor := by
        rcases hat neighbor hin with hcycle | hwalk
        · exact hcycle
        · exact (hwalk.cyclic hedge).leadsToCycle
      have hnode : LeadsToCycle (Edge edges) node := leadsToCycle_iff.mpr ⟨neighbor, hedge, hleads⟩
      refine ⟨⟨List.Subset.refl _, ⟨hsound.entered, hsound.left⟩, fun _ => hat.stale hnode,
        fun h => absurd h.symm Bool.false_ne_true⟩, ?_⟩
      exact ⟨fun _ => ⟨neighbor, List.mem_cons_self, hleads⟩, fun _ => rfl⟩
    · have hnone := hsound.left neighbor hvisited hin
      obtain ⟨houtcome, hfound⟩ := ih hrest' hfuel hsound hat
      refine ⟨houtcome, hfound.trans ?_⟩
      simp [hnone]
    · have hcall := hvisit neighbor s (mem_graphNodes hedge) hvisited hfuel hsound (hat.step hedge)
      cases hr : visit neighbor s with
      | mk found s' =>
      rw [hr] at hcall
      cases found with
      | true =>
        exact ⟨hcall.toOutcome, fun _ => ⟨neighbor, List.mem_cons_self, hcall.exact.mp rfl⟩,
          fun _ => rfl⟩
      | false =>
        have hnone : ¬ LeadsToCycle (Edge edges) neighbor := fun h =>
          Bool.false_ne_true (hcall.exact.mpr h)
        have hsame : s'.inStack = s.inStack := hcall.same rfl
        have hat' : s'.At edges node := fun a ha => hat a (hsame ▸ ha)
        obtain ⟨houtcome, hfound⟩ := ih hrest' ((unvisited_mono hcall.grows).trans hfuel)
          hcall.sound hat'
        refine ⟨⟨fun a ha => houtcome.grows (hcall.grows ha), houtcome.sound, houtcome.stale,
          fun h => (houtcome.same h).trans hsame⟩, hfound.trans ?_⟩
        simp [hnone]

/-- Entering a node keeps the marks sound, and the search stands there. -/
theorem Search.Sound.enter {s : Search} (h : s.Sound edges) (node : JsString) :
    (s.enter node).Sound edges where
  entered := List.cons_subset_cons node h.entered
  left := by
    intro a ha hnot
    have hne : a ≠ node := fun heq => hnot (heq ▸ List.mem_cons_self)
    exact h.left a (List.mem_of_ne_of_mem hne ha) fun hmem => hnot (List.mem_cons_of_mem _ hmem)

/-- A search with as much fuel as there are nodes to visit finds a cycle exactly when its node
leads to one. -/
theorem hasCycle_visits (fuel : ℕ) : Visits edges fuel (hasCycle edges fuel) := by
  induction fuel with
  | zero =>
    intro node s hnode hnew hfuel
    have hlt := unvisited_cons_lt hnode hnew
    omega
  | succ fuel ih =>
    intro node s hnode hnew hfuel hsound hat
    have hlt := unvisited_cons_lt hnode hnew
    have hatNode : (s.enter node).At edges node := by
      intro a ha
      rcases List.mem_cons.mp ha with rfl | ha
      · exact .inr (Reaches.refl _)
      · exact hat a ha
    obtain ⟨houtcome, hfound⟩ := searchNeighbors_outcome ih
      (fun b hb => mem_neighbors.mp hb) (s := s.enter node) (by
        change unvisited edges (node :: s.visited) ≤ fuel
        omega) (hsound.enter node) hatNode
    have hleads : (searchNeighbors (hasCycle edges fuel) (neighbors edges node)
        (s.enter node)).1 = true ↔ LeadsToCycle (Edge edges) node := by
      rw [hfound, leadsToCycle_iff]
      simp only [mem_neighbors]
    rw [hasCycle]
    cases hr : searchNeighbors (hasCycle edges fuel) (neighbors edges node) (s.enter node) with
    | mk found s' =>
    rw [hr] at houtcome hleads
    have hvisits : node :: s.visited ⊆ s'.visited := houtcome.grows
    cases found with
    | true =>
      exact ⟨⟨fun a ha => hvisits (List.mem_cons_of_mem _ ha), houtcome.sound, houtcome.stale,
        fun h => absurd h.symm Bool.false_ne_true⟩, hvisits List.mem_cons_self, hleads⟩
    | false =>
      -- Nothing below the node leads to a cycle, so the node is left as one that does not.
      have hnone : ¬ LeadsToCycle (Edge edges) node := fun h => Bool.false_ne_true (hleads.mpr h)
      have hstack : s'.inStack = node :: s.inStack := houtcome.same rfl
      have hleft : (s'.leave node).inStack = s.inStack := by
        have hnotIn : ∀ a ∈ s.inStack, a ≠ node := fun a ha heq =>
          hnew (heq ▸ hsound.entered ha)
        change s'.inStack.filter _ = _
        rw [hstack, List.filter_cons_of_neg (by simp)]
        exact List.filter_eq_self.mpr fun a ha => decide_eq_true (hnotIn a ha)
      refine ⟨⟨fun a ha => hvisits (List.mem_cons_of_mem _ ha), ⟨?_, ?_⟩,
        fun h => absurd h Bool.false_ne_true, fun _ => hleft⟩, hvisits List.mem_cons_self, hleads⟩
      · rw [hleft]
        exact fun a ha => hvisits (List.mem_cons_of_mem _ (hsound.entered ha))
      · intro a ha hnot
        rw [hleft] at hnot
        by_cases heq : a = node
        · exact heq ▸ hnone
        · refine houtcome.sound.left a ha fun hmem => ?_
          rw [hstack] at hmem
          exact hnot (List.mem_of_ne_of_mem heq hmem)

/-! ## The searches from every node -/

/-- The searches from some nodes on: what they report leads to a cycle, and if none of the
earlier searches has found a cycle they report one when some node leads to one. -/
theorem cycleErrors_spec {keys : List JsString} (hkeys : ∀ a ∈ keys, a ∈ graphNodes edges)
    {s : Search} (hsound : s.Sound edges) (hstale : s.Stale edges) :
    (∀ e ∈ cycleErrors edges keys s, e.type = .cycle ∧ LeadsToCycle (Edge edges) e.location) ∧
      (s.inStack = [] → (∃ a ∈ keys, LeadsToCycle (Edge edges) a) →
        cycleErrors edges keys s ≠ []) := by
  induction keys generalizing s with
  | nil => simp [cycleErrors]
  | cons node rest ih =>
    have hrest : ∀ a ∈ rest, a ∈ graphNodes edges := fun a ha =>
      hkeys a (List.mem_cons_of_mem _ ha)
    rw [cycleErrors]
    split_ifs with hvisited
    · obtain ⟨hreported, hfinds⟩ := ih hrest hsound hstale
      refine ⟨hreported, fun hempty ⟨a, ha, hleads⟩ => hfinds hempty ⟨a, ?_, hleads⟩⟩
      refine (List.mem_cons.mp ha).resolve_left fun heq => ?_
      exact hsound.left node hvisited (by simp [hempty]) (heq ▸ hleads)
    · have hcall := hasCycle_visits (graphNodes edges).length node { s with path := [] }
        (hkeys node List.mem_cons_self) hvisited (List.length_filter_le _ _)
        ⟨hsound.entered, hsound.left⟩ fun a ha => .inl (hstale a ha)
      cases hr : hasCycle edges (graphNodes edges).length node { s with path := [] } with
      | mk found s' =>
      rw [hr] at hcall
      cases found with
      | true =>
        obtain ⟨hreported, -⟩ := ih hrest hcall.sound (hcall.stale rfl)
        refine ⟨?_, fun _ _ => List.cons_ne_nil _ _⟩
        rintro e he
        rcases List.mem_cons.mp he with rfl | he
        · exact ⟨rfl, hcall.exact.mp rfl⟩
        · exact hreported e he
      | false =>
        have hsame : s'.inStack = s.inStack := hcall.same rfl
        have hnone : ¬ LeadsToCycle (Edge edges) node := fun h =>
          Bool.false_ne_true (hcall.exact.mpr h)
        obtain ⟨hreported, hfinds⟩ := ih hrest hcall.sound fun a ha => hstale a (hsame ▸ ha)
        refine ⟨hreported, fun hempty ⟨a, ha, hleads⟩ => hfinds (hsame.trans hempty) ⟨a, ?_, hleads⟩⟩
        exact (List.mem_cons.mp ha).resolve_left fun heq => hnone (heq ▸ hleads)

/-! ## The whole check -/

/-- What is said about keys under a topic is never that there is a cycle. -/
theorem collectDuplicateKeys_type {V : Type} (tree : TreeNode V) (parentPath : JsString) :
    ∀ e ∈ collectDuplicateKeys tree parentPath, e.type = .duplicateKey := by
  induction tree using TreeNode.induct generalizing parentPath with
  | node key slots children ih =>
    have hchildren : ∀ topics : List (TreeNode V), topics ⊆ children → ∀ path,
        ∀ e ∈ collectFromChildren topics path, e.type = .duplicateKey := by
      intro topics
      induction topics with
      | nil => simp [collectFromChildren]
      | cons child topics ihTopics =>
        intro hsub path e he
        obtain ⟨hchild, hrest⟩ := List.cons_subset.mp hsub
        rcases List.mem_append.mp he with he | he
        · exact ih child hchild path e he
        · exact ihTopics hrest path e he
    intro e he
    rcases List.mem_append.mp he with he | he
    · obtain ⟨repeated, -, rfl⟩ := List.mem_map.mp he
      rfl
    · exact hchildren children (List.Subset.refl _) _ e he

/-- What is said about the ends of a relation is never that there is a cycle. -/
theorem relationErrors_type {nodeIds : List JsString} {rel : Relation} {e : ValidationError}
    (h : e ∈ relationErrors nodeIds rel) : e.type ≠ .cycle := by
  simp only [relationErrors, List.mem_append, List.mem_ite_nil_left, List.mem_ite_nil_right,
    List.mem_singleton] at h
  rcases h with (⟨-, rfl⟩ | ⟨-, rfl⟩) | ⟨-, rfl⟩ <;> simp

/-- The cycle errors of the check are those of its searches. -/
theorem mem_integrityErrors {content : SemanticContent} {e : ValidationError} :
    e ∈ (validateIntegrity content).errors ∧ e.type = .cycle ↔
      e ∈ cycleErrors (causalEdges content.relations)
        (graphKeys (causalEdges content.relations)) ⟨[], [], []⟩ ∧ e.type = .cycle := by
  refine and_congr_left fun htype => ?_
  change e ∈ integrityErrors content ↔ _
  rw [integrityErrors, List.mem_append, or_iff_right]
  rintro h
  rcases List.mem_append.mp h with h | h
  · rcases List.mem_append.mp h with h | h
    · obtain ⟨tree, -, h⟩ := List.mem_flatMap.mp h
      exact absurd (htype.symm.trans (collectDuplicateKeys_type tree [] e h)) (by decide)
    · obtain ⟨repeated, -, rfl⟩ := List.mem_map.mp h
      exact absurd htype (by simp [duplicateRootError])
  · obtain ⟨rel, -, h⟩ := List.mem_flatMap.mp h
    exact relationErrors_type h htype

/-- The check reports a cycle exactly when the causal relations have one, and every location
that it reports as cyclic is a node from which they lead to one. -/
theorem validateIntegrity_cycle (content : SemanticContent) :
    ((∃ e ∈ (validateIntegrity content).errors, e.type = .cycle) ↔
        HasCycle (Causal content.relations)) ∧
      ∀ e ∈ (validateIntegrity content).errors, e.type = .cycle →
        LeadsToCycle (Causal content.relations) e.location := by
  rw [← edge_causalEdges]
  set edges := causalEdges content.relations with hedges
  have hkeys : ∀ a ∈ graphKeys edges, a ∈ graphNodes edges := fun a ha => graphKeys_subset ha
  obtain ⟨hreported, hfinds⟩ := cycleErrors_spec hkeys (s := ⟨[], [], []⟩)
    ⟨List.Subset.refl _, fun a ha => absurd ha List.not_mem_nil⟩
    fun a ha => absurd ha List.not_mem_nil
  have hlocation : ∀ e ∈ (validateIntegrity content).errors, e.type = .cycle →
      LeadsToCycle (Edge edges) e.location := fun e he htype =>
    (hreported e (mem_integrityErrors.mp ⟨he, htype⟩).1).2
  refine ⟨⟨?_, fun hcycle => ?_⟩, hlocation⟩
  · rintro ⟨e, he, htype⟩
    obtain ⟨m, -, hm⟩ := hlocation e he htype
    exact ⟨m, hm⟩
  · obtain ⟨a, hsucc, hleads⟩ := hasCycle_iff.mp hcycle
    obtain ⟨e, he⟩ := List.exists_mem_of_ne_nil _ (hfinds rfl ⟨a, mem_graphKeys.mpr hsucc, hleads⟩)
    exact ⟨e, (mem_integrityErrors.mpr ⟨he, (hreported e he).1⟩).1, (hreported e he).1⟩

/-- A chain that ends in a cycle: the search starts at its first node. -/
def leadIn : SemanticContent where
  trees := []
  relations := [⟨js "c", js "a", js "causes", none, none⟩, ⟨js "a", js "b", js "causes", none, none⟩,
    ⟨js "b", js "a", js "follows", none, none⟩]

/-- The location that is reported need not be on a cycle itself. -/
theorem validateIntegrity_leadIn : ¬ ∀ content : SemanticContent,
    ((∃ e ∈ (validateIntegrity content).errors, e.type = .cycle) ↔
        HasCycle (Causal content.relations)) ∧
      ∀ e ∈ (validateIntegrity content).errors, e.type = .cycle →
        Cyclic (Causal content.relations) e.location := by
  intro h
  have hreported : ∃ e ∈ (validateIntegrity leadIn).errors,
      e.type = .cycle ∧ e.location = js "c" := by decide
  obtain ⟨e, he, htype, hlocation⟩ := hreported
  have hcyclic := (h leadIn).2 e he htype
  rw [hlocation] at hcyclic
  obtain ⟨m, -, rel, hrel, -, -, hto⟩ := Relation.TransGen.tail'_iff.mp hcyclic
  revert rel
  decide

end T3x.Semantic
