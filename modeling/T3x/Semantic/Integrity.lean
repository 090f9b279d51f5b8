import T3x.Semantic.Merge
import T3x.Walks

/-!
# The integrity of a content

`validateIntegrity` looks for keys that repeat among siblings, for relations
without ends or onto themselves, for cycles among the causal relations, and for
topics without relations. The search for cycles starts anew from every node that
it has not visited; a search that finds a cycle is left at once, and the nodes it
was in stay marked.
-/

namespace T3x.Semantic

open Js

/-! ## Findings -/

/-- `ValidationError['type']`. -/
inductive ValidationErrorType where
  | brokenRelation
  | duplicateKey
  | selfRelation
  | cycle
deriving DecidableEq

/-- `ValidationError`. -/
structure ValidationError where
  /-- What is wrong. -/
  type : ValidationErrorType
  /-- The message. -/
  message : JsString
  /-- Where it is. -/
  location : JsString
deriving DecidableEq

/-- `ValidationWarning`, of the one type that an integrity check gives: an orphan tree. -/
structure ValidationWarning where
  /-- The message. -/
  message : JsString
  /-- Where it is. -/
  location : JsString
deriving DecidableEq

/-- `ValidationResult`. -/
structure ValidationResult where
  /-- There is no error. -/
  valid : Bool
  /-- The errors. -/
  errors : List ValidationError
  /-- The warnings. -/
  warnings : List ValidationWarning
deriving DecidableEq

/-! ## Keys that repeat -/

/-- The keys that repeat, each with how often it is there. -/
def repeatedKeys (keys : List JsString) : List (JsString × ℕ) :=
  ((distinct keys).map fun key => (key, keys.count key)).filter fun e => decide (1 < e.2)

/-- The error about a key that repeats under a path. -/
def duplicateKeyError (nodePath : JsString) (e : JsString × ℕ) : ValidationError :=
  ⟨.duplicateKey, js "Key \"" ++ e.1 ++ js "\" appears " ++ natToString e.2 ++
    js " times under \"" ++ nodePath ++ js "\"", nodePath ++ unit '/' :: e.1⟩

mutual

/-- `collectDuplicateKeys(node, parentPath, errors)`: the errors that it appends. -/
def collectDuplicateKeys {V : Type} : TreeNode V → JsString → List ValidationError
  | .node key _ children, parentPath =>
    (repeatedKeys (children.map TreeNode.key)).map
      (duplicateKeyError (extendPath parentPath key)) ++
    collectFromChildren children (extendPath parentPath key)

/-- The errors of several topics below one path. -/
def collectFromChildren {V : Type} : List (TreeNode V) → JsString → List ValidationError
  | [], _ => []
  | child :: children, nodePath =>
    collectDuplicateKeys child nodePath ++ collectFromChildren children nodePath

end

/-- The error about a root key that repeats. -/
def duplicateRootError (e : JsString × ℕ) : ValidationError :=
  ⟨.duplicateKey, js "Root tree key \"" ++ e.1 ++ js "\" appears " ++ natToString e.2 ++
    js " times", e.1⟩

/-! ## The ends of relations -/

/-- The errors about one relation. -/
def relationErrors (nodeIds : List JsString) (rel : Relation) : List ValidationError :=
  let location := rel.fromPath ++ js "->" ++ rel.toPath
  (if rel.fromPath ∈ nodeIds then []
    else [⟨.brokenRelation, js "Relation from \"" ++ rel.fromPath ++ js "\" — no such node path",
      location⟩]) ++
  (if rel.toPath ∈ nodeIds then []
    else [⟨.brokenRelation, js "Relation to \"" ++ rel.toPath ++ js "\" — no such node path",
      location⟩]) ++
  (if rel.fromPath = rel.toPath then
    [⟨.selfRelation, js "Self-referencing relation on \"" ++ rel.fromPath ++ js "\"", location⟩]
    else [])

/-! ## Cycles -/

/-- An edge of the causal graph: where it starts and where it leads. -/
abbrev CausalEdge := JsString × JsString

/-- A relation of a type that may not form a cycle. -/
def isCausal (rel : Relation) : Bool :=
  decide (rel.type = js "causes" ∨ rel.type = js "follows")

/-- `causalEdges`. -/
def causalEdges (relations : List Relation) : List CausalEdge :=
  (relations.filter isCausal).map fun rel => (rel.fromPath, rel.toPath)

/-- `graph.keys()`. -/
def graphKeys (edges : List CausalEdge) : List JsString := distinct (edges.map Prod.fst)

/-- `graph.get(node) ?? []`. -/
def neighbors (edges : List CausalEdge) (node : JsString) : List JsString :=
  (edges.filter fun e => decide (e.1 = node)).map Prod.snd

/-- What a search has marked so far. -/
structure Search where
  /-- The nodes that were entered. -/
  visited : List JsString
  /-- The nodes that were entered and not left. -/
  inStack : List JsString
  /-- The path of the search. -/
  path : List JsString

/-- `hasCycle`: what it does on entering a node. -/
def Search.enter (s : Search) (node : JsString) : Search :=
  ⟨node :: s.visited, node :: s.inStack, s.path ++ [node]⟩

/-- `hasCycle`: what it does on leaving a node. -/
def Search.leave (s : Search) (node : JsString) : Search :=
  { s with inStack := s.inStack.filter fun a => decide (a ≠ node), path := s.path.dropLast }

/-- The loop of `hasCycle` over the neighbors of a node. -/
def searchNeighbors (visit : JsString → Search → Bool × Search) :
    List JsString → Search → Bool × Search
  | [], s => (false, s)
  | neighbor :: rest, s =>
    if neighbor ∈ s.inStack then (true, { s with path := s.path ++ [neighbor] })
    else if neighbor ∈ s.visited then searchNeighbors visit rest s
    else
      match visit neighbor s with
      | (true, s') => (true, s')
      | (false, s') => searchNeighbors visit rest s'

/-- `hasCycle`, at most `fuel` calls deep. -/
def hasCycle (edges : List CausalEdge) : ℕ → JsString → Search → Bool × Search
  | 0, _, s => (false, s)
  | fuel + 1, node, s =>
    match searchNeighbors (hasCycle edges fuel) (neighbors edges node) (s.enter node) with
    | (true, s') => (true, s')
    | (false, s') => (false, s'.leave node)

/-- The nodes of the graph. -/
def graphNodes (edges : List CausalEdge) : List JsString :=
  distinct (edges.flatMap fun e => [e.1, e.2])

/-- The error about a cycle that a search from a node has found along its path. -/
def cycleError (node : JsString) (path : List JsString) : ValidationError :=
  let cycleStart := path.getLastD []
  ⟨.cycle, js "Causal/temporal cycle detected: " ++
    (js " → ").intercalate (path.drop (path.idxOf cycleStart)), node⟩

/-- The searches from some nodes on. Every call enters a node that was not visited, so no
search is deeper than there are nodes. -/
def cycleErrors (edges : List CausalEdge) : List JsString → Search → List ValidationError
  | [], _ => []
  | node :: rest, s =>
    if node ∈ s.visited then cycleErrors edges rest s
    else
      match hasCycle edges (graphNodes edges).length node { s with path := [] } with
      | (true, s') => cycleError node s'.path :: cycleErrors edges rest s'
      | (false, s') => cycleErrors edges rest s'

/-! ## The whole check -/

/-- The warnings about topics without relations. -/
def orphanWarnings (content : SemanticContent) : List ValidationWarning :=
  if 1 < content.trees.length then
    let connected := content.relations.flatMap fun rel => [rootKey rel.fromPath, rootKey rel.toPath]
    (content.trees.filter fun tree => decide (tree.key ∉ connected)).map fun tree =>
      ⟨js "Tree \"" ++ tree.key ++ js "\" has no relations to other trees", tree.key⟩
  else []

/-- The errors that `validateIntegrity` finds. -/
def integrityErrors (content : SemanticContent) : List ValidationError :=
  let edges := causalEdges content.relations
  content.trees.flatMap (fun tree => collectDuplicateKeys tree []) ++
  (repeatedKeys (content.trees.map TreeNode.key)).map duplicateRootError ++
  content.relations.flatMap
    (relationErrors ((flattenTrees content.trees).map FlatNode.id)) ++
  cycleErrors edges (graphKeys edges) ⟨[], [], []⟩

/-- `validateIntegrity`. -/
def validateIntegrity (content : SemanticContent) : ValidationResult :=
  let errors := integrityErrors content
  ⟨errors.isEmpty, errors, orphanWarnings content⟩

end T3x.Semantic
