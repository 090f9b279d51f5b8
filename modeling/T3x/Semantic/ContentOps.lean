import T3x.Semantic.Convert
import T3x.Semantic.RelationKeys
import T3x.Yops.Engine

/-!
# Operations on contents

Generic operations run on the document of the topics, one at a time, and
operations on relations run on the list of relations in between. A failure gives
the content back that the run began with.
-/

namespace T3x.Semantic

open Js Yops

/-- Topics with slots of plain values and their relations. -/
structure DocContent where
  /-- The topics. -/
  trees : List (TreeNode JsValue)
  /-- The relations. -/
  relations : List Relation

/-- What an operation relates. -/
structure RelateOp where
  /-- The path that the relation starts from. -/
  fromPath : JsString
  /-- The path that the relation leads to. -/
  toPath : JsString
  /-- The type key. -/
  type : JsString

/-- `YOp`: a relation to add or to remove, or an operation of the generic engine. -/
inductive ContentOp where
  | relate (op : RelateOp)
  | unrelate (op : RelateOp)
  | generic (op : JsValue)

/-- `YOpsResult` of the engine for contents. -/
structure ContentResult where
  /-- Every operation was applied. -/
  ok : Bool
  /-- The topics. -/
  trees : List (TreeNode JsValue)
  /-- The relations. -/
  relations : List Relation
  /-- How many operations were applied. -/
  applied : ℕ
  /-- The error of a failed run. -/
  error : Option YopsError

/-! ## Relations -/

/-- The topic at a path of keys. -/
def findPath {V : Type} : List JsString → List (TreeNode V) → Option (TreeNode V)
  | [], _ => none
  | [key], trees => trees.find? fun tree => decide (tree.key = key)
  | key :: next :: rest, trees =>
    (trees.find? fun tree => decide (tree.key = key)).bind fun tree =>
      findPath (next :: rest) tree.children

/-- `findNode(trees, path)`. -/
def findNode {V : Type} (trees : List (TreeNode V)) (path : JsString) : Option (TreeNode V) :=
  findPath (segments path) trees

/-- Whether a relation is the one that an operation names. -/
def RelateOp.names (op : RelateOp) (r : Relation) : Bool :=
  decide (r.fromPath = op.fromPath ∧ r.toPath = op.toPath ∧ r.type = op.type)

/-- `handleRelate(op, currentDoc, relations)`: the relations or the code and the message of an
error. -/
def handleRelate (op : RelateOp) (currentDoc : JsValue) (relations : List Relation) :
    Except (String × JsString) (List Relation) :=
  let trees := yvalueToTrees currentDoc
  if op.fromPath = op.toPath then
    .error ("RELATE_SELF", js "Cannot create self-relation: \"" ++ op.fromPath ++ js "\" → \"" ++
      op.fromPath ++ js "\"")
  else if (findNode trees op.fromPath).isNone then
    .error ("RELATE_NOT_FOUND", js "Relate source node not found: \"" ++ op.fromPath ++ js "\"")
  else if (findNode trees op.toPath).isNone then
    .error ("RELATE_NOT_FOUND", js "Relate target node not found: \"" ++ op.toPath ++ js "\"")
  else if relations.any op.names then
    .error ("RELATE_DUPLICATE", js "Relation already exists: \"" ++ op.fromPath ++ js "\" -[" ++
      op.type ++ js "]→ \"" ++ op.toPath ++ js "\"")
  else .ok (relations ++ [⟨op.fromPath, op.toPath, op.type, none, none⟩])

/-- `handleUnrelate(op, relations)`. -/
def handleUnrelate (op : RelateOp) (relations : List Relation) : List Relation :=
  relations.filter fun r => !op.names r

/-- The path that a generic operation drops. -/
def droppedPath : JsValue → Option JsString
  | .obj op => match Record.get op (js "drop") with
    | some (.obj fields) => match Record.get fields (js "path") with
      | some (.str path) => some path
      | _ => none
    | _ => none
  | _ => none

/-- The relations that do not touch what is at a path or below it. -/
def withoutPath (path : JsString) (relations : List Relation) : List Relation :=
  relations.filter fun r => decide (r.fromPath ≠ path) && decide (r.toPath ≠ path) &&
    !(path ++ [unit '/']).isPrefixOf r.fromPath && !(path ++ [unit '/']).isPrefixOf r.toPath

/-! ## Runs -/

section

-- the message of the first issue that the schema library finds in a value
variable (issueMessage : JsValue → JsString)

/-- One operation: the document and the relations after it, or the error. -/
def applyContentOp (doc : JsValue) (relations : List Relation) (index : ℕ) :
    ContentOp → Except (Option YopsError) (JsValue × List Relation)
  | .relate op => match handleRelate op doc relations with
    | .ok next => .ok (doc, next)
    | .error (code, message) => .error (some ⟨code, message, index⟩)
  | .unrelate op => .ok (doc, handleUnrelate op relations)
  | .generic op =>
    let result := Yops.applyYOps issueMessage doc [op]
    if result.ok then
      .ok (result.doc, match droppedPath op with
        | some path => withoutPath path relations
        | none => relations)
    else .error (result.error.map fun e => ⟨e.code, e.message, index⟩)

/-- The operations from an index on, with the current document and relations. -/
def applyContentFrom (original : DocContent) :
    ℕ → JsValue → List Relation → List ContentOp → ContentResult
  | index, doc, relations, [] =>
    { ok := true, trees := yvalueToTrees doc, relations, applied := index, error := none }
  | index, doc, relations, op :: ops =>
    match applyContentOp issueMessage doc relations index op with
    | .ok (next, relations) => applyContentFrom original (index + 1) next relations ops
    | .error error =>
      { ok := false, trees := original.trees, relations := original.relations, applied := index,
        error }

/-- `applyYOps(content, ops)`. -/
def applyContentOps (content : DocContent) (ops : List ContentOp) : ContentResult :=
  applyContentFrom issueMessage content 0 (treesToYValue content.trees) content.relations ops

/-! ## What runs keep of the relations -/

/-- Relations that differ by their parts, none of which relates a path to itself. -/
structure RelationsProper (relations : List Relation) : Prop where
  /-- No relation is there twice. -/
  nodup : (triples relations).Nodup
  /-- No relation leads back to where it starts. -/
  irreflexive : ∀ r ∈ relations, r.fromPath ≠ r.toPath

/-- Some of proper relations are proper. -/
theorem RelationsProper.filter {relations : List Relation} (h : RelationsProper relations)
    (p : Relation → Bool) : RelationsProper (relations.filter p) :=
  ⟨h.nodup.sublist (List.filter_sublist.map _),
    fun r hr => h.irreflexive r (List.mem_filter.mp hr).1⟩

/-- Adding a relation keeps relations proper. -/
theorem RelationsProper.relate {relations next : List Relation} (h : RelationsProper relations)
    {op : RelateOp} {doc : JsValue} (hnext : handleRelate op doc relations = .ok next) :
    RelationsProper next := by
  dsimp only [handleRelate] at hnext
  split_ifs at hnext with hself hfrom hto hduplicate
  obtain rfl := Except.ok.inj hnext
  constructor
  · rw [triples, List.map_append, List.nodup_append]
    refine ⟨h.nodup, List.nodup_singleton _, ?_⟩
    rintro _ ht _ hnew rfl
    obtain ⟨r, hr, htriple⟩ := List.mem_map.mp ht
    rw [List.map_singleton, List.mem_singleton, ← htriple] at hnew
    simp only [Relation.triple, Prod.mk.injEq] at hnew
    exact hduplicate (List.any_eq_true.mpr ⟨r, hr, decide_eq_true hnew⟩)
  · intro r hr
    rcases List.mem_append.mp hr with hr | hr
    · exact h.irreflexive r hr
    · obtain rfl := List.mem_singleton.mp hr
      exact hself

/-- One operation keeps relations proper. -/
theorem RelationsProper.applyContentOp {doc next : JsValue} {relations more : List Relation}
    {index : ℕ} {op : ContentOp} (h : RelationsProper relations)
    (hop : Semantic.applyContentOp issueMessage doc relations index op = .ok (next, more)) :
    RelationsProper more := by
  cases op with
  | relate op =>
    unfold Semantic.applyContentOp at hop
    cases hrelate : handleRelate op doc relations with
    | ok added =>
      simp only [hrelate, Except.ok.injEq, Prod.mk.injEq] at hop
      exact hop.2 ▸ h.relate hrelate
    | error e => simp [hrelate] at hop
  | unrelate op =>
    simp only [Semantic.applyContentOp, Except.ok.injEq, Prod.mk.injEq] at hop
    exact hop.2 ▸ h.filter _
  | generic op =>
    simp only [Semantic.applyContentOp] at hop
    split_ifs at hop
    simp only [Except.ok.injEq, Prod.mk.injEq] at hop
    obtain ⟨-, rfl⟩ := hop
    split
    · exact h.filter _
    · exact h

/-- Every run keeps relations proper, failed or not. -/
theorem relationsProper_applyContentOps {content : DocContent}
    (h : RelationsProper content.relations) (ops : List ContentOp) :
    RelationsProper (applyContentOps issueMessage content ops).relations := by
  have hrun : ∀ ops index doc relations, RelationsProper relations →
      RelationsProper
        (applyContentFrom issueMessage content index doc relations ops).relations := by
    intro ops
    induction ops with
    | nil => exact fun _ _ _ hrelations => hrelations
    | cons op ops ih =>
      intro index doc relations hrelations
      rw [applyContentFrom]
      cases hop : applyContentOp issueMessage doc relations index op with
      | ok state => exact ih _ _ _ (hrelations.applyContentOp issueMessage hop)
      | error e => exact h
  exact hrun ops 0 _ _ h

/-! ## The empty run -/

/-- The topics come back from their document up to order, and so does the content from a
run without operations, exactly when no key and no slot among the topics is named
`__proto__`. -/
theorem applyContentOps_nil_iff {content : DocContent} (h : ConvertibleTrees content.trees) :
    (AlikeTrees (yvalueToTrees (treesToYValue content.trees)) content.trees ∧
      (applyContentOps issueMessage content []).ok = true ∧
      AlikeTrees (applyContentOps issueMessage content []).trees content.trees ∧
      (applyContentOps issueMessage content []).relations = content.relations) ↔
      allAvoidProto content.trees = true := by
  rw [← yvalueToTrees_treesToYValue_iff h]
  exact ⟨fun hall => hall.1, fun halike => ⟨halike, rfl, halike, rfl⟩⟩

/-- A topic with a null slot, an array slot and two subtopics, one of them empty. -/
def corneredTrees : List (TreeNode JsValue) :=
  [.node (js "a") [(js "x", .null), (js "1", .arr [])]
    [.node (js "2") [] [], .node (js "b") [(js "y", .bool true)] []]]

/-- Empty topics, null slots and array slots come back. -/
theorem applyContentOps_nil_cornered :
    (AlikeTrees (yvalueToTrees (treesToYValue corneredTrees)) corneredTrees ∧
      (applyContentOps (fun _ => []) ⟨corneredTrees, []⟩ []).ok = true ∧
      AlikeTrees (applyContentOps (fun _ => []) ⟨corneredTrees, []⟩ []).trees corneredTrees ∧
      (applyContentOps (fun _ => []) ⟨corneredTrees, []⟩ []).relations = []) := by
  have hconvertible : ConvertibleTrees (⟨corneredTrees, []⟩ : DocContent).trees := by decide
  exact (applyContentOps_nil_iff (fun _ => []) hconvertible).mpr (by decide)

/-- A slot named `__proto__` does not come back. -/
theorem proto_slot_lost :
    ConvertibleTrees [.node (js "a") [(js "__proto__", .bool true)] []] ∧
      ¬ AlikeTrees (yvalueToTrees (treesToYValue
        [.node (js "a") [(js "__proto__", .bool true)] []]))
        [.node (js "a") [(js "__proto__", .bool true)] []] := by
  refine ⟨by decide, fun halike => ?_⟩
  have hnone := (yvalueToTrees_treesToYValue_iff (by decide)).mp halike
  exact absurd hnone (by decide)

end

end T3x.Semantic
