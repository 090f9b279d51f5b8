import T3x.Js.Agree

/-!
# Documents of semantic content

A semantic document holds trees of nodes with slots, and relations between nodes. A
migration may only lead to one in which siblings have distinct keys, nodes have distinct
paths, no slot has the name of a child, and every endpoint of a relation is a node.
-/

namespace T3x.Migration

open Js

/-! ## Nodes -/

/-- A complete node. -/
structure SemanticNode where
  /-- The key. -/
  key : JsString
  /-- The slots. -/
  slots : Record JsValue
  /-- The children. -/
  children : List JsValue

/-- A value as a complete node. -/
def readNode : JsValue → Option SemanticNode
  | .obj members =>
    match Record.get members (js "key"), Record.get members (js "slots"),
      Record.get members (js "children") with
    | some (.str key), some (.obj slots), some (.arr children) => some ⟨key, slots, children⟩
    | _, _, _ => none
  | _ => none

/-- The key of a child, complete or not. -/
def childKey : JsValue → Option JsString
  | .obj members =>
    match Record.get members (js "key") with
    | some (.str key) => some key
    | _ => none
  | _ => none

/-- The first child with the name of a slot. -/
def SemanticNode.collision (node : SemanticNode) : Option JsString :=
  node.children.findSome? fun child => (childKey child).filter (Record.has node.slots)

/-- The path of a node below another. -/
def nodePath (parent key : JsString) : JsString :=
  if parent = [] then key else parent ++ unit '/' :: key

/-- A part of an object is smaller than the object. -/
theorem sizeOf_lt_of_get {members : Record JsValue} {name : JsString} {value : JsValue}
    (h : Record.get members name = some value) : sizeOf value < sizeOf (JsValue.obj members) := by
  have hmem := List.sizeOf_lt_of_mem (Record.mem_of_get h)
  rw [JsValue.obj.sizeOf_spec]
  rw [Prod.mk.sizeOf_spec] at hmem
  omega

/-- The children of a node are smaller than the node. -/
theorem sizeOf_children_lt {value : JsValue} {node : SemanticNode}
    (h : readNode value = some node) : sizeOf node.children < sizeOf value := by
  unfold readNode at h
  split at h
  · next members =>
    split at h
    · next key slots children _ _ hchildren =>
      obtain rfl := Option.some.inj h
      have hlt := sizeOf_lt_of_get hchildren
      rw [JsValue.arr.sizeOf_spec] at hlt
      change sizeOf children < _
      omega
    · cases h
  · cases h

/-! ## The check -/

/-- `visit(nodes, parent)`, with the keys of the siblings before and the paths of all nodes
before. -/
def visitNodes (nodes : List JsValue) (parent : JsString) (keys paths : List JsString) :
    Except JsString (List JsString) :=
  match nodes with
  | [] => .ok paths
  | value :: rest =>
    match _hnode : readNode value with
    | none => .error (js "Migration must retain complete semantic nodes.")
    | some node =>
      let path := nodePath parent node.key
      if node.key ∈ keys then
        .error (js "Migration creates duplicate sibling key: " ++ node.key)
      else if path ∈ paths then
        .error (js "Migration creates ambiguous node path: " ++ path)
      else
        match node.collision with
        | some name =>
          .error (js "Migration creates a Slot/child collision: " ++ path ++ js "/" ++ name)
        | none =>
          (visitNodes node.children path [] (paths ++ [path])).bind fun paths =>
            visitNodes rest parent (keys ++ [node.key]) paths
termination_by sizeOf nodes
decreasing_by
  · have hlt := sizeOf_children_lt _hnode
    simp only [List.cons.sizeOf_spec]
    omega
  · simp only [List.cons.sizeOf_spec]
    omega

/-- The ends of a relation, if the relation is complete. -/
def relationEndpoints : JsValue → Option (List JsString)
  | .obj members =>
    match Record.get members (js "from"), Record.get members (js "to"),
      Record.get members (js "type") with
    | some (.str source), some (.str target), some (.str _) => some [source, target]
    | _, _, _ => none
  | _ => none

/-- Whether an endpoint names a node, as it is or below the root. -/
def namesNode (rootKey : JsString) (paths : List JsString) (endpoint : JsString) : Bool :=
  decide (endpoint ∈ paths ∨ rootKey ++ unit '/' :: endpoint ∈ paths)

/-- The loop over the relations. -/
def checkRelations (rootKey : JsString) (paths : List JsString) (relations : List JsValue) :
    Except JsString Unit :=
  relations.forM fun relation =>
    match relationEndpoints relation with
    | none => .error (js "Migration must retain complete relations.")
    | some endpoints => endpoints.forM fun endpoint =>
      if namesNode rootKey paths endpoint then .ok ()
      else .error (js "Migrate the relation endpoint explicitly: " ++ endpoint)

/-- The trees and the relations of a semantic document. -/
def semanticContent : JsValue → Option (List JsValue × List JsValue)
  | .obj members =>
    match Record.get members (js "content") with
    | some (.obj content) =>
      match Record.get content (js "trees"), Record.get content (js "relations") with
      | some (.arr trees), some (.arr relations) => some (trees, relations)
      | _, _ => none
    | _ => none
  | _ => none

/-- `assertSemanticResult(document, rootKey)`. -/
def assertSemanticResult (document : JsValue) (rootKey : JsString) : Except JsString Unit :=
  match semanticContent document with
  | none => .error (js "Migration must retain a semantic content document.")
  | some (trees, relations) => do
    let paths ← visitNodes trees [] [] []
    checkRelations rootKey paths relations

/-! ## What is checked -/

/-- The paths of the nodes of a forest, each node before those below it. -/
def nodePaths (nodes : List JsValue) (parent : JsString) : List JsString :=
  match nodes with
  | [] => []
  | value :: rest =>
    match _hnode : readNode value with
    | none => nodePaths rest parent
    | some node =>
      nodePath parent node.key ::
        (nodePaths node.children (nodePath parent node.key) ++ nodePaths rest parent)
termination_by sizeOf nodes
decreasing_by
  · simp only [List.cons.sizeOf_spec]
    omega
  · have hlt := sizeOf_children_lt _hnode
    simp only [List.cons.sizeOf_spec]
    omega
  · simp only [List.cons.sizeOf_spec]
    omega

/-- The nodes of one parent in a forest, or those at its top. -/
inductive Siblings : List JsValue → List JsValue → Prop
  | top (nodes : List JsValue) : Siblings nodes nodes
  | inner {nodes group : List JsValue} {value : JsValue} {node : SemanticNode}
      (hmem : value ∈ nodes) (hnode : readNode value = some node)
      (h : Siblings node.children group) : Siblings nodes group

/-- The key of a complete node. -/
def nodeKey (value : JsValue) : Option JsString := (readNode value).map SemanticNode.key

/-- Siblings that are complete, have distinct keys, and no child with the name of a slot. -/
structure SiblingsSound (group : List JsValue) : Prop where
  /-- They are complete nodes. -/
  complete : ∀ value ∈ group, ∃ node, readNode value = some node
  /-- Their keys are distinct. -/
  distinct : (group.filterMap nodeKey).Nodup
  /-- No child of one has the name of one of its slots. -/
  apart : ∀ value ∈ group, ∀ node, readNode value = some node →
    ∀ child ∈ node.children, ∀ key, childKey child = some key → Record.has node.slots key = false

/-- A sound semantic document: sound siblings throughout, distinct node paths, and relations
between nodes. -/
structure SemanticSound (document : JsValue) (rootKey : JsString) (trees relations : List JsValue) :
    Prop where
  /-- The document has the trees and the relations. -/
  content : semanticContent document = some (trees, relations)
  /-- Siblings are sound. -/
  siblings : ∀ group, Siblings trees group → SiblingsSound group
  /-- The paths of the nodes are distinct. -/
  paths : (nodePaths trees []).Nodup
  /-- Every endpoint of a relation names a node. -/
  endpoints : ∀ relation ∈ relations, ∃ endpoints, relationEndpoints relation = some endpoints ∧
    ∀ endpoint ∈ endpoints, namesNode rootKey (nodePaths trees []) endpoint = true

variable {nodes relations : List JsValue} {parent rootKey : JsString}
  {keys paths paths' : List JsString} {document : JsValue}

/-- A node without a collision has no child with the name of a slot. -/
theorem apart_of_collision {node : SemanticNode} (h : node.collision = none) {child : JsValue}
    (hchild : child ∈ node.children) {key : JsString} (hkey : childKey child = some key) :
    Record.has node.slots key = false := by
  have hnone := List.findSome?_eq_none_iff.mp h child hchild
  rw [hkey] at hnone
  simpa [Option.filter] using hnone

/-- The paths of a forest that begins with a node. -/
theorem nodePaths_cons {value : JsValue} {node : SemanticNode} (h : readNode value = some node)
    (rest : List JsValue) (parent : JsString) :
    nodePaths (value :: rest) parent = nodePath parent node.key ::
      (nodePaths node.children (nodePath parent node.key) ++ nodePaths rest parent) := by
  rw [nodePaths]
  split
  · next hnone => rw [h] at hnone; cases hnone
  · next other hother =>
    obtain rfl := Option.some.inj (h.symm.trans hother)
    rfl

/-- A forest that is visited has sound siblings, none with a key from before, and adds its
distinct paths to those from before. -/
theorem visitNodes_spec (h : visitNodes nodes parent keys paths = .ok paths') :
    paths' = paths ++ nodePaths nodes parent ∧ (paths.Nodup → paths'.Nodup) ∧
      (∀ key ∈ nodes.filterMap nodeKey, key ∉ keys) ∧
      ∀ group, Siblings nodes group → SiblingsSound group := by
  fun_induction visitNodes nodes parent keys paths generalizing paths' with
  | case1 parent keys paths =>
    obtain rfl := Except.ok.inj h
    refine ⟨by simp [nodePaths], id, by simp, fun group hgroup => ?_⟩
    have hnil : group = [] := by
      cases hgroup with
      | top => rfl
      | inner hmem => cases hmem
    subst hnil
    exact ⟨by simp, by simp, by simp⟩
  | case2 => cases h
  | case3 => cases h
  | case4 => cases h
  | case5 => cases h
  | case6 parent keys paths value rest node hnode path hkey hpath hcollision ihchildren =>
    rename_i ihrest
    obtain ⟨inner, hinner, hrest⟩ := bind_eq_ok_iff.mp h
    obtain ⟨hpathsInner, hnodupInner, -, hgroupsInner⟩ := ihchildren hinner
    obtain ⟨hpathsRest, hnodupRest, hkeysRest, hgroupsRest⟩ := ihrest inner hrest
    have hnodeKey : nodeKey value = some node.key := by rw [nodeKey, hnode]; rfl
    have hkeys : (value :: rest).filterMap nodeKey = node.key :: rest.filterMap nodeKey :=
      List.filterMap_cons_some hnodeKey
    have htop := hgroupsRest rest (.top rest)
    refine ⟨?_, fun hnodup => ?_, ?_, fun group hgroup => ?_⟩
    · rw [hpathsRest, hpathsInner, nodePaths_cons hnode]
      simp [path]
    · refine hnodupRest (hnodupInner ?_)
      exact (List.nodup_append_comm.mp (List.nodup_cons.mpr ⟨hpath, hnodup⟩))
    · rw [hkeys]
      refine List.forall_mem_cons.mpr ⟨hkey, fun key hmem hold => ?_⟩
      exact hkeysRest key hmem (List.mem_append_left _ hold)
    · cases hgroup with
      | top =>
        constructor
        · exact List.forall_mem_cons.mpr ⟨⟨node, hnode⟩, htop.complete⟩
        · rw [hkeys]
          refine List.nodup_cons.mpr ⟨fun hmem => ?_, htop.distinct⟩
          exact hkeysRest _ hmem (List.mem_append_right _ (List.mem_singleton.mpr rfl))
        · refine List.forall_mem_cons.mpr ⟨fun other hother child hchild key hkey => ?_, htop.apart⟩
          obtain rfl := Option.some.inj (hnode.symm.trans hother)
          exact apart_of_collision hcollision hchild hkey
      | inner hmem hother hgroup =>
        rcases List.mem_cons.mp hmem with rfl | hmem
        · obtain rfl := Option.some.inj (hnode.symm.trans hother)
          exact hgroupsInner group hgroup
        · exact hgroupsRest group (.inner hmem hother hgroup)

/-- A loop of checks passes only where every check does. -/
theorem forM_eq_ok {T E : Type} {items : List T} {check : T → Except E Unit}
    (h : items.forM check = .ok ()) : ∀ item ∈ items, check item = .ok () := by
  induction items with
  | nil => exact fun _ hmem => absurd hmem List.not_mem_nil
  | cons item items ih =>
    have hbind : (check item >>= fun _ => items.forM check) = .ok () := h
    obtain ⟨⟨⟩, hitem, hrest⟩ := bind_eq_ok_iff.mp hbind
    exact List.forall_mem_cons.mpr ⟨hitem, ih hrest⟩

/-- The relations that pass are complete and between nodes. -/
theorem checkRelations_spec (h : checkRelations rootKey paths relations = .ok ()) :
    ∀ relation ∈ relations, ∃ endpoints, relationEndpoints relation = some endpoints ∧
      ∀ endpoint ∈ endpoints, namesNode rootKey paths endpoint = true := by
  intro relation hrelation
  have hone := forM_eq_ok h relation hrelation
  cases hends : relationEndpoints relation with
  | none =>
    rw [hends] at hone
    cases hone
  | some endpoints =>
    rw [hends] at hone
    refine ⟨endpoints, rfl, fun endpoint hendpoint => ?_⟩
    have hcheck := forM_eq_ok hone endpoint hendpoint
    by_contra hnot
    rw [if_neg hnot] at hcheck
    cases hcheck

/-- A document that passes the check is sound. -/
theorem semanticSound_of_assert (h : assertSemanticResult document rootKey = .ok ()) :
    ∃ trees relations, SemanticSound document rootKey trees relations := by
  unfold assertSemanticResult at h
  cases hcontent : semanticContent document with
  | none =>
    rw [hcontent] at h
    cases h
  | some content =>
    obtain ⟨trees, relations⟩ := content
    rw [hcontent] at h
    obtain ⟨paths, hvisit, hrelations⟩ := bind_eq_ok_iff.mp h
    obtain ⟨rfl, hnodup, -, hgroups⟩ := visitNodes_spec hvisit
    exact ⟨trees, relations,
      { content := hcontent
        siblings := hgroups
        paths := hnodup List.nodup_nil
        endpoints := checkRelations_spec hrelations }⟩

end T3x.Migration
