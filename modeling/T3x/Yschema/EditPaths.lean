import T3x.Yops.Refinement
import T3x.Yschema.EditReading

/-!
# Where the nodes of a schema stand

The path of a node leads through the schema as the object it is to the node as the object it
is. When the part at the path is replaced, the nodes that are read again are the nodes of the
schema with what the new part is read as put at the path.
-/

namespace T3x.Yschema

open Js T3x.Run T3x.Yops

variable {regExpError : JsString → Option JsString}

/-! ## Objects -/

/-- The object of fields, the first one apart. -/
theorem present_cons (name : String) (value : Option JsValue)
    (fields : List (String × Option JsValue)) :
    present ((name, value) :: fields) = optionalMember name value ++ present fields := by
  unfold present optionalMember
  rw [List.filterMap_cons]
  cases value <;> rfl

/-- The object of no fields. -/
theorem present_nil : present [] = [] := rfl

/-- A field that is set. -/
theorem optionalMember_some (name : String) (value : JsValue) :
    optionalMember name (some value) = [(js name, value)] := rfl

/-- The two ways of writing a hint agree. -/
theorem YOpsHint.toObject_eq : YOpsHint.toObject = YOpsHint.value := by
  funext hint
  simp only [toObject, value, fields, present_cons, present_nil, List.append_nil,
    List.append_assoc]

/-- The two ways of writing a slot agree. -/
theorem SlotSchema.toObject_eq : SlotSchema.toObject = SlotSchema.value := by
  funext slot
  simp only [toObject, value, fields, present_cons, present_nil, List.append_nil,
    List.append_assoc, YOpsHint.toObject_eq]

/-- The two ways of writing the children of a node agree. -/
theorem Children.toValue_eq : Children.toValue = Children.value := by
  funext children
  cases children <;> rfl

/-- The members of a node, as its fields. -/
theorem NodeHead.members_eq (head : NodeHead) (children : Option (Children JsValue)) :
    head.members ++ optionalMember "children" (children.map Children.toValue) =
      present (head.fields children) := by
  simp only [members, fields, present_cons, present_nil, List.append_nil, List.append_assoc,
    SlotSchema.toObject_eq, Children.toValue_eq]
  rfl

/-- The two ways of writing a node agree. -/
theorem NodeSchema.toObject_eq : NodeSchema.toObject = NodeSchema.value := by
  funext node
  unfold toObject value
  simp only [NodeHead.members_eq]

/-- The members of a node, as its fields. -/
theorem NodeSchema.members_eq (node : NodeSchema) :
    node.members = present (node.head.fields (mapChildren NodeSchema.value node.children)) := by
  rw [members, NodeHead.members_eq, toObject_eq]

/-- A node as the object of its members. -/
theorem NodeSchema.value_eq (node : NodeSchema) : node.value = .obj node.members := by
  obtain ⟨head, children⟩ := node
  rw [members_eq, value_mk]
  rfl

/-- The two ways of writing a relation type agree. -/
theorem RelationTypeSchema.toObject_eq : RelationTypeSchema.toObject = RelationTypeSchema.value := by
  funext typeSchema
  simp only [toObject, value, fields, present_cons, present_nil, optionalMember_some,
    List.append_nil, List.append_assoc, List.cons_append, List.nil_append]

/-- The two ways of writing a rule agree. -/
theorem YSchemaRuleSchema.toObject_eq : YSchemaRuleSchema.toObject = YSchemaRuleSchema.value := by
  funext rule
  cases rule <;>
    simp only [toObject, value, fields, present_cons, present_nil, optionalMember_some,
      List.append_nil, List.cons_append, List.nil_append]

/-- The two ways of writing a schema agree. -/
theorem YSchema.toObject_eq (schema : YSchema) : schema.toObject = schema.value := by
  simp only [toObject, value, members, fields, present_cons, present_nil, optionalMember_some,
    List.append_nil, List.append_assoc, List.cons_append, List.nil_append, NodeSchema.toObject_eq,
    RelationTypeSchema.toObject_eq, YSchemaRuleSchema.toObject_eq]

/-! ## The text of a path -/

/-- The path from a record of nodes to the node that keys name. -/
def belowNodes : List JsString → List PathSegment
  | [] => []
  | [key] => [.key key]
  | key :: keys => .key key :: .key (js "children") :: belowNodes keys

/-- The path from a schema to the node that keys name. -/
def nodeSegments (keys : List JsString) : List PathSegment := .key (js "nodes") :: belowNodes keys

/-- A machine-safe key is printed as it is. -/
theorem formatPathSegment_of_isKey {key : JsString} (h : isKey key = true) :
    formatPathSegment (.key key) = key := by
  have hsafe : ∀ u ∈ reservedUnits, (isLower u || isDigit u || u == unit '_') = false :=
    forall_mem_of_all (by decide)
  obtain ⟨u, rest, rfl⟩ : ∃ u rest, key = u :: rest := by
    cases key with
    | nil => cases h
    | cons u rest => exact ⟨u, rest, rfl⟩
  simp only [isKey, Bool.and_eq_true, List.all_eq_true] at h
  have hall : ∀ v ∈ u :: rest, v ∉ reservedUnits := by
    intro v hv hreserved
    have hnot := hsafe v hreserved
    rcases List.mem_cons.mp hv with rfl | hv
    · rw [h.1] at hnot
      cases hnot
    · rw [h.2 v hv] at hnot
      cases hnot
  exact formatPathSegment_of_plain (List.cons_ne_nil _ _) hall

/-- The path below a node. -/
theorem belowNodes_cons_cons (key next : JsString) (keys : List JsString) :
    belowNodes (key :: next :: keys) =
      .key key :: .key (js "children") :: belowNodes (next :: keys) := rfl

/-- The path to a node is not empty. -/
theorem exists_belowNodes_cons (key : JsString) (keys : List JsString) :
    ∃ rest, belowNodes (key :: keys) = .key key :: rest := by
  cases keys <;> exact ⟨_, rfl⟩

/-- Parts with a text between them, the first one apart. -/
theorem intercalate_cons_cons (between a b : JsString) (parts : List JsString) :
    between.intercalate (a :: b :: parts) = a ++ between ++ between.intercalate (b :: parts) := by
  simp [List.intercalate, List.intersperse]

/-- The text of the path below the nodes. -/
theorem intercalate_eq {keys : List JsString} (hne : keys ≠ [])
    (h : ∀ key ∈ keys, isKey key = true) :
    (js "/children/").intercalate keys = formatPathSegments (belowNodes keys) := by
  induction keys with
  | nil => exact absurd rfl hne
  | cons key keys ih =>
    obtain ⟨hkey, hkeys⟩ := List.forall_mem_cons.mp h
    cases keys with
    | nil => simp [formatPathSegments, belowNodes, formatPathSegment_of_isKey hkey, List.intercalate]
    | cons next keys =>
      have hrest := ih (List.cons_ne_nil _ _) hkeys
      obtain ⟨rest, hbelow⟩ := exists_belowNodes_cons next keys
      have hname : formatPathSegment (.key (js "children")) = js "children" :=
        formatPathSegment_of_isKey (by decide)
      rw [hbelow] at hrest
      simp only [formatPathSegments, List.map_cons] at hrest
      rw [intercalate_cons_cons, hrest, belowNodes_cons_cons, hbelow]
      simp only [formatPathSegments, List.map_cons, join_cons_cons, hname,
        formatPathSegment_of_isKey hkey]
      rw [List.append_assoc]
      rfl

/-- The path of a node is read back from its text. -/
theorem tryParsePath_nodeYOpsPath {keys : List JsString} (hne : keys ≠ [])
    (h : ∀ key ∈ keys, isKey key = true) :
    tryParsePath (nodeYOpsPath keys) = .ok (nodeSegments keys) := by
  have htext : nodeYOpsPath keys = formatPathSegments (nodeSegments keys) := by
    obtain ⟨key, keys, rfl⟩ := List.exists_cons_of_ne_nil hne
    obtain ⟨rest, hbelow⟩ := exists_belowNodes_cons key keys
    have hname : formatPathSegment (.key (js "nodes")) = js "nodes" :=
      formatPathSegment_of_isKey (by decide)
    rw [nodeYOpsPath, intercalate_eq hne h, nodeSegments, hbelow]
    simp only [formatPathSegments, List.map_cons, join_cons_cons, hname]
    rfl
  have hkeys : ∀ keys, ∀ segment ∈ belowNodes keys, segment.WellFormed := by
    intro keys
    induction keys with
    | nil => exact fun _ hsegment => absurd hsegment List.not_mem_nil
    | cons key keys ih =>
      cases keys with
      | nil => exact List.forall_mem_singleton.mpr trivial
      | cons next keys =>
        rw [belowNodes_cons_cons]
        exact List.forall_mem_cons.mpr ⟨trivial, List.forall_mem_cons.mpr ⟨trivial, ih⟩⟩
  rw [htext]
  exact tryParsePath_format (List.forall_mem_cons.mpr ⟨trivial, hkeys keys⟩)

/-- The text of a path of a node is not empty. -/
theorem nodeYOpsPath_ne_nil (keys : List JsString) : nodeYOpsPath keys ≠ [] :=
  List.cons_ne_nil _ _

/-! ## The part at a path -/

/-- Nodes as the object they are. -/
def nodesValue (nodes : Record NodeSchema) : JsValue :=
  .obj (Record.mapValues NodeSchema.value nodes)

/-- What stands under `children` in a node. -/
theorem get_members_children (node : NodeSchema) :
    Record.get node.members (js "children") =
      (mapChildren NodeSchema.value node.children).map Children.value := by
  rw [NodeSchema.members_eq]
  exact get_present (node.head.nodup_fields _) _ _ (by simp [NodeHead.fields])

/-- A node is found below another one in its declared children. -/
theorem resolveNodeFrom_eq_some_iff {nodes : Record NodeSchema} {key next : JsString}
    {keys : List JsString} {found : Option NodeSchema} :
    resolveNodeFrom (readMember nodes key) (next :: keys) = some found ↔
      ∃ head inner, Record.get nodes key = some (.mk head (some (.declared inner))) ∧
        resolveNodeFrom (readMember inner next) keys = some found := by
  unfold readMember
  cases hget : Record.get nodes key with
  | none => split_ifs <;> simp [resolveNodeFrom]
  | some node =>
    match node with
    | .mk head none => simp [resolveNodeFrom]
    | .mk head (some .any) => simp [resolveNodeFrom]
    | .mk head (some (.declared inner)) =>
      simp only [resolveNodeFrom, Option.some.injEq, NodeSchema.mk.injEq, Children.declared.injEq]
      constructor
      · exact fun h => ⟨head, inner, ⟨rfl, rfl⟩, h⟩
      · rintro ⟨_, _, ⟨rfl, rfl⟩, h⟩
        exact h

/-- A member that is no inherited one is an own one. -/
theorem get_of_readMember {V : Type} {record : Record V} {key : JsString} {value : V}
    (h : readMember record key = some (some value)) : Record.get record key = some value := by
  unfold readMember at h
  split at h
  · next value' hget => rw [hget, Option.some.inj (Option.some.inj h)]
  · split_ifs at h
    cases h

/-- At the path of a node that is found is the node. -/
theorem resolve_belowNodes {nodes : Record NodeSchema} {key : JsString} {keys : List JsString}
    {node : NodeSchema} (h : resolveNodeFrom (readMember nodes key) keys = some (some node)) :
    resolvePathSegments (nodesValue nodes) (belowNodes (key :: keys)) = some node.value := by
  induction keys generalizing nodes key with
  | nil =>
    have hget := get_of_readMember (show readMember nodes key = some (some node) from h)
    simp [belowNodes, resolvePathSegments, PathSegment.select, nodesValue, hget]
  | cons next keys ih =>
    obtain ⟨head, inner, hget, hrest⟩ := resolveNodeFrom_eq_some_iff.mp h
    have hfirst : (PathSegment.key key).select (nodesValue nodes) =
        some (.obj (NodeSchema.mk head (some (.declared inner))).members) := by
      simp [PathSegment.select, nodesValue, hget, NodeSchema.value_eq]
    have hsecond : (PathSegment.key (js "children")).select
        (.obj (NodeSchema.mk head (some (.declared inner))).members) = some (nodesValue inner) :=
      get_members_children _
    rw [belowNodes_cons_cons, resolvePathSegments_cons, hfirst, Option.bind_some,
      resolvePathSegments_cons, hsecond, Option.bind_some]
    exact ih hrest

/-- A node that is found is read. -/
theorem isRead_of_resolveNodeFrom {nodes : Record NodeSchema} {key : JsString}
    {keys : List JsString} {node : NodeSchema} (hnodes : AreRead regExpError nodes)
    (h : resolveNodeFrom (readMember nodes key) keys = some (some node)) :
    node.IsRead regExpError := by
  induction keys generalizing nodes key with
  | nil =>
    have hget := get_of_readMember (show readMember nodes key = some (some node) from h)
    exact hnodes.isRead _ (Record.mem_of_get hget)
  | cons next keys ih =>
    obtain ⟨head, inner, hget, hrest⟩ := resolveNodeFrom_eq_some_iff.mp h
    exact ih (hnodes.isRead _ (Record.mem_of_get hget)).children hrest

/-- Where the node at a path is replaced, what the new part is read as is put there. -/
theorem read_replaceAt {nodes : Record NodeSchema} {key : JsString} {keys : List JsString}
    {node : NodeSchema} (new : JsValue) (hnodes : AreRead regExpError nodes)
    (h : resolveNodeFrom (readMember nodes key) keys = some (some node)) :
    ∃ raw, replaceAt new (belowNodes (key :: keys)) (nodesValue nodes) = .obj raw ∧
      ∀ keyContext context members,
        normalizeMembers raw keyContext context (normalizeNode regExpError) = .ok members →
          ∃ updated context, normalizeNode regExpError new context = .ok updated ∧
            members = putNodeAt updated (key :: keys) nodes := by
  induction keys generalizing nodes key with
  | nil =>
    have hget := get_of_readMember (show readMember nodes key = some (some node) from h)
    have hselect : (PathSegment.key key).select (nodesValue nodes) = some node.value := by
      simp [PathSegment.select, nodesValue, hget]
    refine ⟨_, replaceAt_cons hselect, fun keyContext context members hread => ?_⟩
    exact eq_setOwn_of_normalizeMembers hnodes.nodup
      (fun e he => (hnodes.isRead e he).settled) hread
  | cons next keys ih =>
    obtain ⟨head, inner, hget, hrest⟩ := resolveNodeFrom_eq_some_iff.mp h
    have hkept := hnodes.isRead _ (Record.mem_of_get hget)
    have hfirst : (PathSegment.key key).select (nodesValue nodes) =
        some (.obj (NodeSchema.mk head (some (.declared inner))).members) := by
      simp [PathSegment.select, nodesValue, hget, NodeSchema.value_eq]
    have hsecond : (PathSegment.key (js "children")).select
        (.obj (NodeSchema.mk head (some (.declared inner))).members) = some (nodesValue inner) :=
      get_members_children _
    have hchildren : AreRead regExpError inner := hkept.children
    obtain ⟨raw, hraw, hinner⟩ := ih hchildren hrest
    refine ⟨Record.setOwn (Record.mapValues NodeSchema.value nodes) key (.obj (Record.setOwn
      (NodeSchema.mk head (some (.declared inner))).members (js "children") (.obj raw))), ?_, ?_⟩
    · rw [belowNodes_cons_cons, replaceAt_cons hfirst, replaceAt_cons hsecond, hraw]
      rfl
    intro keyContext context members hread
    obtain ⟨parent, _, hparent, rfl⟩ := eq_setOwn_of_normalizeMembers hnodes.nodup
      (fun e he => (hnodes.isRead e he).settled) hread
    rw [NodeSchema.members_eq] at hparent
    obtain ⟨below, _, hbelow, rfl⟩ := hkept.of_children hparent
    obtain ⟨updated, context', hupdated, rfl⟩ := hinner _ _ _ hbelow
    refine ⟨updated, context', hupdated, ?_⟩
    simp only [putNodeAt, changeAt, hget]
    rfl

/-- Changing the record below a node is putting the node with its children changed. -/
theorem changeAt_concat {nodes : Record NodeSchema} {key : JsString} {keys : List JsString}
    {node : NodeSchema} (change : Record NodeSchema → JsString → Record NodeSchema)
    (last : JsString) (h : resolveNodeFrom (readMember nodes key) keys = some (some node)) :
    changeAt change (key :: keys ++ [last]) nodes =
      putNodeAt (.mk node.head (some (.declared (change (Children.nodes node.children) last))))
        (key :: keys) nodes := by
  induction keys generalizing nodes key with
  | nil =>
    have hget := get_of_readMember (show readMember nodes key = some (some node) from h)
    obtain ⟨head, children⟩ := node
    simp only [List.cons_append, List.nil_append, changeAt, putNodeAt, hget]
    rfl
  | cons next keys ih =>
    obtain ⟨head, inner, hget, hrest⟩ := resolveNodeFrom_eq_some_iff.mp h
    have hbelow := ih hrest
    simp only [List.cons_append, putNodeAt, changeAt, hget, Children.nodes] at hbelow ⊢
    rw [hbelow]

/-- The path to a node below another one. -/
theorem belowNodes_concat (key : JsString) (keys : List JsString) (last : JsString) :
    belowNodes (key :: keys ++ [last]) =
      belowNodes (key :: keys) ++ [.key (js "children"), .key last] := by
  induction keys generalizing key with
  | nil => rfl
  | cons next keys ih =>
    have hrest := ih next
    simp only [List.cons_append, belowNodes_cons_cons] at hrest ⊢
    rw [hrest]

end T3x.Yschema
