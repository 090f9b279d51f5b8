import T3x.Yschema.Encoding

/-!
# Reading a schema again

The schema that the reading returns is read again to itself, unless a slot of it was
declared by an array of no values: that gives an empty enumeration, which the reading
of a mapping refuses.
-/

namespace T3x.Yschema

open Js

/-! ## Relation types -/

/-- The fields of a relation type. -/
def RelationTypeSchema.fields (typeSchema : RelationTypeSchema) : List (String × Option JsValue) :=
  [("from", some (.str typeSchema.from)), ("to", some (.str typeSchema.to)),
    ("description", typeSchema.description.map .str),
    ("contentGuidance", typeSchema.contentGuidance.map .str),
    ("acyclic", typeSchema.acyclic.map .bool)]

/-- The names of the fields of a relation type. -/
def relationTypeNames : List String := ["from", "to", "description", "contentGuidance", "acyclic"]

/-- A relation type as a value. -/
def RelationTypeSchema.value (typeSchema : RelationTypeSchema) : JsValue :=
  .obj (present typeSchema.fields)

/-- An endpoint that is accepted in one place is accepted in another. -/
theorem checkEndpoint_context {nodes : Record NodeSchema} {pattern context : JsString}
    (h : checkEndpoint nodes pattern context = .ok ()) (context' : JsString) :
    checkEndpoint nodes pattern context' = .ok () :=
  checkEndpoint_eq_ok_iff.mpr (checkEndpoint_eq_ok_iff.mp h)

/-- A relation type with accepted endpoints is read of its value. -/
theorem normalizeRelationType_value {nodes : Record NodeSchema} {typeSchema : RelationTypeSchema}
    {context : JsString} (hfrom : checkEndpoint nodes typeSchema.from context = .ok ())
    (hto : checkEndpoint nodes typeSchema.to context = .ok ()) (context' : JsString) :
    normalizeRelationType nodes typeSchema.value context' = .ok typeSchema := by
  have hnames : fieldNames typeSchema.fields = relationTypeNames.map js := rfl
  have hnodup : (fieldNames typeSchema.fields).Nodup := by rw [hnames]; decide
  have hget := get_present hnodup
  have hreads : ReadsField (present typeSchema.fields) "contentGuidance" "content_guidance"
      (asOptionalString · (context' ++ js ".contentGuidance")) typeSchema.contentGuidance :=
    readsField_present (typeSchema.contentGuidance.map .str) hnodup
      (by simp [RelationTypeSchema.fields]) (by rw [hnames]; decide) (asOptionalString_map _ _)
  obtain ⟨rawGuidance, hrawGuidance, hguidance⟩ := hreads
  unfold normalizeRelationType RelationTypeSchema.value
  refine bind_eq_ok_iff.mpr ⟨_, rfl, ?_⟩
  refine bind_eq_ok_iff.mpr ⟨(), rejectDeprecatedFields_present (by rw [hnames]; decide), ?_⟩
  refine bind_eq_ok_iff.mpr ⟨(), rejectUnknownFields_present (by rw [hnames]; decide), ?_⟩
  rw [hget "from" _ (by simp [RelationTypeSchema.fields]; rfl),
    hget "to" (some (.str typeSchema.to)) (by simp [RelationTypeSchema.fields]),
    hget "description" (typeSchema.description.map .str) (by simp [RelationTypeSchema.fields]),
    hget "acyclic" (typeSchema.acyclic.map .bool) (by simp [RelationTypeSchema.fields])]
  refine bind_eq_ok_iff.mpr ⟨_, rfl, bind_eq_ok_iff.mpr ⟨_, rfl, ?_⟩⟩
  refine bind_eq_ok_iff.mpr ⟨(), checkEndpoint_context hfrom _, ?_⟩
  refine bind_eq_ok_iff.mpr ⟨(), checkEndpoint_context hto _, ?_⟩
  refine bind_eq_ok_iff.mpr ⟨_, asOptionalString_map _ _, ?_⟩
  refine bind_eq_ok_iff.mpr ⟨_, hrawGuidance, bind_eq_ok_iff.mpr ⟨_, hguidance, ?_⟩⟩
  exact bind_eq_ok_iff.mpr ⟨_, asOptionalBoolean_map _ _, rfl⟩

/-! ## Rules -/

/-- The fields of a rule. -/
def YSchemaRuleSchema.fields : YSchemaRuleSchema → List (String × Option JsValue)
  | .reserved rule => [("id", some (.str rule.id)), ("description", rule.description.map .str)]
  | .requiredRelation rule =>
    [("id", some (.str rule.id)), ("kind", some (.str (js "required_relation"))),
      ("relationType", some (.str rule.relationType)), ("from", some (.str rule.from)),
      ("to", some (.str rule.to)), ("description", rule.description.map .str)]

/-- A rule as a value. -/
def YSchemaRuleSchema.value (rule : YSchemaRuleSchema) : JsValue := .obj (present rule.fields)

/-- One item of `normalizeRules`. -/
def normalizeRule (nodes : Record NodeSchema) (relationTypes : Record RelationTypeSchema)
    (entry : JsValue × ℕ) : Except JsString YSchemaRuleSchema := do
  let context := js "rules[" ++ natToString entry.2 ++ js "]"
  let raw ← asRecord entry.1 context
  match Record.get raw (js "kind") with
  | none => normalizeReservedRule raw context
  | some kind =>
    if kind = .str (js "required_relation") then
      normalizeRequiredRelationRule raw context nodes relationTypes
    else invalidSchema (context ++ js ".kind must be required_relation")

/-- Reading rules is reading each of them. -/
theorem normalizeRules_some_arr (items : List JsValue) (nodes : Record NodeSchema)
    (relationTypes : Record RelationTypeSchema) :
    normalizeRules (some (.arr items)) nodes relationTypes =
      items.zipIdx.mapM (normalizeRule nodes relationTypes) := rfl

/-- A name that is read is no empty text. -/
theorem asName_eq_ok_iff {value : Option JsValue} {context name : JsString} :
    asName value context = .ok name ↔ value = some (.str name) ∧ name ≠ [] := by
  unfold asName invalidSchema
  split
  · next u s =>
    constructor
    · intro h
      obtain rfl := Except.ok.inj h
      exact ⟨rfl, List.cons_ne_nil _ _⟩
    · rintro ⟨h, -⟩
      rw [JsValue.str.inj (Option.some.inj h)]
  · next hnot =>
    refine iff_of_false (by simp) ?_
    rintro ⟨rfl, hne⟩
    obtain ⟨u, s, rfl⟩ := List.exists_cons_of_ne_nil hne
    exact hnot u s rfl

/-- What is checked of a rule. -/
def YSchemaRuleSchema.Proper (nodes : Record NodeSchema)
    (relationTypes : Record RelationTypeSchema) : YSchemaRuleSchema → Prop
  | .reserved rule => rule.id ≠ []
  | .requiredRelation rule => rule.id ≠ [] ∧ isKey rule.relationType = true ∧
      Record.has relationTypes rule.relationType = true ∧
      checkEndpoint nodes rule.from [] = .ok () ∧ checkEndpoint nodes rule.to [] = .ok ()

/-- A rule that was read is proper. -/
theorem proper_of_normalizeRule {nodes : Record NodeSchema}
    {relationTypes : Record RelationTypeSchema} {entry : JsValue × ℕ} {rule : YSchemaRuleSchema}
    (h : normalizeRule nodes relationTypes entry = .ok rule) : rule.Proper nodes relationTypes := by
  unfold normalizeRule at h
  obtain ⟨raw, -, h⟩ := bind_eq_ok_iff.mp h
  split at h
  · unfold normalizeReservedRule at h
    obtain ⟨⟨⟩, -, h⟩ := bind_eq_ok_iff.mp h
    obtain ⟨id, hid, h⟩ := bind_eq_ok_iff.mp h
    obtain ⟨description, -, h⟩ := bind_eq_ok_iff.mp h
    obtain rfl := Except.ok.inj h
    exact (asName_eq_ok_iff.mp hid).2
  · split_ifs at h
    · unfold normalizeRequiredRelationRule at h
      obtain ⟨⟨⟩, -, h⟩ := bind_eq_ok_iff.mp h
      obtain ⟨id, hid, h⟩ := bind_eq_ok_iff.mp h
      obtain ⟨rawType, -, h⟩ := bind_eq_ok_iff.mp h
      obtain ⟨type, -, h⟩ := bind_eq_ok_iff.mp h
      obtain ⟨⟨⟩, hkey, h⟩ := bind_eq_ok_iff.mp h
      obtain ⟨hdeclared, h⟩ := invalidSchema_eq_ok_iff.mp h
      obtain ⟨«from», -, h⟩ := bind_eq_ok_iff.mp h
      obtain ⟨«to», -, h⟩ := bind_eq_ok_iff.mp h
      obtain ⟨⟨⟩, hfrom, h⟩ := bind_eq_ok_iff.mp h
      obtain ⟨⟨⟩, hto, h⟩ := bind_eq_ok_iff.mp h
      obtain ⟨description, -, h⟩ := bind_eq_ok_iff.mp h
      obtain rfl := Except.ok.inj h
      exact ⟨(asName_eq_ok_iff.mp hid).2, assertKey_eq_ok_iff.mp hkey,
        Bool.not_eq_false _ ▸ hdeclared, checkEndpoint_context hfrom _, checkEndpoint_context hto _⟩
    · cases h

/-- A proper rule is read of its value. -/
theorem normalizeRule_value {nodes : Record NodeSchema}
    {relationTypes : Record RelationTypeSchema} {rule : YSchemaRuleSchema}
    (h : rule.Proper nodes relationTypes) (index : ℕ) :
    normalizeRule nodes relationTypes (rule.value, index) = .ok rule := by
  match rule, h with
  | .reserved rule, h =>
    have hnames : fieldNames (YSchemaRuleSchema.reserved rule).fields =
        ["id", "description"].map js := rfl
    have hnodup : (fieldNames (YSchemaRuleSchema.reserved rule).fields).Nodup := by
      rw [hnames]; decide
    have hget := get_present hnodup
    have hkind : Record.get (present (YSchemaRuleSchema.reserved rule).fields) (js "kind") = none :=
      get_present_of_not_mem (by rw [hnames]; decide)
    unfold normalizeRule YSchemaRuleSchema.value
    refine bind_eq_ok_iff.mpr ⟨_, rfl, ?_⟩
    simp only [hkind]
    unfold normalizeReservedRule
    rw [hget "id" (some (.str rule.id)) (by simp [YSchemaRuleSchema.fields]),
      hget "description" (rule.description.map .str) (by simp [YSchemaRuleSchema.fields])]
    refine bind_eq_ok_iff.mpr ⟨(), rejectUnknownFields_present (by rw [hnames]; decide), ?_⟩
    refine bind_eq_ok_iff.mpr ⟨_, asName_eq_ok_iff.mpr ⟨rfl, h⟩, ?_⟩
    exact bind_eq_ok_iff.mpr ⟨_, asOptionalString_map _ _, rfl⟩
  | .requiredRelation rule, ⟨hid, hkey, hdeclared, hfrom, hto⟩ =>
    have hnames : fieldNames (YSchemaRuleSchema.requiredRelation rule).fields =
        ["id", "kind", "relationType", "from", "to", "description"].map js := rfl
    have hnodup : (fieldNames (YSchemaRuleSchema.requiredRelation rule).fields).Nodup := by
      rw [hnames]; decide
    have hget := get_present hnodup
    have hreads : ReadsField (present (YSchemaRuleSchema.requiredRelation rule).fields)
        "relationType" "relation_type" (fun value => asString value
          (js "rules[" ++ natToString index ++ js "]" ++ js ".relationType")) rule.relationType :=
      readsField_present (some (.str rule.relationType)) hnodup
        (by simp [YSchemaRuleSchema.fields]) (by rw [hnames]; decide) rfl
    obtain ⟨rawType, hrawType, htype⟩ := hreads
    unfold normalizeRule YSchemaRuleSchema.value
    refine bind_eq_ok_iff.mpr ⟨_, rfl, ?_⟩
    simp only [hget "kind" (some (.str (js "required_relation")))
      (by simp [YSchemaRuleSchema.fields]), if_true]
    unfold normalizeRequiredRelationRule
    rw [hget "id" (some (.str rule.id)) (by simp [YSchemaRuleSchema.fields]),
      hget "from" (some (.str rule.from)) (by simp [YSchemaRuleSchema.fields]),
      hget "to" (some (.str rule.to)) (by simp [YSchemaRuleSchema.fields]),
      hget "description" (rule.description.map .str) (by simp [YSchemaRuleSchema.fields])]
    refine bind_eq_ok_iff.mpr ⟨(), rejectUnknownFields_present (by rw [hnames]; decide), ?_⟩
    refine bind_eq_ok_iff.mpr ⟨_, asName_eq_ok_iff.mpr ⟨rfl, hid⟩, ?_⟩
    refine bind_eq_ok_iff.mpr ⟨_, hrawType, bind_eq_ok_iff.mpr ⟨_, htype, ?_⟩⟩
    refine bind_eq_ok_iff.mpr ⟨(), assertKey_eq_ok_iff.mpr hkey, ?_⟩
    refine invalidSchema_eq_ok_iff.mpr ⟨by simp [hdeclared], ?_⟩
    refine bind_eq_ok_iff.mpr ⟨_, rfl, bind_eq_ok_iff.mpr ⟨_, rfl, ?_⟩⟩
    refine bind_eq_ok_iff.mpr ⟨(), checkEndpoint_context hfrom _, ?_⟩
    refine bind_eq_ok_iff.mpr ⟨(), checkEndpoint_context hto _, ?_⟩
    exact bind_eq_ok_iff.mpr ⟨_, asOptionalString_map _ _, rfl⟩

/-! ## Schemas -/

/-- The fields of a schema. -/
def YSchema.fields (schema : YSchema) : List (String × Option JsValue) :=
  [("yschema", some (.str (js "0.1"))), ("name", some (.str schema.name)),
    ("strict", schema.strict.map .bool),
    ("nodes", some (.obj (Record.mapValues NodeSchema.value schema.nodes))),
    ("rules", schema.rules.map fun rules => .arr (rules.map YSchemaRuleSchema.value)),
    ("version", schema.version), ("description", schema.description.map .str),
    ("relationTypes", schema.relationTypes.map fun types =>
      .obj (Record.mapValues RelationTypeSchema.value types))]

/-- The names of the fields of a schema. -/
def schemaNames : List String :=
  ["yschema", "name", "strict", "nodes", "rules", "version", "description", "relationTypes"]

/-- A schema as a value: the object that the reading returns. -/
def YSchema.value (schema : YSchema) : JsValue := .obj (present schema.fields)

/-- A schema is declared with a slot, at any depth, that is an array of no values. -/
def DeclaresEmptyArraySlot (rawInput : JsValue) : Prop :=
  ∃ raw nodes key node, rawInput = .obj raw ∧ Record.get raw (js "nodes") = some (.obj nodes) ∧
    Record.get nodes key = some node ∧ DeclaresEmptyArray node

/-- Nodes are read of a mapping, each under its key. -/
theorem normalizeNodes_eq_ok_iff {regExpError : JsString → Option JsString} {value : JsValue}
    {nodes : Record NodeSchema} :
    normalizeNodes regExpError value = .ok nodes ↔ ∃ raw, value = .obj raw ∧
      normalizeMembers raw (js "nodes") (js "nodes") (normalizeNode regExpError) = .ok nodes := by
  unfold normalizeNodes
  rw [bind_eq_ok_iff]
  refine exists_congr fun raw => and_congr_left fun _ => ?_
  match value with
  | .obj members => simp [asRecord]
  | .null | .bool _ | .num _ | .str _ | .arr _ => simp [asRecord, invalidSchema]

/-- The nodes that were read are read again exactly when no slot in them was declared by an
array of no values. -/
theorem normalizeNodes_value_iff {regExpError : JsString → Option JsString} {raw : Record JsValue}
    {nodes : Record NodeSchema}
    (h : normalizeMembers raw (js "nodes") (js "nodes") (normalizeNode regExpError) = .ok nodes) :
    normalizeNodes regExpError (.obj (Record.mapValues NodeSchema.value nodes)) = .ok nodes ↔
      ∀ key node, Record.get raw key = some node → ¬ DeclaresEmptyArray node := by
  rw [normalizeNodes_eq_ok_iff]
  simp only [JsValue.obj.injEq, exists_eq_left']
  rw [normalizeMembers_value_iff h]
  constructor
  · intro hread key rawNode hget
    obtain ⟨node, hnode, hrawNode⟩ := exists_get_of_normalizeMembers h hget
    have hmem := Record.mem_of_get hnode
    exact (normalizeNode_value_iff hrawNode _).mp (hread (key, node) hmem)
  · intro hnone e he
    have hget := Record.get_eq_some_of_mem (nodup_of_normalizeMembers h) he
    obtain ⟨rawNode, hrawNode, hread⟩ := get_of_normalizeMembers h hget
    exact (normalizeNode_value_iff hread _).mpr (hnone e.1 rawNode hrawNode)

/-- The relation types that were read are read again. -/
theorem normalizeRelationTypes_value {value : Option JsValue} {nodes : Record NodeSchema}
    {types : Option (Record RelationTypeSchema)}
    (h : normalizeRelationTypes value nodes = .ok types) :
    normalizeRelationTypes (types.map fun types =>
      .obj (Record.mapValues RelationTypeSchema.value types)) nodes = .ok types := by
  rcases normalizeRelationTypes_eq_ok_iff.mp h with ⟨-, rfl⟩ | ⟨raw, declared, -, rfl, hmembers⟩
  · rfl
  · refine normalizeRelationTypes_eq_ok_iff.mpr (.inr ⟨_, declared, rfl, rfl, ?_⟩)
    rw [normalizeMembers_value_iff hmembers]
    intro e he
    have hget := Record.get_eq_some_of_mem (nodup_of_normalizeMembers hmembers) he
    obtain ⟨rawType, -, hread⟩ := get_of_normalizeMembers hmembers hget
    obtain ⟨hfrom, hto⟩ := checkEndpoint_of_normalizeRelationType hread
    exact normalizeRelationType_value (checkEndpoint_context hfrom _) (checkEndpoint_context hto [])
      _

/-- The rules that were read are read again. -/
theorem normalizeRules_value {value : Option JsValue} {nodes : Record NodeSchema}
    {types : Record RelationTypeSchema} {rules : List YSchemaRuleSchema}
    (h : normalizeRules value nodes types = .ok rules) :
    normalizeRules (some (.arr (rules.map YSchemaRuleSchema.value))) nodes types = .ok rules := by
  have hproper : ∀ rule ∈ rules, rule.Proper nodes types := by
    match value, h with
    | none, h =>
      obtain rfl := Except.ok.inj h
      exact fun rule hrule => absurd hrule List.not_mem_nil
    | some (.arr items), h =>
      rw [normalizeRules_some_arr] at h
      intro rule hrule
      obtain ⟨entry, -, hread⟩ := exists_of_mem_right (mapM_eq_ok_iff.mp h) hrule
      exact proper_of_normalizeRule hread
    | some .null, h | some (.bool _), h | some (.num _), h | some (.str _), h | some (.obj _), h =>
      cases h
  rw [normalizeRules_some_arr]
  exact mapM_zipIdx_map fun rule hrule index => normalizeRule_value (hproper rule hrule) index

/-- A version that was read is read again. -/
theorem normalizeVersion_value {value : Option JsValue} {version : Option JsValue}
    (h : normalizeVersion value = .ok version) : normalizeVersion version = .ok version := by
  unfold normalizeVersion at h
  split at h
  · obtain rfl := Except.ok.inj h
    rfl
  · obtain rfl := Except.ok.inj h
    rfl
  · obtain rfl := Except.ok.inj h
    rfl
  · cases h

/-- The schema that was read is read again, to itself, exactly when no slot of it was declared
by an array of no values. -/
theorem normalizeYSchemaObject_value_iff {regExpError : JsString → Option JsString}
    {rawInput : JsValue} {schema : YSchema}
    (h : normalizeYSchemaObject regExpError rawInput = .ok schema) :
    normalizeYSchemaObject regExpError schema.value = .ok schema ↔
      ¬ DeclaresEmptyArraySlot rawInput := by
  obtain ⟨raw, rfl, hdescribes⟩ := normalizeYSchemaObject_eq_ok_iff.mp h
  obtain ⟨rawNodes, hrawNodes, hnodes⟩ := hdescribes.nodes
  obtain ⟨members, rfl, hmembers⟩ := normalizeNodes_eq_ok_iff.mp hnodes
  obtain ⟨rawTypes, -, htypes⟩ := hdescribes.relationTypes
  obtain ⟨rules, hrules, hreadRules⟩ := hdescribes.rules
  obtain ⟨strict, -, hstrict⟩ := hdescribes.strict
  have hnames : fieldNames schema.fields = schemaNames.map js := rfl
  have hnodup : (fieldNames schema.fields).Nodup := by rw [hnames]; decide
  have hget := get_present hnodup
  have hgetNodes := hget "nodes" (some (.obj (Record.mapValues NodeSchema.value schema.nodes)))
    (by simp [YSchema.fields])
  have hcondition : ¬ DeclaresEmptyArraySlot (.obj raw) ↔
      ∀ key node, Record.get members key = some node → ¬ DeclaresEmptyArray node := by
    unfold DeclaresEmptyArraySlot
    simp [hrawNodes]
  rw [hcondition, ← normalizeNodes_value_iff hmembers, normalizeYSchemaObject_eq_ok_iff]
  constructor
  · rintro ⟨raw', hraw', hagain⟩
    obtain rfl := JsValue.obj.inj hraw'
    obtain ⟨rawNodes, hrawNodes, hread⟩ := hagain.nodes
    rw [hgetNodes] at hrawNodes
    exact Option.some.inj hrawNodes ▸ hread
  · intro hread
    have hreads : ReadsField (present schema.fields) "relationTypes" "relation_types"
        (normalizeRelationTypes · schema.nodes) schema.relationTypes :=
      readsField_present (schema.relationTypes.map fun types =>
        .obj (Record.mapValues RelationTypeSchema.value types)) hnodup
        (by simp [YSchema.fields]) (by rw [hnames]; decide) (normalizeRelationTypes_value htypes)
    refine ⟨_, rfl, ?_⟩
    exact
      { known := rejectUnknownFields_present (by rw [hnames]; decide)
        mark := hget "yschema" _ (by simp [YSchema.fields])
        name := by
          rw [hget "name" (some (.str schema.name)) (by simp [YSchema.fields])]
          exact asName_eq_ok_iff.mpr ⟨rfl, (asName_eq_ok_iff.mp hdescribes.name).2⟩
        nodes := ⟨_, hgetNodes, hread⟩
        relationTypes := hreads
        rules := by
          refine ⟨rules, hrules, ?_⟩
          rw [hget "rules" (schema.rules.map fun rules => .arr (rules.map YSchemaRuleSchema.value))
            (by simp [YSchema.fields]), hrules]
          exact normalizeRules_value hreadRules
        strict := by
          refine ⟨schema.strict, ?_, ?_⟩
          · rw [hget "strict" (schema.strict.map .bool) (by simp [YSchema.fields])]
            exact asOptionalBoolean_map _ _
          · rw [hstrict]
            rfl
        version := by
          rw [hget "version" schema.version (by simp [YSchema.fields])]
          exact normalizeVersion_value hdescribes.version
        description := by
          rw [hget "description" (schema.description.map .str) (by simp [YSchema.fields])]
          exact asOptionalString_map _ _ }

/-- The description of a schema with one slot. -/
def slotSchemaText (slot : JsValue) : JsValue :=
  .obj [(js "yschema", .str (js "0.1")), (js "name", .str (js "plan")),
    (js "nodes", .obj [(js "step", .obj [(js "slots", .obj [(js "size", slot)])])])]

/-- A schema with one slot of enumerated values. -/
def slotSchema (items : List JsValue) : YSchema where
  name := js "plan"
  strict := some false
  nodes := [(js "step", .mk { slots := some [(js "size", { enum := some items })] } none)]
  rules := some []

/-- A schema with a slot of one enumerated value is read again. -/
theorem normalizeYSchemaObject_value_big :
    normalizeYSchemaObject (fun _ => none) (slotSchema [.str (js "big")]).value =
      .ok (slotSchema [.str (js "big")]) := by
  have hread : normalizeYSchemaObject (fun _ => none) (slotSchemaText (.arr [.str (js "big")])) =
      .ok (slotSchema [.str (js "big")]) := rfl
  refine (normalizeYSchemaObject_value_iff hread).mpr ?_
  rintro ⟨raw, nodes, key, node, hraw, hnodes, hnode, hempty⟩
  obtain rfl := JsValue.obj.inj hraw
  obtain rfl := JsValue.obj.inj (Option.some.inj hnodes)
  obtain ⟨-, rfl⟩ : key = js "step" ∧ JsValue.obj [(js "slots", .obj [(js "size",
      .arr [.str (js "big")])])] = node := by
    simpa [Record.get, eq_comm] using hnode
  cases hempty with
  | slot hslots hslot =>
    obtain rfl := JsValue.obj.inj (Option.some.inj hslots)
    simp [Record.get] at hslot
  | child hchildren => cases hchildren

/-- A schema with a slot that is an array of no values is read, and the schema that is
returned is refused. -/
theorem not_idempotent_emptyArray : ¬ ∀ (rawInput : JsValue) (schema : YSchema),
    normalizeYSchemaObject (fun _ => none) rawInput = .ok schema →
      normalizeYSchemaObject (fun _ => none) schema.value = .ok schema := by
  intro h
  have hread : normalizeYSchemaObject (fun _ => none) (slotSchemaText (.arr [])) =
      .ok (slotSchema []) := rfl
  have hagain := h _ _ hread
  have hrefused : normalizeYSchemaObject (fun _ => none) (slotSchema []).value =
      .error (js "INVALID_SCHEMA: nodes.step.slots.size.enum must not be empty") := rfl
  rw [hrefused] at hagain
  cases hagain

end T3x.Yschema
