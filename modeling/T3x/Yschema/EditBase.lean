import T3x.Yschema.EditPaths

/-!
# Reading the base with one member edited

A schema that is read of another one as the object it is, but for its nodes, its relation
types or its rules, is that schema but for what is read of these.
-/

namespace T3x.Yschema

open Js T3x.Run T3x.Yops

variable {regExpError : JsString → Option JsString}

/-! ## The base -/

/-- What holds of a schema that is read. -/
structure IsBase (regExpError : JsString → Option JsString) (base : YSchema) : Prop where
  /-- Its nodes are read. -/
  nodes : AreRead regExpError base.nodes
  /-- It says whether what is not declared is an error. -/
  strict : ∃ strict, base.strict = some strict
  /-- It has a list of rules. -/
  rules : ∃ rules, base.rules = some rules
  /-- No relation type is there twice. -/
  types : ((base.relationTypes.getD []).map Prod.fst).Nodup

/-- A schema that is read is a base. -/
theorem isBase_of_normalizeYSchemaObject {rawInput : JsValue} {base : YSchema}
    (h : normalizeYSchemaObject regExpError rawInput = .ok base) : IsBase regExpError base := by
  obtain ⟨raw, -, h⟩ := normalizeYSchemaObject_eq_ok_iff.mp h
  obtain ⟨rawNodes, -, hnodes⟩ := h.nodes
  obtain ⟨members, -, hmembers⟩ := normalizeNodes_eq_ok_iff.mp hnodes
  obtain ⟨rules, hrules, -⟩ := h.rules
  obtain ⟨strict, -, hstrict⟩ := h.strict
  obtain ⟨rawTypes, -, htypes⟩ := h.relationTypes
  refine ⟨areRead_of_normalizeMembers hmembers, ⟨_, hstrict⟩, ⟨rules, hrules⟩, ?_⟩
  rcases normalizeRelationTypes_eq_ok_iff.mp htypes with ⟨-, hnone⟩ | ⟨raw, types, -, hsome, hread⟩
  · rw [hnone]
    exact List.nodup_nil
  · rw [hsome]
    exact nodup_of_normalizeMembers hread

/-- The names of the fields of every schema are the same. -/
theorem YSchema.fieldNames_fields (schema : YSchema) :
    fieldNames schema.fields = schemaNames.map js := rfl

/-- No field of a schema is there twice. -/
theorem YSchema.nodup_fields (schema : YSchema) : (fieldNames schema.fields).Nodup := by
  rw [schema.fieldNames_fields]
  decide

section

variable {base schema : YSchema} {raw : Record JsValue}

/-- The name, the version and the description are read as they are, and whether what is not
declared is an error. -/
theorem Describes.identity (h : Describes regExpError raw schema) (hbase : IsBase regExpError base)
    (hraw : ∀ name ∈ ["name", "strict", "version", "description"],
      Record.get raw (js name) = Record.get (present base.fields) (js name)) :
    schema = { base with
      nodes := schema.nodes, rules := schema.rules, relationTypes := schema.relationTypes } := by
  have hget := get_present base.nodup_fields
  obtain ⟨strict, hstrict⟩ := hbase.strict
  obtain ⟨flag, hflag, hflagEq⟩ := h.strict
  have hname := h.name
  have hversion := h.version
  have hdescription := h.description
  rw [hraw "name" (by simp), hget "name" (some (.str base.name)) (by simp [YSchema.fields])]
    at hname
  rw [hraw "strict" (by simp), hget "strict" (base.strict.map .bool) (by simp [YSchema.fields])]
    at hflag
  rw [hraw "version" (by simp), hget "version" base.version (by simp [YSchema.fields])] at hversion
  rw [hraw "description" (by simp), hget "description" (base.description.map .str)
    (by simp [YSchema.fields])] at hdescription
  have hflagBase := eq_of_ok hflag (asOptionalBoolean_map _ _)
  have hstrictEq : schema.strict = base.strict := by
    rw [hflagEq, hflagBase, hstrict]
    rfl
  obtain ⟨⟩ := schema
  simp only [YSchema.mk.injEq, and_true, true_and]
  exact ⟨(JsValue.str.inj (Option.some.inj (asName_eq_ok_iff.mp hname).1)).symm, hstrictEq,
    normalizeVersion_eq hversion, eq_of_ok hdescription (asOptionalString_map _ _)⟩

/-- The nodes are read as they are. -/
theorem Describes.nodes_eq (h : Describes regExpError raw schema) (hbase : IsBase regExpError base)
    (hraw : Record.get raw (js "nodes") = Record.get (present base.fields) (js "nodes")) :
    schema.nodes = base.nodes := by
  obtain ⟨rawNodes, hrawNodes, hnodes⟩ := h.nodes
  rw [hraw, get_present base.nodup_fields "nodes" (some (nodesValue base.nodes))
    (by simp [YSchema.fields, nodesValue])] at hrawNodes
  obtain ⟨members, hmembers, hread⟩ := normalizeNodes_eq_ok_iff.mp hnodes
  obtain rfl := JsValue.obj.inj ((Option.some.inj hrawNodes).trans hmembers)
  exact eq_of_normalizeMembers_value hbase.nodes.nodup
    (fun e he => (hbase.nodes.isRead e he).settled) hread

/-- The relation types are read as they are. -/
theorem Describes.relationTypes_eq (h : Describes regExpError raw schema)
    (hbase : IsBase regExpError base)
    (hraw : ∀ name ∈ ["relationTypes", "relation_types"],
      Record.get raw (js name) = Record.get (present base.fields) (js name)) :
    schema.relationTypes = base.relationTypes := by
  have hsnake : Record.get raw (js "relation_types") = none := by
    rw [hraw _ (by simp)]
    exact get_present_of_not_mem (by rw [base.fieldNames_fields]; decide)
  obtain ⟨rawTypes, hrawTypes, htypes⟩ := h.relationTypes
  have hfield : ReadsField raw "relationTypes" "relation_types"
      (normalizeRelationTypes · schema.nodes) schema.relationTypes := ⟨rawTypes, hrawTypes, htypes⟩
  have hread := hfield.eq_ok hsnake
  rw [hraw _ (by simp), get_present base.nodup_fields "relationTypes"
    (base.relationTypes.map fun types => .obj (Record.mapValues RelationTypeSchema.value types))
    (by simp [YSchema.fields])] at hread
  rcases normalizeRelationTypes_eq_ok_iff.mp hread with ⟨hnone, hschema⟩ |
    ⟨raw', declared, hsome, hschema, hmembers⟩
  · rw [hschema, Option.map_eq_none_iff.mp hnone]
  · obtain ⟨types, htypes, hraw'⟩ := Option.map_eq_some_iff.mp hsome
    obtain rfl := JsValue.obj.inj hraw'
    have hnodup := hbase.types
    rw [htypes] at hnodup
    have heq : declared = types := eq_of_normalizeMembers_value hnodup
      (fun e _ context w hw => eq_of_normalizeRelationType_value hw) hmembers
    rw [hschema, htypes, heq]

/-- The rules are read as they are. -/
theorem Describes.rules_eq (h : Describes regExpError raw schema) {rules : List YSchemaRuleSchema}
    (hraw : Record.get raw (js "rules") = some (.arr (rules.map YSchemaRuleSchema.value))) :
    schema.rules = some rules := by
  obtain ⟨read, hread, hrules⟩ := h.rules
  rw [hraw] at hrules
  rw [hread, eq_of_normalizeRules_value hrules]

/-- What stands under the names of the object of the base but for one. -/
theorem get_setOwn_of_ne {field name : String} {value : JsValue} (h : js name ≠ js field) :
    Record.get (Record.setOwn (present base.fields) (js field) value) (js name) =
      Record.get (present base.fields) (js name) := by
  rw [Record.get_setOwn, if_neg h]

/-- Where the nodes are other ones, these are read. -/
theorem read_nodes (hbase : IsBase regExpError base)
    (h : normalizeYSchemaObject regExpError (.obj (Record.setOwn (present base.fields) (js "nodes")
      (.obj raw))) = .ok schema) :
    normalizeMembers raw (js "nodes") (js "nodes") (normalizeNode regExpError) = .ok schema.nodes ∧
      schema = { base with nodes := schema.nodes } := by
  obtain ⟨raw', hraw', h⟩ := normalizeYSchemaObject_eq_ok_iff.mp h
  obtain rfl := JsValue.obj.inj hraw'
  obtain ⟨rules, hrules⟩ := hbase.rules
  have hidentity := h.identity hbase fun name hname =>
    get_setOwn_of_ne (by revert name; decide)
  have htypes := h.relationTypes_eq hbase fun name hname =>
    get_setOwn_of_ne (by revert name; decide)
  have hrulesEq := h.rules_eq (by
    rw [get_setOwn_of_ne (by decide), get_present base.nodup_fields "rules"
      (base.rules.map fun rules => .arr (rules.map YSchemaRuleSchema.value))
      (by simp [YSchema.fields]), hrules]
    rfl)
  obtain ⟨rawNodes, hrawNodes, hnodes⟩ := h.nodes
  rw [Record.get_setOwn, if_pos rfl] at hrawNodes
  obtain ⟨members, hmembers, hread⟩ := normalizeNodes_eq_ok_iff.mp hnodes
  obtain rfl := JsValue.obj.inj ((Option.some.inj hrawNodes).trans hmembers)
  refine ⟨hread, ?_⟩
  rw [hidentity, htypes, hrulesEq, hrules]

/-- Where the relation types are other ones, these are read. -/
theorem read_relationTypes (hbase : IsBase regExpError base)
    (h : normalizeYSchemaObject regExpError (.obj (Record.setOwn (present base.fields)
      (js "relationTypes") (.obj raw))) = .ok schema) :
    ∃ types, normalizeMembers raw (js "relationTypes") (js "relationTypes")
      (normalizeRelationType base.nodes) = .ok types ∧
        schema = { base with relationTypes := some types } := by
  obtain ⟨raw', hraw', h⟩ := normalizeYSchemaObject_eq_ok_iff.mp h
  obtain rfl := JsValue.obj.inj hraw'
  obtain ⟨rules, hrules⟩ := hbase.rules
  have hidentity := h.identity hbase fun name hname =>
    get_setOwn_of_ne (by revert name; decide)
  have hnodes := h.nodes_eq hbase (get_setOwn_of_ne (by decide))
  have hrulesEq := h.rules_eq (by
    rw [get_setOwn_of_ne (by decide), get_present base.nodup_fields "rules"
      (base.rules.map fun rules => .arr (rules.map YSchemaRuleSchema.value))
      (by simp [YSchema.fields]), hrules]
    rfl)
  obtain ⟨rawTypes, hrawTypes, htypes⟩ := h.relationTypes
  have hsnake : Record.get (Record.setOwn (present base.fields) (js "relationTypes") (.obj raw))
      (js "relation_types") = none := by
    rw [get_setOwn_of_ne (by decide)]
    exact get_present_of_not_mem (by rw [base.fieldNames_fields]; decide)
  have hfield : ReadsField (Record.setOwn (present base.fields) (js "relationTypes") (.obj raw))
      "relationTypes" "relation_types" (normalizeRelationTypes · schema.nodes)
      schema.relationTypes := ⟨rawTypes, hrawTypes, htypes⟩
  have hread := hfield.eq_ok hsnake
  rw [Record.get_setOwn, if_pos rfl, hnodes] at hread
  rcases normalizeRelationTypes_eq_ok_iff.mp hread with ⟨hnone, -⟩ |
    ⟨raw', declared, hsome, hschema, hmembers⟩
  · cases hnone
  · obtain rfl := JsValue.obj.inj (Option.some.inj hsome)
    refine ⟨declared, hmembers, ?_⟩
    rw [hidentity, hnodes, hrulesEq, hrules, hschema]

/-- Where the rules are other ones, these are read. -/
theorem read_rules (hbase : IsBase regExpError base) {rules : List YSchemaRuleSchema}
    (h : normalizeYSchemaObject regExpError (.obj (Record.setOwn (present base.fields)
      (js "rules") (rulesValue rules))) = .ok schema) :
    schema = { base with rules := some rules } := by
  obtain ⟨raw', hraw', h⟩ := normalizeYSchemaObject_eq_ok_iff.mp h
  obtain rfl := JsValue.obj.inj hraw'
  have hidentity := h.identity hbase fun name hname =>
    get_setOwn_of_ne (by revert name; decide)
  have hnodes := h.nodes_eq hbase (get_setOwn_of_ne (by decide))
  have htypes := h.relationTypes_eq hbase fun name hname =>
    get_setOwn_of_ne (by revert name; decide)
  have hrules := h.rules_eq (by
    rw [Record.get_setOwn, if_pos rfl, rulesValue, YSchemaRuleSchema.toObject_eq])
  rw [hidentity, hnodes, htypes, hrules]

end

end T3x.Yschema
