import T3x.Yschema.Described
import T3x.Yschema.Reports

/-!
# The reading and the validation of a schema

The validation checks the shape of a schema once more. What the reading accepts has
the right shape but for the endpoints of relation types: the reading looks the keys
of a path up as properties of an object, the validation among the declared nodes.
-/

namespace T3x.Yschema

open Js

variable {regExpError : JsString → Option JsString}

/-! ## The shape of nodes -/

/-- The slots that are read have machine-safe keys. -/
theorem isKey_of_normalizeSlots {value : Option JsValue} {context : JsString}
    {slots : Option (Record SlotSchema)}
    (h : normalizeSlots regExpError value context = .ok slots) :
    ∀ key ∈ Record.keys (slots.getD []), isKey key = true := by
  unfold normalizeSlots at h
  split at h
  · obtain rfl := Except.ok.inj h
    exact fun key hkey => absurd hkey List.not_mem_nil
  · obtain ⟨raw, -, h⟩ := bind_eq_ok_iff.mp h
    obtain ⟨members, hmembers, h⟩ := bind_eq_ok_iff.mp h
    obtain rfl := Except.ok.inj h
    intro key hkey
    obtain ⟨slot, hslot⟩ := Record.has_eq_true.mp (Record.mem_keys.mp hkey)
    exact isKey_of_normalizeMembers hmembers (Record.mem_of_get hslot)

/-- Nothing is found in the shape of a node that is read. -/
theorem validateNodeSchemaShape_of_normalizeNode {node : NodeSchema} :
    ∀ {value : JsValue} {context : JsString}, normalizeNode regExpError value context = .ok node →
      ∀ path, validateNodeSchemaShape node path = [] := by
  induction node using NodeSchema.induct with
  | mk head children ih =>
    intro value context h path
    obtain ⟨raw, -, hdescribes⟩ := (normalizeNode_eq_ok_iff regExpError).mp h
    obtain ⟨rawRequired, -, hrequired⟩ := hdescribes.requiredSlots
    have hslots := isKey_of_normalizeSlots hdescribes.slots
    have hkeys := isKey_of_asKeyArray hrequired
    rw [validateNodeSchemaShape_mk, validateNodeShape, isSome_mapChildren, nodes_mapChildren]
    simp only [List.append_eq_nil_iff, List.flatMap_eq_nil_iff]
    refine ⟨⟨⟨fun key hkey => ?_, fun key hkey => ?_⟩, ?_⟩, fun e he => ?_⟩
    · rw [hslots key hkey]
      rfl
    · have hhas : Record.has (head.slots.getD []) key = true := hdescribes.declared key hkey
      rw [if_pos (hkeys key hkey), hhas]
      rfl
    · have hsingle : (head.repeated == some true && children.isSome) = false := by
        rw [Bool.eq_false_iff]
        intro htrue
        obtain ⟨hrepeated, hchildren⟩ := Bool.and_eq_true_iff.mp htrue
        exact hdescribes.single ⟨eq_of_beq hrepeated, hchildren⟩
      rw [hsingle]
      rfl
    · rcases (normalizeChildren_eq_ok_iff regExpError).mp hdescribes.children with
        ⟨-, hnone⟩ | ⟨-, hany⟩ | ⟨rawChildren, nodes, -, hdeclared, hmembers⟩
      · obtain rfl : children = none := hnone
        exact absurd he List.not_mem_nil
      · obtain rfl : children = some .any := hany
        exact absurd he List.not_mem_nil
      · obtain rfl : children = some (.declared nodes) := hdeclared
        rw [Children.nodes, Record.entries_mapValues] at he
        obtain ⟨⟨key, child⟩, hchild, rfl⟩ := List.mem_map.mp he
        have hget := Record.mem_entries.mp hchild
        obtain ⟨rawChild, -, hread⟩ := get_of_normalizeMembers hmembers hget
        have hkey : isKey key = true := isKey_of_normalizeMembers hmembers (Record.mem_of_get hget)
        exact ⟨by rw [hkey]; rfl, ih (key, child) (Record.mem_of_get hget) hread _⟩

/-! ## The endpoints of relation types -/

/-- The node declares a descendant under the keys. -/
def NodeSchema.Declares : NodeSchema → List JsString → Prop
  | _, [] => True
  | node, key :: keys => ∃ child, node.child key = some child ∧ child.Declares keys

/-- The pattern of an endpoint names a declared node. -/
def YSchema.DeclaresEndpoint (schema : YSchema) (pattern : JsString) : Prop :=
  schema.root.Declares (split (unit '/') (patternPath pattern))

/-- A node declares a descendant exactly when looking it up key by key finds it. -/
theorem NodeSchema.declares_iff {node : NodeSchema} {keys : List JsString} :
    node.Declares keys ↔
      (keys.foldlM (fun node key => node.child key) node : Option NodeSchema).isSome = true := by
  induction keys generalizing node with
  | nil => simp [Declares]
  | cons key keys ih =>
    rw [Declares, List.foldlM_cons]
    cases node.child key with
    | none => simp
    | some child => simp [ih]

/-- What looking a path up as properties finds where the declared nodes have it, and what it
finds where they do not. -/
theorem resolveNodeFrom_readMember (nodes : Record NodeSchema) (key : JsString)
    (keys : List JsString) :
    (∃ node, ((key :: keys).foldlM (fun node key => node.child key)
        (NodeSchema.mk {} (some (.declared nodes))) : Option NodeSchema) = some node ∧
      resolveNodeFrom (readMember nodes key) keys = some (some node)) ∨
    (((key :: keys).foldlM (fun node key => node.child key)
        (NodeSchema.mk {} (some (.declared nodes))) : Option NodeSchema) = none ∧
      ∀ node, resolveNodeFrom (readMember nodes key) keys ≠ some (some node)) := by
  induction keys generalizing nodes key with
  | nil =>
    simp only [List.foldlM_cons, List.foldlM_nil, NodeSchema.child, NodeSchema.children,
      Children.nodes, readMember]
    cases Record.get nodes key with
    | some node => exact .inl ⟨node, rfl, rfl⟩
    | none =>
      refine .inr ⟨rfl, fun node => ?_⟩
      dsimp only
      split_ifs <;> simp [resolveNodeFrom]
  | cons key' keys ih =>
    rw [List.foldlM_cons]
    simp only [NodeSchema.child, NodeSchema.children, Children.nodes, readMember]
    cases Record.get nodes key with
    | none =>
      refine .inr ⟨rfl, fun node => ?_⟩
      dsimp only
      split_ifs <;> simp [resolveNodeFrom]
    | some child =>
      rcases child with ⟨head, _ | _ | children⟩
      · refine .inr ⟨rfl, fun node => ?_⟩
        simp [resolveNodeFrom]
      · refine .inr ⟨rfl, fun node => ?_⟩
        simp [resolveNodeFrom]
      · exact ih children key'

/-- Nothing is found at an endpoint that the reading accepts exactly when the declared nodes
have it. -/
theorem validateRelationEndpointSchema_eq_nil_iff {schema : YSchema} {pattern context : JsString}
    (h : checkEndpoint schema.nodes pattern context = .ok ()) (relationType : JsString)
    (side : String) :
    validateRelationEndpointSchema schema relationType side pattern = [] ↔
      schema.DeclaresEndpoint pattern := by
  obtain ⟨hstar, hpath, resolved, hresolved, hrepeated⟩ := checkEndpoint_eq_ok_iff.mp h
  unfold resolveNodePath at hresolved
  obtain ⟨⟨⟩, -, hresolved⟩ := bind_eq_ok_iff.mp hresolved
  rw [YSchema.DeclaresEndpoint, NodeSchema.declares_iff]
  unfold validateRelationEndpointSchema
  simp only [hstar, hpath, if_false, Bool.true_eq_false]
  unfold resolveNodeSchema
  rw [if_pos hpath]
  obtain ⟨key, keys, hsplit⟩ := List.exists_cons_of_ne_nil (split_ne_nil (unit '/')
    (patternPath pattern))
  rw [hsplit] at hresolved ⊢
  have hfound := Except.ok.inj hresolved
  unfold YSchema.root
  rcases resolveNodeFrom_readMember schema.nodes key keys with ⟨node, hnode, hfrom⟩ | ⟨hnone, -⟩
  · rw [hnode]
    obtain rfl := Option.some.inj (hfound.symm.trans hfrom)
    simpa using hrepeated
  · rw [hnone]
    simp

/-- The endpoints of every relation type name declared nodes. -/
def YSchema.EndpointsDeclared (schema : YSchema) : Prop :=
  ∀ type typeSchema, Record.get (schema.relationTypes.getD []) type = some typeSchema →
    schema.DeclaresEndpoint typeSchema.from ∧ schema.DeclaresEndpoint typeSchema.to

/-- Nothing is found in the shape of a schema that is read exactly when the endpoints of its
relation types name declared nodes. -/
theorem validateSchemaShape_eq_nil_iff {schema : YSchema} (h : schema.IsNormalized regExpError) :
    validateSchemaShape schema = [] ↔ schema.EndpointsDeclared := by
  obtain ⟨rawInput, h⟩ := h
  obtain ⟨raw, -, hdescribes⟩ := normalizeYSchemaObject_eq_ok_iff.mp h
  obtain ⟨rawNodes, -, hnodes⟩ := hdescribes.nodes
  obtain ⟨rawMembers, -, hmembers⟩ := bind_eq_ok_iff.mp hnodes
  obtain ⟨rawTypes, -, htypes⟩ := hdescribes.relationTypes
  have hnode : ∀ e ∈ Record.entries schema.nodes, demand (isKey e.1) (schemaError e.1
      (js "Schema node key \"" ++ e.1 ++ js "\" is invalid.") none) ++
        validateNodeSchemaShape e.2 e.1 = [] := by
    rintro ⟨key, node⟩ he
    have hget := Record.mem_entries.mp he
    obtain ⟨rawNode, -, hread⟩ := get_of_normalizeMembers hmembers hget
    have hkey : isKey key = true := isKey_of_normalizeMembers hmembers (Record.mem_of_get hget)
    rw [hkey, validateNodeSchemaShape_of_normalizeNode hread]
    rfl
  have htype : ∀ type typeSchema,
      Record.get (schema.relationTypes.getD []) type = some typeSchema →
        (demand (isKey type) (schemaError (js "$relations")
          (js "Relation type \"" ++ type ++ js "\" is invalid.") none) ++
        validateRelationEndpointSchema schema type "from" typeSchema.from ++
        validateRelationEndpointSchema schema type "to" typeSchema.to = [] ↔
          schema.DeclaresEndpoint typeSchema.from ∧ schema.DeclaresEndpoint typeSchema.to) := by
    intro type typeSchema hget
    rcases normalizeRelationTypes_eq_ok_iff.mp htypes with ⟨-, hnone⟩ |
      ⟨rawDeclared, declared, -, hsome, hread⟩
    · rw [hnone] at hget
      cases hget
    · rw [hsome] at hget
      obtain ⟨value, -, hvalue⟩ := get_of_normalizeMembers hread hget
      obtain ⟨hfrom, hto⟩ := checkEndpoint_of_normalizeRelationType hvalue
      rw [isKey_of_normalizeMembers hread (Record.mem_of_get hget), List.append_eq_nil_iff,
        List.append_eq_nil_iff, validateRelationEndpointSchema_eq_nil_iff hfrom,
        validateRelationEndpointSchema_eq_nil_iff hto]
      simp [demand]
  unfold validateSchemaShape
  rw [List.append_eq_nil_iff, List.flatMap_eq_nil_iff, List.flatMap_eq_nil_iff,
    and_iff_right hnode]
  unfold YSchema.EndpointsDeclared
  constructor
  · intro hall type typeSchema hget
    exact (htype type typeSchema hget).mp (hall (type, typeSchema) (Record.mem_entries.mpr hget))
  · rintro hall ⟨type, typeSchema⟩ he
    have hget := Record.mem_entries.mp he
    exact (htype type typeSchema hget).mpr (hall type typeSchema hget)

/-! ## The types of relations -/

variable {input : ValidationInput}

/-- The error about a relation of an unknown type. -/
def unknownTypeError (index : ℕ) (relation : YSchemaRelation) : ValidationError where
  code := "INVALID_RELATION_TYPE"
  path := js "$relations"
  message := js "Relation type \"" ++ relation.type ++ js "\" is not declared."
  details := some [(js "index", indexValue index), (js "relation", relation.value)]

/-- An error about a relation of an unknown type is about one whose type is not found. -/
theorem mem_validateRelation_unknown {earlier : List YSchemaRelation} {relation : YSchemaRelation}
    {e : ValidationError} :
    .error e ∈ validateRelation input earlier relation ∧ e.code = "INVALID_RELATION_TYPE" ↔
      (relationTypeOf input.schema relation.type).patterns = none ∧
        e = unknownTypeError earlier.length relation := by
  constructor
  · rintro ⟨h, hcode⟩
    unfold validateRelation at h
    simp only at h
    split at h
    · next hnone => exact ⟨hnone, Finding.error.inj (List.mem_singleton.mp h)⟩
    · simp only [validateEndpoints, List.mem_append, mem_demand, relationError,
        Finding.error.injEq] at h
      rcases h with ((h | h) | ⟨-, rfl⟩) | ⟨-, rfl⟩
      · obtain ⟨e', he, -, hne⟩ | ⟨-, -, he⟩ := mem_validateEndpoint input h
        · exact absurd (Finding.error.inj he ▸ hcode) hne
        · cases he
      · obtain ⟨e', he, -, hne⟩ | ⟨-, -, he⟩ := mem_validateEndpoint input h
        · exact absurd (Finding.error.inj he ▸ hcode) hne
        · cases he
      · exact absurd hcode (by simp)
      · exact absurd hcode (by simp)
  · rintro ⟨hnone, rfl⟩
    refine ⟨?_, rfl⟩
    unfold validateRelation
    simp only [hnone]
    exact List.mem_singleton.mpr rfl

/-! ## The agreement -/

variable (regExpTest : JsString → JsString → Bool) (localeCompare : JsString → JsString → Int)

/-- An error in the schema is found exactly when its shape is wrong. -/
theorem exists_invalidSchema_iff :
    (∃ e, .error e ∈ findings regExpTest input ∧ e.code = "INVALID_SCHEMA") ↔
      validateSchemaShape input.schema ≠ [] := by
  constructor
  · rintro ⟨e, h, hcode⟩
    rcases mem_findings_cases regExpTest input h with ⟨h, -⟩ | h | ⟨r, -, h⟩ | ⟨-, h⟩ | h
    · exact List.ne_nil_of_mem h
    · exact absurd (hcode ▸ h) (by decide)
    · exact absurd (hcode ▸ code_of_mem_validateRelation input h) (by decide)
    · exact absurd (hcode.symm.trans h) (by decide)
    · exact absurd (hcode.symm.trans h) (by decide)
  · intro h
    obtain ⟨f, hf⟩ := List.exists_mem_of_ne_nil _ h
    obtain ⟨e, rfl, hcode⟩ := allInvalidSchema_schema input.schema f hf
    refine ⟨e, ?_, hcode⟩
    unfold findings
    exact List.mem_append_left _ (List.mem_append_left _ (List.mem_append_left _ hf))

/-- The errors about relations of unknown types are those of the relations whose type is not
found. -/
theorem mem_findings_unknown {e : ValidationError} :
    .error e ∈ findings regExpTest input ∧ e.code = "INVALID_RELATION_TYPE" ↔
      ∃ r ∈ withEarlier input.relations, (relationTypeOf input.schema r.2.type).patterns = none ∧
        e = unknownTypeError r.1.length r.2 := by
  constructor
  · rintro ⟨h, hcode⟩
    rcases mem_findings_cases regExpTest input h with ⟨-, h⟩ | h | ⟨r, hr, h⟩ | ⟨-, h⟩ | h
    · exact absurd (hcode.symm.trans h) (by decide)
    · exact absurd (hcode ▸ h) (by decide)
    · exact ⟨r, hr, mem_validateRelation_unknown.mp ⟨h, hcode⟩⟩
    · exact absurd (hcode.symm.trans h) (by decide)
    · exact absurd (hcode.symm.trans h) (by decide)
  · rintro ⟨r, hr, hunknown⟩
    obtain ⟨h, hcode⟩ := mem_validateRelation_unknown.mpr hunknown
    refine ⟨?_, hcode⟩
    unfold findings validateRelations
    exact List.mem_append_left _ (List.mem_append_right _ (List.mem_append_left _
      (List.mem_flatMap.mpr ⟨r, hr, h⟩)))

/-- The validation takes the schema for what the reading takes it for: it gives a result, it
finds the schema right, and it reports every relation whose type is not declared. -/
structure AgreesOnSchema (input : ValidationInput) : Prop where
  /-- Nothing is thrown. -/
  result : ∃ result, validateTree regExpTest localeCompare input = .ok result
  /-- The schema is right. -/
  valid : ∀ e, input.Reports regExpTest localeCompare e → e.code ≠ "INVALID_SCHEMA"
  /-- A relation of an undeclared type is reported. -/
  unknown : ∀ relation ∈ input.relations,
    Record.get (input.schema.relationTypes.getD []) relation.type = none →
      ∃ e, input.Reports regExpTest localeCompare e ∧ e.code = "INVALID_RELATION_TYPE" ∧
        Record.get (e.details.getD []) (js "relation") = some relation.value

/-- The relation as a value determines the relation. -/
theorem YSchemaRelation.value_injective {relation other : YSchemaRelation}
    (h : relation.value = other.value) : relation = other := by
  obtain ⟨a, b, type⟩ := relation
  obtain ⟨a', b', type'⟩ := other
  simp only [YSchemaRelation.value, JsValue.obj.injEq, List.cons.injEq, Prod.mk.injEq,
    JsValue.str.injEq, true_and, and_true] at h
  obtain ⟨rfl, rfl, rfl⟩ := h
  rfl

/-- The reading and the validation agree on a schema exactly when the endpoints of its relation
types name declared nodes, no relation has an undeclared type that every object inherits, and
no value that the walk reaches is outside an enumeration without a text. -/
theorem agreesOnSchema_iff (hschema : input.schema.IsNormalized regExpError) :
    AgreesOnSchema regExpTest localeCompare input ↔
      input.schema.EndpointsDeclared ∧
        (∀ relation ∈ input.relations, ¬ relation.Inherits input.schema) ∧
        ¬ input.Unprintable := by
  rw [← validateSchemaShape_eq_nil_iff hschema]
  constructor
  · intro h
    have hquiet := (exists_validateTree regExpTest localeCompare input).mp h.result
    refine ⟨?_, fun relation hmem hinherits => ?_, hquiet.1⟩
    · by_contra hne
      obtain ⟨e, he, hcode⟩ := (exists_invalidSchema_iff regExpTest).mpr hne
      exact h.valid e ((reports_iff regExpTest localeCompare input).mpr ⟨hquiet, he⟩) hcode
    · -- What is reported about the relation would be about one whose type is not found.
      obtain ⟨e, hreports, hcode, hrelation⟩ := h.unknown relation hmem hinherits.1
      obtain ⟨-, he⟩ := (reports_iff regExpTest localeCompare input).mp hreports
      obtain ⟨⟨earlier, other⟩, -, hnone, rfl⟩ := (mem_findings_unknown regExpTest).mp ⟨he, hcode⟩
      have hother : Record.get ((unknownTypeError earlier.length other).details.getD [])
          (js "relation") = some other.value := rfl
      obtain rfl := YSchemaRelation.value_injective
        (Option.some.inj (hother.symm.trans hrelation))
      exact (patterns_eq_none.mp hnone).2 hinherits.2
  · rintro ⟨hshape, hdeclared, hprintable⟩
    have hquiet : input.Quiet :=
      ⟨hprintable, fun relation hmem hthrows => hdeclared relation hmem hthrows.1⟩
    refine ⟨(exists_validateTree regExpTest localeCompare input).mpr hquiet, ?_, ?_⟩
    · intro e hreports hcode
      obtain ⟨-, he⟩ := (reports_iff regExpTest localeCompare input).mp hreports
      exact (exists_invalidSchema_iff regExpTest).mp ⟨e, he, hcode⟩ hshape
    · intro relation hmem hget
      have hnone : (relationTypeOf input.schema relation.type).patterns = none :=
        patterns_eq_none.mpr ⟨hget, fun h => hdeclared relation hmem ⟨hget, h⟩⟩
      obtain ⟨earlier, hearlier⟩ := exists_mem_withEarlier.mpr hmem
      obtain ⟨he, hcode⟩ := (mem_findings_unknown regExpTest).mpr ⟨_, hearlier, hnone, rfl⟩
      exact ⟨_, (reports_iff regExpTest localeCompare input).mpr ⟨hquiet, he⟩, hcode, rfl⟩

/-- The description of a schema with one node and one relation type from it to an endpoint. -/
def endpointSchemaText (endpoint : JsString) : JsValue :=
  .obj [(js "yschema", .str (js "0.1")), (js "name", .str (js "plan")),
    (js "nodes", .obj [(js "step", .obj [])]),
    (js "relationTypes", .obj [(js "needs", .obj [(js "from", .str (js "step")),
      (js "to", .str endpoint)])])]

/-- A schema with one node and one relation type from it to an endpoint. -/
def endpointSchema (endpoint : JsString) : YSchema where
  name := js "plan"
  strict := some false
  nodes := [(js "step", .mk {} none)]
  rules := some []
  relationTypes := some [(js "needs", { «from» := js "step", «to» := endpoint })]

/-- A document with a relation of an unknown type, under the schema. -/
def unknownRelation (endpoint : JsString) : ValidationInput where
  tree := .obj [(js "step", .obj [])]
  relations := [⟨js "step", js "step", js "follows"⟩]
  schema := endpointSchema endpoint

/-- The schema with a declared endpoint is taken for a schema. -/
theorem agreesOnSchema_step :
    (endpointSchema (js "step")).IsNormalized (fun _ => none) ∧
      AgreesOnSchema (fun _ _ => true) (fun _ _ => 0) (unknownRelation (js "step")) := by
  have hnormalized : (endpointSchema (js "step")).IsNormalized fun _ => none :=
    ⟨endpointSchemaText (js "step"), rfl⟩
  have hquiet : (unknownRelation (js "step")).Quiet :=
    (exists_validateTree (fun _ _ => true) (fun _ _ => 0) _).mp ⟨_, rfl⟩
  have hshape : (unknownRelation (js "step")).schema.EndpointsDeclared :=
    (validateSchemaShape_eq_nil_iff hnormalized).mp rfl
  refine ⟨hnormalized, (agreesOnSchema_iff _ _ hnormalized).mpr ⟨hshape, ?_, hquiet.1⟩⟩
  rintro relation hmem ⟨-, hinherited⟩
  rw [List.mem_singleton.mp hmem] at hinherited
  exact absurd hinherited (by decide)

/-- An endpoint under a name that every object inherits is read but found wrong. -/
theorem not_agreesOnSchema_constructor : ¬ ∀ input : ValidationInput,
    input.schema.IsNormalized (fun _ => none) →
      AgreesOnSchema (fun _ _ => true) (fun _ _ => 0) input := by
  intro h
  have hagrees := h (unknownRelation (js "constructor"))
    ⟨endpointSchemaText (js "constructor"), rfl⟩
  have hshape : validateSchemaShape (unknownRelation (js "constructor")).schema ≠ [] := by decide
  obtain ⟨e, he, hcode⟩ := (exists_invalidSchema_iff fun _ _ => true).mpr hshape
  have hquiet := (exists_validateTree _ _ _).mp hagrees.result
  exact hagrees.valid e ((reports_iff _ _ _).mpr ⟨hquiet, he⟩) hcode

end T3x.Yschema
