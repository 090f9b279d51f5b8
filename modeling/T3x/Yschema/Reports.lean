import T3x.Yschema.Reached

/-!
# What the validation reports

Every error has one of the codes of the part of the validation that finds it. The
validation as a whole gives a result unless an enumeration without a text is needed
for a message, or the endpoint of a relation is compared with the pattern of a type
that is not declared but that every object inherits.
-/

namespace T3x.Yschema

open Js

variable (regExpTest : JsString → JsString → Bool) (localeCompare : JsString → JsString → Int)
  (input : ValidationInput)

/-! ## Errors in the schema -/

/-- What the validation finds in a schema are errors with one code. -/
def AllInvalidSchema (found : List Finding) : Prop :=
  ∀ f ∈ found, ∃ e : ValidationError, f = .error e ∧ e.code = "INVALID_SCHEMA"

/-- A demand for an error in the schema. -/
theorem allInvalidSchema_demand (ok : Bool) (path message : JsString)
    (details : Option (Record JsValue)) :
    AllInvalidSchema (demand ok (schemaError path message details)) := by
  intro f hf
  exact ⟨_, (mem_demand.mp hf).2, rfl⟩

/-- What is found in two parts. -/
theorem AllInvalidSchema.append {found found' : List Finding} (h : AllInvalidSchema found)
    (h' : AllInvalidSchema found') : AllInvalidSchema (found ++ found') := by
  intro f hf
  exact (List.mem_append.mp hf).elim (h f) (h' f)

/-- What is found in the parts of a list. -/
theorem AllInvalidSchema.flatMap {T : Type} {items : List T} {found : T → List Finding}
    (h : ∀ item ∈ items, AllInvalidSchema (found item)) :
    AllInvalidSchema (items.flatMap found) := by
  intro f hf
  obtain ⟨item, hitem, hf⟩ := List.mem_flatMap.mp hf
  exact h item hitem f hf

/-- The shape of a node, in terms of its children. -/
theorem validateNodeSchemaShape_mk (head : NodeHead) (children : Option (Children NodeSchema))
    (path : JsString) :
    validateNodeSchemaShape (.mk head children) path =
      validateNodeShape head (mapChildren validateNodeSchemaShape children) path := by
  unfold validateNodeSchemaShape
  rw [NodeSchema.fold_mk]

/-- What is found in the shape of a node. -/
theorem allInvalidSchema_node (node : NodeSchema) :
    ∀ path, AllInvalidSchema (validateNodeSchemaShape node path) := by
  induction node using NodeSchema.induct with
  | mk head children ih =>
    intro path
    have hslots : AllInvalidSchema ((head.requiredSlots.getD []).flatMap fun requiredSlot =>
        if isKey requiredSlot then demand (Record.has (head.slots.getD []) requiredSlot)
          (schemaError (joinPath path requiredSlot) (js "requiredSlots entry \"" ++
            requiredSlot ++ js "\" is not declared in slots.") none)
        else [schemaError (joinPath path requiredSlot) (js "requiredSlots entry \"" ++
          requiredSlot ++ js "\" is invalid.") none]) := by
      refine .flatMap fun key _ => ?_
      split_ifs
      · exact allInvalidSchema_demand _ _ _ _
      · intro f hf
        exact ⟨_, List.mem_singleton.mp hf, rfl⟩
    rw [validateNodeSchemaShape_mk, validateNodeShape]
    refine (((AllInvalidSchema.flatMap fun key _ => allInvalidSchema_demand _ _ _ _).append
      hslots).append (allInvalidSchema_demand _ _ _ _)).append (.flatMap fun e he => ?_)
    refine (allInvalidSchema_demand _ _ _ _).append ?_
    rw [nodes_mapChildren, Record.entries_mapValues] at he
    obtain ⟨⟨key, child⟩, hchild, rfl⟩ := List.mem_map.mp he
    exact ih (key, child) (Record.mem_of_get (Record.mem_entries.mp hchild)) _

/-- What is found in an endpoint of a relation type. -/
theorem allInvalidSchema_endpoint (schema : YSchema) (relationType : JsString) (side : String)
    (pattern : JsString) :
    AllInvalidSchema (validateRelationEndpointSchema schema relationType side pattern) := by
  unfold validateRelationEndpointSchema
  intro f hf
  simp only at hf
  split_ifs at hf
  · exact ⟨_, List.mem_singleton.mp hf, rfl⟩
  · exact ⟨_, List.mem_singleton.mp hf, rfl⟩
  · split at hf
    · exact ⟨_, List.mem_singleton.mp hf, rfl⟩
    · split_ifs at hf
      · exact ⟨_, List.mem_singleton.mp hf, rfl⟩
      · exact absurd hf List.not_mem_nil

/-- What is found in a schema. -/
theorem allInvalidSchema_schema (schema : YSchema) :
    AllInvalidSchema (validateSchemaShape schema) := by
  refine AllInvalidSchema.append (.flatMap fun e _ => ?_) (.flatMap fun e _ => ?_)
  · exact (allInvalidSchema_demand _ _ _ _).append (allInvalidSchema_node _ _)
  · exact ((allInvalidSchema_demand _ _ _ _).append (allInvalidSchema_endpoint _ _ _ _)).append
      (allInvalidSchema_endpoint _ _ _ _)

/-! ## Errors in the relations -/

/-- The codes of the errors about a single relation. -/
def relationCodes : List String :=
  ["INVALID_RELATION_TYPE", "INVALID_RELATION_ENDPOINT", "BROKEN_RELATION_ENDPOINT",
    "RELATION_ENDPOINT_MISMATCH", "SELF_RELATION", "DUPLICATE_RELATION"]

/-- What is found at an endpoint is an error with one of the codes, or it is thrown where the
type has no pattern. -/
theorem mem_validateEndpoint {pattern : Option JsString} {index : ℕ} {side : String}
    {endpoint : JsString} {f : Finding}
    (h : f ∈ validateEndpoint input pattern index side endpoint) :
    (∃ e : ValidationError, f = .error e ∧ e.code ∈ relationCodes ∧
      e.code ≠ "INVALID_RELATION_TYPE") ∨
      (pattern = none ∧ isPath endpoint = true ∧
        f = .thrown (js "Cannot read properties of undefined (reading 'split')")) := by
  unfold validateEndpoint at h
  split_ifs at h with hpath
  · rcases List.mem_append.mp h with h | h
    · exact .inl ⟨_, (mem_demand.mp h).2, by simp [relationCodes], by simp⟩
    · split at h
      · exact .inl ⟨_, (mem_demand.mp h).2, by simp [relationCodes], by simp⟩
      · exact .inr ⟨rfl, hpath, List.mem_singleton.mp h⟩
  · exact .inl ⟨_, List.mem_singleton.mp h, by simp [relationCodes], by simp⟩

/-- Something is thrown at an endpoint exactly when the type has no pattern and the endpoint
is a path. -/
theorem exists_thrown_mem_validateEndpoint (index : ℕ) (side : String)
    {pattern : Option JsString} {endpoint : JsString} :
    (∃ message, .thrown message ∈ validateEndpoint input pattern index side endpoint) ↔
      pattern = none ∧ isPath endpoint = true := by
  constructor
  · rintro ⟨message, h⟩
    rcases mem_validateEndpoint input h with ⟨e, he, -⟩ | ⟨hpattern, hpath, -⟩
    · cases he
    · exact ⟨hpattern, hpath⟩
  · rintro ⟨rfl, hpath⟩
    refine ⟨js "Cannot read properties of undefined (reading 'split')", ?_⟩
    simp [validateEndpoint, hpath]

/-- The type of a relation is not declared, but every object inherits a property of the name. -/
def YSchemaRelation.Inherits (schema : YSchema) (relation : YSchemaRelation) : Prop :=
  Record.get (schema.relationTypes.getD []) relation.type = none ∧ relation.type ∈ inheritedNames

/-- What a type without patterns is. -/
theorem patterns_eq_some_none {schema : YSchema} {relation : YSchemaRelation} :
    (relationTypeOf schema relation.type).patterns = some (none, none) ↔
      relation.Inherits schema := by
  unfold relationTypeOf YSchemaRelation.Inherits
  cases Record.get (schema.relationTypes.getD []) relation.type with
  | some typeSchema => simp [RelationTypeLookup.patterns]
  | none => by_cases h : relation.type ∈ inheritedNames <;> simp [RelationTypeLookup.patterns, h]

/-- What a declared type is. -/
theorem patterns_eq_some_some {schema : YSchema} {type : JsString} {typeSchema : RelationTypeSchema}
    (h : Record.get (schema.relationTypes.getD []) type = some typeSchema) :
    (relationTypeOf schema type).patterns = some (some typeSchema.from, some typeSchema.to) := by
  unfold relationTypeOf
  rw [h]
  rfl

/-- What a type that is not found is. -/
theorem patterns_eq_none {schema : YSchema} {relation : YSchemaRelation} :
    (relationTypeOf schema relation.type).patterns = none ↔
      Record.get (schema.relationTypes.getD []) relation.type = none ∧
        relation.type ∉ inheritedNames := by
  unfold relationTypeOf
  cases Record.get (schema.relationTypes.getD []) relation.type with
  | some typeSchema => simp [RelationTypeLookup.patterns]
  | none => by_cases h : relation.type ∈ inheritedNames <;> simp [RelationTypeLookup.patterns, h]

/-- The three things that a type can be. -/
theorem patterns_cases (schema : YSchema) (relation : YSchemaRelation) :
    (∃ typeSchema, Record.get (schema.relationTypes.getD []) relation.type = some typeSchema) ∨
      relation.Inherits schema ∨ (relationTypeOf schema relation.type).patterns = none := by
  rw [patterns_eq_none]
  unfold YSchemaRelation.Inherits
  cases Record.get (schema.relationTypes.getD []) relation.type with
  | some typeSchema => exact .inl ⟨typeSchema, rfl⟩
  | none => by_cases h : relation.type ∈ inheritedNames <;> simp [h]

/-- A relation that is compared with the pattern of an inherited type. -/
def YSchemaRelation.Throws (schema : YSchema) (relation : YSchemaRelation) : Prop :=
  relation.Inherits schema ∧ (isPath relation.from = true ∨ isPath relation.to = true)

/-- An error about a single relation has one of the codes, and that of an unknown type only if
the type is not found. -/
theorem code_of_mem_validateRelation {earlier : List YSchemaRelation} {relation : YSchemaRelation}
    {e : ValidationError} (h : .error e ∈ validateRelation input earlier relation) :
    e.code ∈ relationCodes := by
  unfold validateRelation at h
  simp only at h
  split at h
  · rw [List.mem_singleton, relationError, Finding.error.injEq] at h
    simp [h, relationCodes]
  · simp only [validateEndpoints, List.mem_append, mem_demand, relationError,
      Finding.error.injEq] at h
    rcases h with ((h | h) | ⟨-, rfl⟩) | ⟨-, rfl⟩
    · obtain ⟨e', he, hcode, -⟩ | ⟨-, -, he⟩ := mem_validateEndpoint input h
      · exact Finding.error.inj he ▸ hcode
      · cases he
    · obtain ⟨e', he, hcode, -⟩ | ⟨-, -, he⟩ := mem_validateEndpoint input h
      · exact Finding.error.inj he ▸ hcode
      · cases he
    · simp [relationCodes]
    · simp [relationCodes]

/-- Something is thrown about a single relation exactly when it is compared with the pattern of
an inherited type. -/
theorem exists_thrown_mem_validateRelation (earlier : List YSchemaRelation)
    {relation : YSchemaRelation} :
    (∃ message, .thrown message ∈ validateRelation input earlier relation) ↔
      relation.Throws input.schema := by
  have hthrown : ∀ patterns, (relationTypeOf input.schema relation.type).patterns = some patterns →
      ((∃ message, .thrown message ∈ validateRelation input earlier relation) ↔
        (patterns.1 = none ∧ isPath relation.from = true) ∨
          (patterns.2 = none ∧ isPath relation.to = true)) := by
    intro patterns hpatterns
    rw [← exists_thrown_mem_validateEndpoint input earlier.length "from",
      ← exists_thrown_mem_validateEndpoint input earlier.length "to",
      ← exists_or]
    refine exists_congr fun message => ?_
    unfold validateRelation
    simp [hpatterns, validateEndpoints, mem_demand, relationError]
  unfold YSchemaRelation.Throws
  rcases patterns_cases input.schema relation with ⟨typeSchema, hget⟩ | hinherits | hnone
  · rw [hthrown _ (patterns_eq_some_some hget)]
    simp [YSchemaRelation.Inherits, hget]
  · rw [hthrown _ (patterns_eq_some_none.mpr hinherits)]
    simp [hinherits]
  · have hnot : ¬ relation.Inherits input.schema := fun h =>
      (patterns_eq_none.mp hnone).2 h.2
    simp [validateRelation, hnone, relationError, hnot]

/-! ## The whole validation -/

/-- A relation stands behind those before it. -/
theorem mem_withEarlier {relations earlier : List YSchemaRelation} {relation : YSchemaRelation} :
    (earlier, relation) ∈ withEarlier relations ↔
      ∃ after, relations = earlier ++ relation :: after := by
  unfold withEarlier
  simp only [List.mem_map, Prod.mk.injEq, Prod.exists, List.mem_zipIdx_iff_getElem?]
  constructor
  · rintro ⟨relation, index, hget, rfl, rfl⟩
    obtain ⟨hlt, rfl⟩ := List.getElem?_eq_some_iff.mp hget
    exact ⟨relations.drop (index + 1), by rw [List.getElem_cons_drop, List.take_append_drop]⟩
  · rintro ⟨after, rfl⟩
    exact ⟨relation, earlier.length, by simp, by simp, rfl⟩

/-- Every relation is checked. -/
theorem exists_mem_withEarlier {relations : List YSchemaRelation} {relation : YSchemaRelation} :
    (∃ earlier, (earlier, relation) ∈ withEarlier relations) ↔ relation ∈ relations := by
  simp only [mem_withEarlier]
  constructor
  · rintro ⟨earlier, after, rfl⟩
    simp
  · intro h
    obtain ⟨earlier, after, rfl⟩ := List.append_of_mem h
    exact ⟨earlier, after, rfl⟩

/-- What the validation as a whole throws. -/
theorem exists_thrown_mem_findings :
    (∃ message, .thrown message ∈ findings regExpTest input) ↔
      input.Unprintable ∨ ∃ relation ∈ input.relations, relation.Throws input.schema := by
  have hschema : ∀ message, .thrown message ∉ validateSchemaShape input.schema := by
    intro message h
    obtain ⟨e, he, -⟩ := allInvalidSchema_schema input.schema _ h
    cases he
  have hrules : ∀ message, .thrown message ∉ validateRules input := by
    intro message h
    unfold validateRules at h
    obtain ⟨rule, -, h⟩ := List.mem_flatMap.mp h
    split at h
    · exact absurd h List.not_mem_nil
    · simp [validateRequiredRelationRule, mem_demand, relationError] at h
  have hrelations : ∀ message, .thrown message ∈ validateRelations input ↔
      ∃ r ∈ withEarlier input.relations, .thrown message ∈ validateRelation input r.1 r.2 := by
    intro message
    unfold validateRelations
    simp only [List.mem_append, List.mem_flatMap, List.mem_map, Option.mem_toList, relationError,
      reduceCtorEq, and_false, exists_false, or_false]
  rw [← exists_thrown_mem_documentFindings regExpTest input]
  unfold findings
  simp only [List.mem_append, hschema, false_or, hrules, or_false, exists_or, hrelations]
  refine or_congr_right ?_
  constructor
  · rintro ⟨message, ⟨earlier, relation⟩, hmem, h⟩
    exact ⟨relation, exists_mem_withEarlier.mp ⟨earlier, hmem⟩,
      (exists_thrown_mem_validateRelation input earlier).mp ⟨message, h⟩⟩
  · rintro ⟨relation, hmem, hthrows⟩
    obtain ⟨earlier, hearlier⟩ := exists_mem_withEarlier.mpr hmem
    obtain ⟨message, h⟩ := (exists_thrown_mem_validateRelation input earlier).mpr hthrows
    exact ⟨message, _, hearlier, h⟩

/-- The part of the validation that finds an error: the schema, the document, a single
relation, the cycles or the rules. -/
theorem mem_findings_cases {e : ValidationError} (h : .error e ∈ findings regExpTest input) :
    (.error e ∈ validateSchemaShape input.schema ∧ e.code = "INVALID_SCHEMA") ∨
      e.code ∈ documentCodes ∨
      (∃ r ∈ withEarlier input.relations, .error e ∈ validateRelation input r.1 r.2) ∨
      (.error e ∈ validateRelations input ∧ e.code = "RELATION_CYCLE") ∨
      e.code = "REQUIRED_RELATION_MISSING" := by
  unfold findings at h
  rcases List.mem_append.mp h with h | h
  · rcases List.mem_append.mp h with h | h
    · rcases List.mem_append.mp h with h | h
      · obtain ⟨e', he', hcode⟩ := allInvalidSchema_schema input.schema _ h
        exact .inl ⟨h, Finding.error.inj he' ▸ hcode⟩
      · exact .inr (.inl (code_of_mem_documentFindings regExpTest input h))
    · have hrelations := h
      rcases List.mem_append.mp h with h | h
      · exact .inr (.inr (.inl (List.mem_flatMap.mp h)))
      · obtain ⟨type, -, h⟩ := List.mem_flatMap.mp h
        obtain ⟨cycle, -, hcycle⟩ := List.mem_map.mp h
        obtain rfl := Finding.error.inj hcycle
        exact .inr (.inr (.inr (.inl ⟨hrelations, rfl⟩)))
  · unfold validateRules at h
    obtain ⟨rule, -, h⟩ := List.mem_flatMap.mp h
    split at h
    · exact absurd h List.not_mem_nil
    · obtain ⟨-, he⟩ := mem_demand.mp h
      obtain rfl := Finding.error.inj he
      exact .inr (.inr (.inr (.inr rfl)))

/-- Nothing is thrown in the validation. -/
def ValidationInput.Quiet : Prop :=
  ¬ input.Unprintable ∧ ∀ relation ∈ input.relations, ¬ relation.Throws input.schema

/-- The validation has a result exactly when nothing is thrown, and then its errors are those
among the findings. -/
theorem validateTree_eq_ok {result : ValidationResult}
    (h : validateTree regExpTest localeCompare input = .ok result) :
    result.errors = errorsOf (findings regExpTest input) := by
  unfold validateTree at h
  simp only at h
  split at h
  · cases h
  · obtain rfl := Except.ok.inj h
    rfl

/-- The validation has a result exactly when nothing is thrown. -/
theorem exists_validateTree :
    (∃ result, validateTree regExpTest localeCompare input = .ok result) ↔ input.Quiet := by
  have hthrown : thrownIn (findings regExpTest input) = none ↔
      ¬ ∃ message, .thrown message ∈ findings regExpTest input := by
    unfold thrownIn
    rw [List.findSome?_eq_none_iff, not_exists]
    constructor
    · intro h message hmem
      exact absurd (h _ hmem) (by simp)
    · intro h f hf
      match f, hf with
      | .thrown message, hf => exact absurd hf (h message)
      | .error _, _ | .gap _, _ | .fix _, _ => rfl
  have hquiet : input.Quiet ↔ thrownIn (findings regExpTest input) = none := by
    rw [hthrown, exists_thrown_mem_findings]
    unfold ValidationInput.Quiet
    simp only [not_or, not_exists, not_and]
  rw [hquiet]
  unfold validateTree
  simp only
  cases hfound : thrownIn (findings regExpTest input) <;> simp

/-- An error is reported. -/
def ValidationInput.Reports (e : ValidationError) : Prop :=
  ∃ result, validateTree regExpTest localeCompare input = .ok result ∧ e ∈ result.errors

/-- The errors that are reported are those that are found, if nothing is thrown. -/
theorem reports_iff {e : ValidationError} :
    input.Reports regExpTest localeCompare e ↔
      input.Quiet ∧ .error e ∈ findings regExpTest input := by
  have hmem : e ∈ errorsOf (findings regExpTest input) ↔ .error e ∈ findings regExpTest input := by
    unfold errorsOf
    rw [List.mem_filterMap]
    constructor
    · rintro ⟨f, hf, h⟩
      split at h
      · exact Option.some.inj h ▸ hf
      · cases h
    · exact fun h => ⟨_, h, rfl⟩
  rw [← exists_validateTree regExpTest localeCompare, ← hmem]
  constructor
  · rintro ⟨result, hresult, he⟩
    exact ⟨⟨result, hresult⟩, validateTree_eq_ok _ _ _ hresult ▸ he⟩
  · rintro ⟨⟨result, hresult⟩, he⟩
    exact ⟨result, hresult, (validateTree_eq_ok _ _ _ hresult).symm ▸ he⟩

end T3x.Yschema
