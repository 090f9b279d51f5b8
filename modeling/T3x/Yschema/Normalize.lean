import T3x.Js.Agree
import T3x.Yschema.Schema

/-!
# Reading a schema

`normalizeYSchemaObject` reads a schema from a JSON-like value and refuses what it
does not understand: unknown and deprecated members, values of the wrong kind,
keys and paths outside the machine-safe alphabet, a default or a constant outside
its enumeration, and endpoints that name no node. Every JSON-like value is a YAML
value, so the tests for that never fail here.
-/

namespace T3x.Yschema

open Js

/-! ## Reading members -/

/-- `invalidSchema`. -/
def invalidSchema {T : Type} (message : JsString) : Except JsString T :=
  .error (js "INVALID_SCHEMA: " ++ message)

/-- `asRecord`. -/
def asRecord (value : JsValue) (context : JsString) : Except JsString (Record JsValue) :=
  match value with
  | .obj record => .ok record
  | _ => invalidSchema (context ++ js " must be a mapping")

/-- `getField`: a member under its name or under its other name, not under both. -/
def getField (record : Record JsValue) (camel snake : String) :
    Except JsString (Option JsValue) :=
  match Record.get record (js camel), Record.get record (js snake) with
  | some _, some _ => invalidSchema (js (camel ++ " and " ++ snake ++ " cannot both be set"))
  | some value, none => .ok (some value)
  | none, value => .ok value

/-- `DEPRECATED_FIELD_REPLACEMENTS`. -/
def deprecatedFieldReplacements : List (String × String) :=
  [("ask", "gap_question"), ("guidance", "content_guidance"), ("zone", "content_kind")]

/-- `rejectDeprecatedFields`. -/
def rejectDeprecatedFields (record : Record JsValue) (context : JsString) :
    Except JsString Unit :=
  match deprecatedFieldReplacements.find? fun entry => Record.has record (js entry.1) with
  | some (deprecated, replacement) => invalidSchema (context ++
      js ("." ++ deprecated ++ " is deprecated; use " ++ replacement))
  | none => .ok ()

/-- `rejectUnknownFields`. -/
def rejectUnknownFields (record : Record JsValue) (context : JsString) (allowed : List String) :
    Except JsString Unit :=
  match (Record.keys record).find? fun key => !allowed.any fun field => decide (js field = key) with
  | some field => invalidSchema (context ++ unit '.' :: field ++ js " is an unknown field")
  | none => .ok ()

/-- `asOptionalString`. -/
def asOptionalString (value : Option JsValue) (context : JsString) :
    Except JsString (Option JsString) :=
  match value with
  | none => .ok none
  | some (.str s) => .ok (some s)
  | some _ => invalidSchema (context ++ js " must be a string")

/-- `asOptionalBoolean`. -/
def asOptionalBoolean (value : Option JsValue) (context : JsString) :
    Except JsString (Option Bool) :=
  match value with
  | none => .ok none
  | some (.bool b) => .ok (some b)
  | some _ => invalidSchema (context ++ js " must be a boolean")

/-- `asOptionalNumber`. -/
def asOptionalNumber (value : Option JsValue) (context : JsString) :
    Except JsString (Option JsNumber) :=
  match value with
  | none => .ok none
  | some (.num n) => .ok (some n)
  | some _ => invalidSchema (context ++ js " must be a finite number")

/-- `asOptionalNumber`, then `assertNonNegativeInteger` or, from one on,
`assertPositiveInteger`. -/
def asOptionalCount (least : ℕ) (value : Option JsValue) (context : JsString) :
    Except JsString (Option JsNumber) := do
  let n ← asOptionalNumber value context
  if n.all fun n => isInteger n && decide ((least : ℚ) ≤ n.toRat) then return n
  else invalidSchema (context ++
    js (if least = 0 then " must be a non-negative integer" else " must be a positive integer"))

/-- `asOptionalContentKind`. -/
def asOptionalContentKind (value : Option JsValue) (context : JsString) :
    Except JsString (Option ContentKind) :=
  match value with
  | none => .ok none
  | some value =>
    if value = .str (js "prose") then .ok (some .prose)
    else if value = .str (js "structured") then .ok (some .structured)
    else invalidSchema (context ++ js " must be \"prose\" or \"structured\"")

/-- `asYValueArray`. -/
def asYValueArray (value : Option JsValue) (context : JsString) :
    Except JsString (Option (List JsValue)) :=
  match value with
  | none => .ok none
  | some (.arr items) => .ok (some items)
  | some _ => invalidSchema (context ++ js " must be an array")

/-- `yValueEquals`: numbers as `Object.is` compares them, mappings by name. -/
def yValueEquals (a b : JsValue) : Bool := JsValue.sameDoc id a b

/-- `assertKey`. -/
def assertKey (key context : JsString) : Except JsString Unit :=
  if isKey key then .ok ()
  else invalidSchema (context ++ js " key \"" ++ key ++ js "\" must match " ++ keySource)

/-- `assertPath`. -/
def assertPath (path context : JsString) : Except JsString Unit :=
  if isPath path then .ok ()
  else invalidSchema (context ++ js " path \"" ++ path ++ js "\" must match " ++ pathSource)

/-- `asKeyArray`. -/
def asKeyArray (value : Option JsValue) (context : JsString) :
    Except JsString (Option (List JsString)) :=
  match value with
  | none => .ok none
  | some (.arr items) => do
    let keys ← items.zipIdx.mapM fun entry =>
      match entry.1 with
      | .str key => do
        assertKey key context
        return key
      | _ => invalidSchema (context ++ unit '[' :: natToString entry.2 ++ js "] must be a string")
    return some keys
  | some _ => invalidSchema (context ++ js " must be an array")

/-! ## Slots -/

/-- `YOPS_HINT_FIELDS`. -/
def yopsHintFields : List String := ["preferredOp", "preferred_op", "path", "slot"]

/-- `normalizeYOpsHint`. -/
def normalizeYOpsHint (value : Option JsValue) (context : JsString) :
    Except JsString (Option YOpsHint) :=
  match value with
  | none => .ok none
  | some value => do
    let raw ← asRecord value context
    rejectUnknownFields raw context yopsHintFields
    let preferredOp ← match ← getField raw "preferredOp" "preferred_op" with
      | none => pure none
      | some op =>
        if Shape.word ["define", "set", "populate", "append"] op then pure (some op.text)
        else invalidSchema (context ++
          js ".preferredOp must be define, set, populate, or append")
    let path ← asOptionalString (Record.get raw (js "path")) (context ++ js ".path")
    path.forM fun path => assertPath path (context ++ js ".path")
    let slot ← asOptionalString (Record.get raw (js "slot")) (context ++ js ".slot")
    slot.forM fun slot => assertKey slot (context ++ js ".slot")
    return some { preferredOp, path, slot }

/-- `SLOT_FIELDS`. -/
def slotFields : List String :=
  ["type", "enum", "const", "default", "description", "contentGuidance", "content_guidance",
    "examples", "minimum", "maximum", "minLength", "min_length", "maxLength", "max_length",
    "pattern", "format", "maxWords", "max_words", "gapQuestion", "gap_question", "contentKind",
    "content_kind", "provenanceRequired", "provenance_required", "yopsHint", "yops_hint"]

/-- The type of a slot; `list` is another word for an array. -/
def normalizeType (value : Option JsValue) (context : JsString) :
    Except JsString (Option SlotType) :=
  match value with
  | none => .ok none
  | some value =>
    let word := if value = .str (js "list") then js "array" else value.text
    match SlotType.all.find? fun type => decide (type.text = word) with
    | some type => .ok (some type)
    | none => invalidSchema (context ++ js ".type must be one of " ++
        (js ", ").intercalate (SlotType.all.map SlotType.text))

section

-- the message of the error that `new RegExp(pattern)` throws, if it throws one
variable (regExpError : JsString → Option JsString)

/-- The slot that a mapping declares: a default and a constant have to be among the
enumerated values, and a default has to equal the constant. -/
def normalizeSlotRecord (raw : Record JsValue) (context : JsString) :
    Except JsString SlotSchema := do
  rejectDeprecatedFields raw context
  rejectUnknownFields raw context slotFields
  let type ← normalizeType (Record.get raw (js "type")) context
  let const := Record.get raw (js "const")
  let default := Record.get raw (js "default")
  let minLength ← getField raw "minLength" "min_length"
  let maxLength ← getField raw "maxLength" "max_length"
  let maxWords ← getField raw "maxWords" "max_words"
  let provenanceRequired ← getField raw "provenanceRequired" "provenance_required"
  let contentKind ← getField raw "contentKind" "content_kind"
  let contentGuidance ← getField raw "contentGuidance" "content_guidance"
  let gapQuestion ← getField raw "gapQuestion" "gap_question"
  let yopsHint ← getField raw "yopsHint" "yops_hint"
  let enum ← asYValueArray (Record.get raw (js "enum")) (context ++ js ".enum")
  if enum = some [] then invalidSchema (context ++ js ".enum must not be empty")
  if enum.any fun items => const.any fun value => !items.any (yValueEquals · value) then
    invalidSchema (context ++ js ".const must be one of " ++ context ++ js ".enum")
  if enum.any fun items => default.any fun value => !items.any (yValueEquals · value) then
    invalidSchema (context ++ js ".default must be one of " ++ context ++ js ".enum")
  if const.any fun value => default.any fun other => !yValueEquals value other then
    invalidSchema (context ++ js ".default must equal " ++ context ++ js ".const")
  let examples ← asYValueArray (Record.get raw (js "examples")) (context ++ js ".examples")
  let description ← asOptionalString (Record.get raw (js "description"))
    (context ++ js ".description")
  let contentGuidance ← asOptionalString contentGuidance (context ++ js ".contentGuidance")
  let gapQuestion ← asOptionalString gapQuestion (context ++ js ".gapQuestion")
  let contentKind ← asOptionalContentKind contentKind (context ++ js ".contentKind")
  let minimum ← asOptionalNumber (Record.get raw (js "minimum")) (context ++ js ".minimum")
  let maximum ← asOptionalNumber (Record.get raw (js "maximum")) (context ++ js ".maximum")
  if minimum.any fun least => maximum.any fun greatest => greatest.lt least then
    invalidSchema (context ++ js ".minimum cannot be greater than " ++ context ++ js ".maximum")
  let minLength ← asOptionalCount 0 minLength (context ++ js ".minLength")
  let maxLength ← asOptionalCount 0 maxLength (context ++ js ".maxLength")
  if minLength.any fun least => maxLength.any fun greatest => greatest.lt least then
    invalidSchema (context ++ js ".minLength cannot be greater than " ++ context ++
      js ".maxLength")
  let pattern ← asOptionalString (Record.get raw (js "pattern")) (context ++ js ".pattern")
  match pattern.bind regExpError with
  | some message =>
    invalidSchema (context ++ js ".pattern must be a valid regex: " ++ message)
  | none => pure ()
  let format ← asOptionalString (Record.get raw (js "format")) (context ++ js ".format")
  let maxWords ← asOptionalCount 1 maxWords (context ++ js ".maxWords")
  let provenanceRequired ← asOptionalBoolean provenanceRequired
    (context ++ js ".provenanceRequired")
  let yopsHint ← normalizeYOpsHint yopsHint (context ++ js ".yopsHint")
  return {
    type := type, enum, const, default, examples, description, contentGuidance, gapQuestion,
    contentKind, minimum, maximum, minLength, maxLength, pattern, format, maxWords,
    provenanceRequired, yopsHint }

/-- `normalizeSlot`. -/
def normalizeSlot (value : JsValue) (context : JsString) : Except JsString SlotSchema :=
  match value with
  | .arr items => .ok { enum := some items }
  | value =>
    if value = .str (js "list") then .ok { type := some .array }
    else if value = .str (js "scalar") then
      invalidSchema (context ++ js " uses legacy scalar; P0 slots must use an explicit type")
    else do
      let raw ← asRecord value context
      normalizeSlotRecord regExpError raw context

/-- The members of a mapping, each under a machine-safe key. -/
def normalizeMembers {V W : Type} (raw : Record V) (keyContext context : JsString)
    (read : V → JsString → Except JsString W) : Except JsString (Record W) :=
  (Record.entries raw).mapM fun entry => do
    assertKey entry.1 keyContext
    let value ← read entry.2 (context ++ unit '.' :: entry.1)
    return (entry.1, value)

/-- `normalizeSlots`. -/
def normalizeSlots (value : Option JsValue) (context : JsString) :
    Except JsString (Option (Record SlotSchema)) :=
  match value with
  | none => .ok none
  | some value => do
    let raw ← asRecord value context
    return some (← normalizeMembers raw context context (normalizeSlot regExpError))

/-! ## Nodes -/

/-- `NODE_FIELDS`. -/
def nodeFields : List String :=
  ["required", "contentKind", "content_kind", "repeated", "description", "contentGuidance",
    "content_guidance", "requiredSlots", "required_slots", "slots", "children"]

/-- A value with what reading it as a node gives, and what reading its members as nodes
gives, so that the children of a node are read below the node. -/
structure NodeReading where
  /-- The value. -/
  value : JsValue
  /-- The value read as a node. -/
  node : JsString → Except JsString NodeSchema
  /-- The members read as nodes, if the value is a mapping. -/
  members : Option (Record (JsString → Except JsString NodeSchema))

/-- The children that a value declares. -/
def normalizeChildren (reading : Option NodeReading) (context : JsString) :
    Except JsString (Option (Children NodeSchema)) :=
  match reading with
  | none => .ok none
  | some reading =>
    if reading.value = .str (js "any") then .ok (some .any)
    else
      match reading.members with
      | some members => do
        let nodes ← normalizeMembers members context context fun read => read
        return some (.declared nodes)
      | none => invalidSchema (context ++ js " must be a mapping")

/-- The node that a mapping declares, given the reading of its member `children`. -/
def normalizeNodeRecord (raw : Record JsValue) (childrenReading : Option NodeReading)
    (context : JsString) : Except JsString NodeSchema := do
  rejectDeprecatedFields raw context
  rejectUnknownFields raw context nodeFields
  let required ← asOptionalBoolean (Record.get raw (js "required")) (context ++ js ".required")
  let repeated ← asOptionalBoolean (Record.get raw (js "repeated")) (context ++ js ".repeated")
  let description ← asOptionalString (Record.get raw (js "description"))
    (context ++ js ".description")
  let contentGuidance ← getField raw "contentGuidance" "content_guidance"
  let contentGuidance ← asOptionalString contentGuidance (context ++ js ".contentGuidance")
  let contentKind ← getField raw "contentKind" "content_kind"
  let contentKind ← asOptionalContentKind contentKind (context ++ js ".contentKind")
  let slots ← normalizeSlots regExpError (Record.get raw (js "slots")) (context ++ js ".slots")
  let requiredSlots ← getField raw "requiredSlots" "required_slots"
  let requiredSlots ← asKeyArray requiredSlots (context ++ js ".requiredSlots")
  let children ← normalizeChildren childrenReading (context ++ js ".children")
  if repeated = some true ∧ children.isSome then
    invalidSchema (context ++ js " cannot combine repeated with children")
  match (requiredSlots.getD []).find? fun key => !Record.has (slots.getD []) key with
  | some key => invalidSchema (context ++ js ".requiredSlots references undeclared slot \"" ++
      key ++ js "\"")
  | none => pure ()
  let head : NodeHead := {
    required := required, repeated, description, contentGuidance, contentKind, slots,
    requiredSlots }
  return .mk head children

/-- Read a value as a node, its members first. -/
def nodeReading : JsValue → NodeReading :=
  let other (value : JsValue) : NodeReading :=
    { value
      node := fun context => invalidSchema (context ++ js " must be a mapping")
      members := none }
  JsValue.fold
    { null := other .null
      bool := fun b => other (.bool b)
      num := fun n => other (.num n)
      str := fun s => other (.str s)
      arr := fun items => other (.arr (items.map NodeReading.value))
      obj := fun readings =>
        { value := .obj (Record.mapValues NodeReading.value readings)
          node := normalizeNodeRecord regExpError (Record.mapValues NodeReading.value readings)
            (Record.get readings (js "children"))
          members := some (Record.mapValues NodeReading.node readings) } }

/-- `normalizeNode`. -/
def normalizeNode (value : JsValue) (context : JsString) : Except JsString NodeSchema :=
  (nodeReading regExpError value).node context

/-- `normalizeNodes`. -/
def normalizeNodes (value : JsValue) : Except JsString (Record NodeSchema) := do
  let raw ← asRecord value (js "nodes")
  normalizeMembers raw (js "nodes") (js "nodes") (normalizeNode regExpError)

/-- What is read of a value is the value. -/
theorem nodeReading_value (value : JsValue) : (nodeReading regExpError value).value = value := by
  unfold nodeReading
  induction value using JsValue.induct with
  | arr items ih =>
    rw [JsValue.fold_arr]
    simp only [List.map_map]
    exact congrArg JsValue.arr ((List.map_congr_left ih).trans (List.map_id _))
  | obj members ih =>
    rw [JsValue.fold_obj]
    simp only [Record.mapValues, List.map_map]
    refine congrArg JsValue.obj (List.map_congr_left (g := id) fun e he => ?_) |>.trans ?_
    · exact Prod.ext rfl (ih e he)
    · rw [List.map_id]
  | _ => rfl

/-- `normalizeNode` on a mapping: its member `children` is read in the same way. -/
theorem normalizeNode_obj (raw : Record JsValue) (context : JsString) :
    normalizeNode regExpError (.obj raw) context =
      normalizeNodeRecord regExpError raw
        ((Record.get raw (js "children")).map (nodeReading regExpError)) context := by
  have hvalues : Record.mapValues NodeReading.value
      (Record.mapValues (nodeReading regExpError) raw) = raw := by
    have hvalue := nodeReading_value regExpError (.obj raw)
    unfold nodeReading at hvalue ⊢
    rw [JsValue.fold_obj] at hvalue
    exact JsValue.obj.inj hvalue
  unfold normalizeNode
  conv_lhs => unfold nodeReading
  rw [JsValue.fold_obj]
  change normalizeNodeRecord regExpError (Record.mapValues NodeReading.value
    (Record.mapValues (nodeReading regExpError) raw))
    (Record.get (Record.mapValues (nodeReading regExpError) raw) (js "children")) context = _
  rw [hvalues, Record.get_mapValues]

end

/-! ## Relations and rules -/

/-- A record read by a key: a member, or what every object inherits under the name. -/
def readMember {V : Type} (record : Record V) (key : JsString) : Option (Option V) :=
  match Record.get record key with
  | some value => some (some value)
  | none => if key ∈ inheritedNames then some none else none

/-- `resolveNodePath` from the node on, which may be an inherited member. -/
def resolveNodeFrom : Option (Option NodeSchema) → List JsString → Option (Option NodeSchema)
  | current, [] => current
  | some (some (.mk _ (some (.declared nodes)))), key :: keys =>
    resolveNodeFrom (readMember nodes key) keys
  | _, _ :: _ => none

/-- `resolveNodePath`. -/
def resolveNodePath (nodes : Record NodeSchema) (path : JsString) :
    Except JsString (Option (Option NodeSchema)) := do
  assertPath path (js "relationTypes endpoint")
  match split (unit '/') path with
  | key :: keys => return resolveNodeFrom (readMember nodes key) keys
  | [] => return none

/-- An endpoint pattern has to name a node, a repeated one if it ends in `/*`. The text
before ` endpoint` is the context. -/
def checkEndpoint (nodes : Record NodeSchema) (pattern context : JsString) :
    Except JsString Unit := do
  if unit '*' ∈ pattern ∧ endsInStar pattern = false then
    invalidSchema (context ++ js " endpoint \"" ++ pattern ++ js "\" must be a path or path/*")
  assertPath (patternPath pattern) context
  match ← resolveNodePath nodes (patternPath pattern) with
  | none =>
    invalidSchema (context ++ js " endpoint \"" ++ pattern ++ js "\" does not resolve to a node")
  | some node =>
    if endsInStar pattern ∧ node.bind (fun node => node.head.repeated) ≠ some true then
      invalidSchema (context ++ js " endpoint \"" ++ pattern ++ js "\" requires a repeated node")

/-- `RELATION_TYPE_FIELDS`. -/
def relationTypeFields : List String :=
  ["from", "to", "description", "contentGuidance", "content_guidance", "acyclic"]

/-- A text that has to be there. -/
def asString (value : Option JsValue) (context : JsString) : Except JsString JsString :=
  match value with
  | some (.str s) => .ok s
  | _ => invalidSchema (context ++ js " must be a string")

/-- One member of `normalizeRelationTypes`. -/
def normalizeRelationType (nodes : Record NodeSchema) (value : JsValue) (context : JsString) :
    Except JsString RelationTypeSchema := do
  let raw ← asRecord value context
  rejectDeprecatedFields raw context
  rejectUnknownFields raw context relationTypeFields
  let «from» ← asString (Record.get raw (js "from")) (context ++ js ".from")
  let «to» ← asString (Record.get raw (js "to")) (context ++ js ".to")
  checkEndpoint nodes «from» (context ++ js ".from")
  checkEndpoint nodes «to» (context ++ js ".to")
  let description ← asOptionalString (Record.get raw (js "description"))
    (context ++ js ".description")
  let contentGuidance ← getField raw "contentGuidance" "content_guidance"
  let contentGuidance ← asOptionalString contentGuidance (context ++ js ".contentGuidance")
  let acyclic ← asOptionalBoolean (Record.get raw (js "acyclic")) (context ++ js ".acyclic")
  return { «from», «to», description, contentGuidance, acyclic }

/-- `normalizeRelationTypes`. -/
def normalizeRelationTypes (value : Option JsValue) (nodes : Record NodeSchema) :
    Except JsString (Option (Record RelationTypeSchema)) :=
  match value with
  | none => .ok none
  | some value => do
    let raw ← asRecord value (js "relationTypes")
    let types ← normalizeMembers raw (js "relationTypes") (js "relationTypes")
      (normalizeRelationType nodes)
    return some types

/-- A name that has to be there and may not be empty. -/
def asName (value : Option JsValue) (context : JsString) : Except JsString JsString :=
  match value with
  | some (.str (u :: s)) => .ok (u :: s)
  | _ => invalidSchema (context ++ js " must be a non-empty string")

/-- `RESERVED_RULE_FIELDS`. -/
def reservedRuleFields : List String := ["id", "description"]

/-- `normalizeReservedRule`. -/
def normalizeReservedRule (raw : Record JsValue) (context : JsString) :
    Except JsString YSchemaRuleSchema := do
  rejectUnknownFields raw context reservedRuleFields
  let id ← asName (Record.get raw (js "id")) (context ++ js ".id")
  let description ← asOptionalString (Record.get raw (js "description"))
    (context ++ js ".description")
  return .reserved { id, description }

/-- `REQUIRED_RELATION_RULE_FIELDS`. -/
def requiredRelationRuleFields : List String :=
  ["id", "kind", "relationType", "relation_type", "from", "to", "description"]

/-- `normalizeRequiredRelationRule`. -/
def normalizeRequiredRelationRule (raw : Record JsValue) (context : JsString)
    (nodes : Record NodeSchema) (relationTypes : Record RelationTypeSchema) :
    Except JsString YSchemaRuleSchema := do
  rejectUnknownFields raw context requiredRelationRuleFields
  let id ← asName (Record.get raw (js "id")) (context ++ js ".id")
  let relationType ← asString (← getField raw "relationType" "relation_type")
    (context ++ js ".relationType")
  assertKey relationType (context ++ js ".relationType")
  if Record.has relationTypes relationType = false then
    invalidSchema (context ++ js ".relationType \"" ++ relationType ++
      js "\" is not declared in relationTypes")
  let «from» ← asString (Record.get raw (js "from")) (context ++ js ".from")
  let «to» ← asString (Record.get raw (js "to")) (context ++ js ".to")
  checkEndpoint nodes «from» (context ++ js ".from")
  checkEndpoint nodes «to» (context ++ js ".to")
  let description ← asOptionalString (Record.get raw (js "description"))
    (context ++ js ".description")
  return .requiredRelation { id, relationType, «from», «to», description }

/-- `normalizeRules`. -/
def normalizeRules (value : Option JsValue) (nodes : Record NodeSchema)
    (relationTypes : Record RelationTypeSchema) : Except JsString (List YSchemaRuleSchema) :=
  match value with
  | none => .ok []
  | some (.arr items) =>
    items.zipIdx.mapM fun entry => do
      let context := js "rules[" ++ natToString entry.2 ++ js "]"
      let raw ← asRecord entry.1 context
      match Record.get raw (js "kind") with
      | none => normalizeReservedRule raw context
      | some kind =>
        if kind = .str (js "required_relation") then
          normalizeRequiredRelationRule raw context nodes relationTypes
        else invalidSchema (context ++ js ".kind must be required_relation")
  | some _ => invalidSchema (js "rules must be an array")

/-! ## Schemas -/

/-- `ROOT_FIELDS`. -/
def rootFields : List String :=
  ["yschema", "name", "version", "description", "strict", "nodes", "relationTypes",
    "relation_types", "rules"]

/-- The version of a schema. -/
def normalizeVersion (value : Option JsValue) : Except JsString (Option JsValue) :=
  match value with
  | none => .ok none
  | some (.str s) => .ok (some (.str s))
  | some (.num n) => .ok (some (.num n))
  | some _ => invalidSchema (js "version must be a string or number")

/-- `normalizeYSchemaObject`. -/
def normalizeYSchemaObject (regExpError : JsString → Option JsString) (rawInput : JsValue) :
    Except JsString YSchema := do
  let raw ← asRecord rawInput (js "schema")
  rejectUnknownFields raw (js "schema") rootFields
  if Record.get raw (js "yschema") ≠ some (.str (js "0.1")) then
    invalidSchema (js "yschema must be \"0.1\"")
  let name ← asName (Record.get raw (js "name")) (js "name")
  match Record.get raw (js "nodes") with
  | none => invalidSchema (js "nodes is required")
  | some rawNodes =>
    let nodes ← normalizeNodes regExpError rawNodes
    let rawTypes ← getField raw "relationTypes" "relation_types"
    let relationTypes ← normalizeRelationTypes rawTypes nodes
    let rules ← normalizeRules (Record.get raw (js "rules")) nodes (relationTypes.getD [])
    let strict ← asOptionalBoolean (Record.get raw (js "strict")) (js "strict")
    let version ← normalizeVersion (Record.get raw (js "version"))
    let description ← asOptionalString (Record.get raw (js "description")) (js "description")
    return {
      name, strict := some (strict.getD false), nodes, rules := some rules, version,
      description, relationTypes }

/-- What stands behind a refusal is good exactly when nothing is refused and it is good. -/
theorem invalidSchema_eq_ok_iff {T U : Type} {c : Prop} [Decidable c] {message : JsString}
    {f : T → Except JsString U} {x : Except JsString U} {b : U} :
    (if c then invalidSchema message >>= f else x) = .ok b ↔ ¬ c ∧ x = .ok b :=
  refuse_eq_ok_iff

/-- The mapping is a description of the schema. -/
structure Describes (regExpError : JsString → Option JsString) (raw : Record JsValue)
    (schema : YSchema) : Prop where
  /-- Its members are those of a schema. -/
  known : rejectUnknownFields raw (js "schema") rootFields = .ok ()
  /-- It says that it is one. -/
  mark : Record.get raw (js "yschema") = some (.str (js "0.1"))
  /-- It gives the name. -/
  name : asName (Record.get raw (js "name")) (js "name") = .ok schema.name
  /-- It declares the nodes. -/
  nodes : ∃ rawNodes, Record.get raw (js "nodes") = some rawNodes ∧
    normalizeNodes regExpError rawNodes = .ok schema.nodes
  /-- It declares the relation types, under one of their two names. -/
  relationTypes : ∃ rawTypes, getField raw "relationTypes" "relation_types" = .ok rawTypes ∧
    normalizeRelationTypes rawTypes schema.nodes = .ok schema.relationTypes
  /-- It declares the rules. -/
  rules : ∃ rules, schema.rules = some rules ∧ normalizeRules (Record.get raw (js "rules"))
    schema.nodes (schema.relationTypes.getD []) = .ok rules
  /-- It says whether what is not declared is an error; if it does not, that is none. -/
  strict : ∃ strict, asOptionalBoolean (Record.get raw (js "strict")) (js "strict") = .ok strict ∧
    schema.strict = some (strict.getD false)
  /-- It gives the version. -/
  version : normalizeVersion (Record.get raw (js "version")) = .ok schema.version
  /-- It gives the description. -/
  description : asOptionalString (Record.get raw (js "description")) (js "description") =
    .ok schema.description

/-- A schema is read exactly from the mappings that describe it. -/
theorem normalizeYSchemaObject_eq_ok_iff {regExpError : JsString → Option JsString}
    {rawInput : JsValue} {schema : YSchema} :
    normalizeYSchemaObject regExpError rawInput = .ok schema ↔
      ∃ raw, rawInput = .obj raw ∧ Describes regExpError raw schema := by
  unfold normalizeYSchemaObject
  constructor
  · intro h
    obtain ⟨raw, hraw, h⟩ := bind_eq_ok_iff.mp h
    have hobj : rawInput = .obj raw := by
      unfold asRecord at hraw
      split at hraw
      · rw [Except.ok.inj hraw]
      · cases hraw
    obtain ⟨⟨⟩, hknown, h⟩ := bind_eq_ok_iff.mp h
    obtain ⟨hmark, h⟩ := invalidSchema_eq_ok_iff.mp h
    obtain ⟨name, hname, h⟩ := bind_eq_ok_iff.mp h
    split at h
    · cases h
    · next rawNodes hrawNodes =>
      obtain ⟨nodes, hnodes, h⟩ := bind_eq_ok_iff.mp h
      obtain ⟨rawTypes, hrawTypes, h⟩ := bind_eq_ok_iff.mp h
      obtain ⟨types, htypes, h⟩ := bind_eq_ok_iff.mp h
      obtain ⟨rules, hrules, h⟩ := bind_eq_ok_iff.mp h
      obtain ⟨strict, hstrict, h⟩ := bind_eq_ok_iff.mp h
      obtain ⟨version, hversion, h⟩ := bind_eq_ok_iff.mp h
      obtain ⟨description, hdescription, h⟩ := bind_eq_ok_iff.mp h
      obtain rfl := Except.ok.inj h
      exact ⟨raw, hobj, hknown, not_not.mp hmark, hname, ⟨rawNodes, hrawNodes, hnodes⟩,
        ⟨rawTypes, hrawTypes, htypes⟩, ⟨rules, rfl, hrules⟩, ⟨strict, hstrict, rfl⟩, hversion,
        hdescription⟩
  · rintro ⟨raw, rfl, h⟩
    obtain ⟨rawNodes, hrawNodes, hnodes⟩ := h.nodes
    obtain ⟨rawTypes, hrawTypes, htypes⟩ := h.relationTypes
    obtain ⟨rules, hrulesEq, hrules⟩ := h.rules
    obtain ⟨strict, hstrict, hstrictEq⟩ := h.strict
    refine bind_eq_ok_iff.mpr ⟨raw, rfl, bind_eq_ok_iff.mpr ⟨(), h.known, ?_⟩⟩
    refine invalidSchema_eq_ok_iff.mpr ⟨not_not.mpr h.mark, ?_⟩
    refine bind_eq_ok_iff.mpr ⟨schema.name, h.name, ?_⟩
    simp only [hrawNodes]
    refine bind_eq_ok_iff.mpr ⟨schema.nodes, hnodes, bind_eq_ok_iff.mpr ⟨rawTypes, hrawTypes, ?_⟩⟩
    refine bind_eq_ok_iff.mpr ⟨schema.relationTypes, htypes, ?_⟩
    refine bind_eq_ok_iff.mpr ⟨rules, hrules, bind_eq_ok_iff.mpr ⟨strict, hstrict, ?_⟩⟩
    refine bind_eq_ok_iff.mpr ⟨schema.version, h.version, ?_⟩
    refine bind_eq_ok_iff.mpr ⟨schema.description, h.description, ?_⟩
    rw [← hrulesEq, ← hstrictEq]
    rfl

end T3x.Yschema
