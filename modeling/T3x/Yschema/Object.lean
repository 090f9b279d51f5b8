import T3x.Yschema.Schema

/-!
# Schemas as values

The object that a schema is: the members in the order in which reading a schema
sets them, and none for what is not set.
-/

namespace T3x.Yschema

open Js

/-- The member under a name, if it is set. -/
def optionalMember (name : String) (value : Option JsValue) : Record JsValue :=
  (value.map fun value => (js name, value)).toList

/-- A list of texts as the value it is. -/
def textsValue (texts : List JsString) : JsValue := .arr (texts.map .str)

/-- A hint as the object it is. -/
def YOpsHint.toObject (hint : YOpsHint) : JsValue :=
  .obj (optionalMember "preferredOp" (hint.preferredOp.map .str) ++
    optionalMember "path" (hint.path.map .str) ++
    optionalMember "slot" (hint.slot.map .str))

/-- A slot as the object it is. -/
def SlotSchema.toObject (slot : SlotSchema) : JsValue :=
  .obj (optionalMember "type" (slot.type.map fun type => .str type.text) ++
    optionalMember "enum" (slot.enum.map .arr) ++
    optionalMember "const" slot.const ++
    optionalMember "default" slot.default ++
    optionalMember "examples" (slot.examples.map .arr) ++
    optionalMember "description" (slot.description.map .str) ++
    optionalMember "contentGuidance" (slot.contentGuidance.map .str) ++
    optionalMember "gapQuestion" (slot.gapQuestion.map .str) ++
    optionalMember "contentKind" (slot.contentKind.map fun kind => .str kind.text) ++
    optionalMember "minimum" (slot.minimum.map .num) ++
    optionalMember "maximum" (slot.maximum.map .num) ++
    optionalMember "minLength" (slot.minLength.map .num) ++
    optionalMember "maxLength" (slot.maxLength.map .num) ++
    optionalMember "pattern" (slot.pattern.map .str) ++
    optionalMember "format" (slot.format.map .str) ++
    optionalMember "maxWords" (slot.maxWords.map .num) ++
    optionalMember "provenanceRequired" (slot.provenanceRequired.map .bool) ++
    optionalMember "yopsHint" (slot.yopsHint.map YOpsHint.toObject))

/-- The members of a node but for its children. -/
def NodeHead.members (head : NodeHead) : Record JsValue :=
  optionalMember "required" (head.required.map .bool) ++
    optionalMember "repeated" (head.repeated.map .bool) ++
    optionalMember "description" (head.description.map .str) ++
    optionalMember "contentGuidance" (head.contentGuidance.map .str) ++
    optionalMember "contentKind" (head.contentKind.map fun kind => .str kind.text) ++
    optionalMember "slots" (head.slots.map fun slots =>
      .obj (Record.mapValues SlotSchema.toObject slots)) ++
    optionalMember "requiredSlots" (head.requiredSlots.map textsValue)

/-- The children of a node as a value, given those of the declared ones. -/
def Children.toValue : Children JsValue → JsValue
  | .any => .str (js "any")
  | .declared nodes => .obj nodes

/-- A node as the object it is. -/
def NodeSchema.toObject : NodeSchema → JsValue :=
  NodeSchema.fold fun head children =>
    .obj (head.members ++ optionalMember "children" (children.map Children.toValue))

/-- A relation type as the object it is. -/
def RelationTypeSchema.toObject (type : RelationTypeSchema) : JsValue :=
  .obj ([(js "from", .str type.from), (js "to", .str type.to)] ++
    optionalMember "description" (type.description.map .str) ++
    optionalMember "contentGuidance" (type.contentGuidance.map .str) ++
    optionalMember "acyclic" (type.acyclic.map .bool))

/-- A rule as the object it is. -/
def YSchemaRuleSchema.toObject : YSchemaRuleSchema → JsValue
  | .reserved rule =>
    .obj ([(js "id", .str rule.id)] ++ optionalMember "description" (rule.description.map .str))
  | .requiredRelation rule =>
    .obj ([(js "id", .str rule.id), (js "kind", .str (js "required_relation")),
        (js "relationType", .str rule.relationType), (js "from", .str rule.from),
        (js "to", .str rule.to)] ++
      optionalMember "description" (rule.description.map .str))

/-- The members of a schema. -/
def YSchema.members (schema : YSchema) : Record JsValue :=
  [(js "yschema", .str (js "0.1")), (js "name", .str schema.name)] ++
    optionalMember "strict" (schema.strict.map .bool) ++
    [(js "nodes", .obj (Record.mapValues NodeSchema.toObject schema.nodes))] ++
    optionalMember "rules" (schema.rules.map fun rules =>
      .arr (rules.map YSchemaRuleSchema.toObject)) ++
    optionalMember "version" schema.version ++
    optionalMember "description" (schema.description.map .str) ++
    optionalMember "relationTypes" (schema.relationTypes.map fun types =>
      .obj (Record.mapValues RelationTypeSchema.toObject types))

/-- A schema as the object it is. -/
def YSchema.toObject (schema : YSchema) : JsValue := .obj schema.members

/-- Reading a member that may be set. -/
@[simp] theorem get_optionalMember (name : String) (value : Option JsValue) (key : JsString) :
    Record.get (optionalMember name value) key = if js name = key then value else none := by
  cases value with
  | none => simp [optionalMember, Record.get]
  | some value => simp [optionalMember, Record.get]

end T3x.Yschema
