import T3x.Yops.Recipes
import T3x.Yschema.Authoring

/-!
# Commands that edit a schema

A command puts or removes a node, a slot, a relation type or a rule. It compiles to an
assertion of what stands in the schema and a write of what shall stand there. What stands
there is looked up by plain member access, so a name that no member has may find what
every object inherits under it, and that cannot be cloned.
-/

namespace T3x.Yschema

open Js T3x.Yops

/-! ## Commands -/

/-- `WorkspaceSchemaEditCommand`. Nothing reads the definition of a node, a slot or a relation
type before the operations are applied. -/
inductive WorkspaceSchemaEditCommand where
  | putNode (nodePath : JsString) (definition : JsValue)
  | removeNode (nodePath : JsString)
  | putSlot (nodePath slot : JsString) (definition : JsValue) (required : Option Bool)
  | removeSlot (nodePath slot : JsString)
  | putRelationType (relationType : JsString) (definition : JsValue)
  | removeRelationType (relationType : JsString)
  | putRule (rule : YSchemaRuleSchema)
  | removeRule (ruleId : JsString)

/-- `commandError`. -/
def commandError {T : Type} (message : JsString) : Except AuthoringFailure T :=
  .error (.yops ⟨.invalidCommand, message, none⟩)

/-- `structuredClone` of what a record inherits under a machine-safe name, which is the
function `Object`. -/
def cloneInherited {T : Type} : Except AuthoringFailure T :=
  .error (.thrown (js "function Object() \x7b [native code] \x7d could not be cloned."))

/-- `assertKey`, as the compiler of the commands has it. -/
def assertCommandKey (value : JsString) (label : String) : Except AuthoringFailure JsString :=
  if isKey value then .ok value else commandError (js (label ++ " must match ") ++ keySource)

/-- `parseNodePath`. -/
def parseNodePath (path : JsString) : Except AuthoringFailure (List JsString) :=
  if isPath path then .ok (split (unit '/') path)
  else commandError (js "nodePath must match " ++ pathSource)

/-- `nodeYOpsPath`. -/
def nodeYOpsPath (segments : List JsString) : JsString :=
  js "nodes/" ++ (js "/children/").intercalate segments

/-! ## Looking nodes up -/

/-- `findNode`: a node of the schema, or what a record inherits. -/
def findNode (schema : YSchema) : List JsString → Option (Option NodeSchema)
  | [] => none
  | key :: keys => resolveNodeFrom (readMember schema.nodes key) keys

/-- `Node … does not exist`. -/
def missingNode (path : JsString) : JsString := js "Node " ++ path ++ js " does not exist"

/-- `requireNode`. -/
def requireNode (schema : YSchema) (segments : List JsString) :
    Except AuthoringFailure (Option NodeSchema) :=
  match findNode schema segments with
  | some node => .ok node
  | none => commandError (missingNode ((js "/").intercalate segments))

/-! ## Operations -/

/-- `assertThenSet`: `before` is what a member access gives. -/
def assertThenSet (path : JsString) (before : Option (Option JsValue)) (after : JsValue) :
    Except AuthoringFailure (List JsValue) :=
  match before with
  | none => .ok [assertAbsent path, setValue path after]
  | some (some value) => .ok [assertEquals path value, setValue path after]
  | some none => cloneInherited

/-- `assertThenUnset`. -/
def assertThenUnset (path : JsString) (before : Option JsValue) :
    Except AuthoringFailure (List JsValue) :=
  match before with
  | some value => .ok [assertEquals path value, unsetKey path]
  | none => cloneInherited

/-- What stands under a key, as a value. -/
def memberValue {V : Type} (value : V → JsValue) (record : Record V) (key : JsString) :
    Option (Option JsValue) :=
  (readMember record key).map (Option.map value)

/-- The members of a node. -/
def NodeSchema.members (node : NodeSchema) : Record JsValue :=
  node.head.members ++ optionalMember "children"
    ((mapChildren NodeSchema.toObject node.children).map Children.toValue)

/-- The name of a rule. -/
def YSchemaRuleSchema.id : YSchemaRuleSchema → JsString
  | .reserved rule => rule.id
  | .requiredRelation rule => rule.id

/-- The names of the slots that have to be there after a slot is put: a set, in the order in
which the names got into it. -/
def requiredAfter (names : List JsString) (slot : JsString) : Option Bool → List JsString
  | some true => distinct (names ++ [slot])
  | some false => (distinct names).filter fun name => decide (name ≠ slot)
  | none => distinct names

/-- The node with a slot put. -/
def putSlotValue (node : NodeSchema) (slot : JsString) (definition : JsValue)
    (required : Option Bool) : JsValue :=
  let slots := Record.setOwn (Record.mapValues SlotSchema.toObject (node.head.slots.getD [])) slot
    definition
  let updated := Record.setOwn node.members (js "slots") (.obj slots)
  if required = none ∧ node.head.requiredSlots = none then .obj updated
  else .obj (Record.setOwn updated (js "requiredSlots")
    (textsValue (requiredAfter (node.head.requiredSlots.getD []) slot required)))

/-- The node with a slot removed. -/
def removeSlotValue (node : NodeSchema) (slots : Record SlotSchema) (slot : JsString) : JsValue :=
  let slots := Record.erase (Record.mapValues SlotSchema.toObject slots) slot
  let updated := Record.setOwn node.members (js "slots") (.obj slots)
  match node.head.requiredSlots with
  | none => .obj updated
  | some names => .obj (Record.setOwn updated (js "requiredSlots")
      (textsValue (names.filter fun required => decide (required ≠ slot))))

/-! ## The compiler -/

/-- The case `put_node`. -/
def compilePutNode (base : YSchema) (nodePath : JsString) (definition : JsValue) :
    Except AuthoringFailure (List JsValue) := do
  let segments ← parseNodePath nodePath
  let parentSegments := segments.dropLast
  let key := segments.getLast?.getD []
  if parentSegments = [] then
    assertThenSet (nodeYOpsPath segments) (memberValue NodeSchema.toObject base.nodes key) definition
  else
    match ← requireNode base parentSegments with
    | none => cloneInherited
    | some parent =>
      match parent.children with
      | some .any => commandError (js "Node " ++ (js "/").intercalate parentSegments ++
          js " has open children and cannot own definitions")
      | none =>
        assertThenSet (nodeYOpsPath parentSegments) (some (some parent.toObject))
          (.obj (Record.setOwn parent.members (js "children") (.obj [(key, definition)])))
      | some (.declared nodes) =>
        assertThenSet (nodeYOpsPath segments) (memberValue NodeSchema.toObject nodes key) definition

/-- The case `remove_node`. -/
def compileRemoveNode (base : YSchema) (nodePath : JsString) :
    Except AuthoringFailure (List JsValue) := do
  let segments ← parseNodePath nodePath
  match findNode base segments with
  | none => commandError (missingNode nodePath)
  | some existing => assertThenUnset (nodeYOpsPath segments) (existing.map NodeSchema.toObject)

/-- The case `put_slot`. -/
def compilePutSlot (base : YSchema) (nodePath slot : JsString) (definition : JsValue)
    (required : Option Bool) : Except AuthoringFailure (List JsValue) := do
  let segments ← parseNodePath nodePath
  let node ← requireNode base segments
  let slot ← assertCommandKey slot "slot"
  match node with
  | none => cloneInherited
  | some node =>
    assertThenSet (nodeYOpsPath segments) (some (some node.toObject))
      (putSlotValue node slot definition required)

/-- The case `remove_slot`. What a record inherits has no slots. -/
def compileRemoveSlot (base : YSchema) (nodePath slot : JsString) :
    Except AuthoringFailure (List JsValue) := do
  let segments ← parseNodePath nodePath
  let node ← requireNode base segments
  let slot ← assertCommandKey slot "slot"
  let missing := js "Slot " ++ nodePath ++ unit '/' :: slot ++ js " does not exist"
  match node with
  | none => commandError missing
  | some node =>
    match node.head.slots with
    | none => commandError missing
    | some slots =>
      if Record.has slots slot = false then commandError missing
      else
        assertThenSet (nodeYOpsPath segments) (some (some node.toObject))
          (removeSlotValue node slots slot)

/-- The case `put_relation_type`. -/
def compilePutRelationType (base : YSchema) (relationType : JsString) (definition : JsValue) :
    Except AuthoringFailure (List JsValue) := do
  let relationType ← assertCommandKey relationType "relationType"
  match base.relationTypes with
  | none =>
    assertThenSet (js "relationTypes") none (.obj [(relationType, definition)])
  | some types =>
    assertThenSet (js "relationTypes/" ++ relationType)
      (memberValue RelationTypeSchema.toObject types relationType) definition

/-- The case `remove_relation_type`. -/
def compileRemoveRelationType (base : YSchema) (relationType : JsString) :
    Except AuthoringFailure (List JsValue) := do
  let relationType ← assertCommandKey relationType "relationType"
  match base.relationTypes.bind (readMember · relationType) with
  | none => commandError (js "Relation type " ++ relationType ++ js " does not exist")
  | some existing =>
    assertThenUnset (js "relationTypes/" ++ relationType)
      (existing.map RelationTypeSchema.toObject)

/-- Rules as a value. -/
def rulesValue (rules : List YSchemaRuleSchema) : JsValue :=
  .arr (rules.map YSchemaRuleSchema.toObject)

/-- The rules after a rule is put. -/
def putRuleAfter (rules : List YSchemaRuleSchema) (rule : YSchemaRuleSchema) :
    List YSchemaRuleSchema :=
  if rules.any fun other => decide (other.id = rule.id) then
    rules.map fun other => if other.id = rule.id then rule else other
  else rules ++ [rule]

/-- The case `put_rule`. -/
def compilePutRule (base : YSchema) (rule : YSchemaRuleSchema) :
    Except AuthoringFailure (List JsValue) := do
  let ruleId ← assertCommandKey rule.id "rule.id"
  let rules := base.rules.getD []
  if 1 < (rules.filter fun other => decide (other.id = ruleId)).length then
    commandError (js "Rule id " ++ ruleId ++ js " is ambiguous")
  else
    assertThenSet (js "rules") (some (some (rulesValue rules)))
      (rulesValue (putRuleAfter rules rule))

/-- The case `remove_rule`. -/
def compileRemoveRule (base : YSchema) (ruleId : JsString) :
    Except AuthoringFailure (List JsValue) := do
  let ruleId ← assertCommandKey ruleId "ruleId"
  let rules := base.rules.getD []
  if rules.any fun rule => decide (rule.id = ruleId) then
    assertThenSet (js "rules") (some (some (rulesValue rules)))
      (rulesValue (rules.filter fun rule => decide (rule.id ≠ ruleId)))
  else commandError (js "Rule " ++ ruleId ++ js " does not exist")

/-- The operations of a command on a schema. -/
def compileOn (base : YSchema) : WorkspaceSchemaEditCommand → Except AuthoringFailure (List JsValue)
  | .putNode nodePath definition => compilePutNode base nodePath definition
  | .removeNode nodePath => compileRemoveNode base nodePath
  | .putSlot nodePath slot definition required => compilePutSlot base nodePath slot definition required
  | .removeSlot nodePath slot => compileRemoveSlot base nodePath slot
  | .putRelationType relationType definition => compilePutRelationType base relationType definition
  | .removeRelationType relationType => compileRemoveRelationType base relationType
  | .putRule rule => compilePutRule base rule
  | .removeRule ruleId => compileRemoveRule base ruleId

/-- `compileWorkspaceSchemaEditCommand`. -/
def compileWorkspaceSchemaEditCommand (regExpError : JsString → Option JsString)
    (baseInput : JsValue) (command : WorkspaceSchemaEditCommand) :
    Except AuthoringFailure (List JsValue) := do
  let base ← (normalizeYSchemaObject regExpError (deepClone baseInput)).mapError .thrown
  compileOn base command

/-! ## The edits that the commands ask for -/

/-- The record that holds the last key of a path, below the declared nodes that the other keys
name, changed. -/
def changeAt (change : Record NodeSchema → JsString → Record NodeSchema) :
    List JsString → Record NodeSchema → Record NodeSchema
  | [], nodes => nodes
  | [key], nodes => change nodes key
  | key :: keys, nodes =>
    match Record.get nodes key with
    | none => nodes
    | some (.mk head children) => Record.setOwn nodes key
        (.mk head (some (.declared (changeAt change keys (Children.nodes children)))))

/-- The nodes with a node put at a path. -/
def putNodeAt (node : NodeSchema) : List JsString → Record NodeSchema → Record NodeSchema :=
  changeAt fun nodes key => Record.setOwn nodes key node

/-- The nodes with the node at a path removed. -/
def removeNodeAt : List JsString → Record NodeSchema → Record NodeSchema := changeAt Record.erase

/-- The node but for one slot, which is another one and may have to be there or not. -/
structure PutsSlot (node : NodeSchema) (slot : JsString) (slotSchema : SlotSchema)
    (required : Option Bool) (updated : NodeSchema) : Prop where
  /-- Of the slots this one is put. -/
  slots : updated.head.slots = some (Record.setOwn (node.head.slots.getD []) slot slotSchema)
  /-- The slot has to be there if that is said, or else if it was; others as before. -/
  requiredSlots : ∀ name, name ∈ updated.head.requiredSlots.getD [] ↔
    if name = slot ∧ required.isSome then required = some true
    else name ∈ node.head.requiredSlots.getD []
  /-- The other members are as they were. -/
  head : { updated.head with slots := none, requiredSlots := none } =
    { node.head with slots := none, requiredSlots := none }
  /-- The children are as they were. -/
  children : updated.children = node.children

/-- The node without a slot. -/
def removeSlot (node : NodeSchema) (slot : JsString) : NodeSchema :=
  .mk { node.head with
    slots := node.head.slots.map (Record.erase · slot)
    requiredSlots := node.head.requiredSlots.map fun names =>
      names.filter fun name => decide (name ≠ slot) } node.children

/-- The schema is the base but for the element that the command names, which is what the
command says: what its definition is read as, or nothing. -/
def IsEdit (regExpError : JsString → Option JsString) (base : YSchema) :
    WorkspaceSchemaEditCommand → YSchema → Prop
  | .putNode nodePath definition, schema => ∃ node context,
      normalizeNode regExpError definition context = .ok node ∧
        schema = { base with nodes := putNodeAt node (split (unit '/') nodePath) base.nodes }
  | .removeNode nodePath, schema =>
      schema = { base with nodes := removeNodeAt (split (unit '/') nodePath) base.nodes }
  | .putSlot nodePath slot definition required, schema => ∃ node slotSchema context updated,
      findNode base (split (unit '/') nodePath) = some (some node) ∧
        normalizeSlot regExpError definition context = .ok slotSchema ∧
        PutsSlot node slot slotSchema required updated ∧
        schema = { base with nodes := putNodeAt updated (split (unit '/') nodePath) base.nodes }
  | .removeSlot nodePath slot, schema => ∃ node,
      findNode base (split (unit '/') nodePath) = some (some node) ∧
        schema = { base with
          nodes := putNodeAt (removeSlot node slot) (split (unit '/') nodePath) base.nodes }
  | .putRelationType relationType definition, schema => ∃ typeSchema context,
      normalizeRelationType base.nodes definition context = .ok typeSchema ∧
        schema = { base with
          relationTypes :=
            some (Record.setOwn (base.relationTypes.getD []) relationType typeSchema) }
  | .removeRelationType relationType, schema =>
      schema = { base with relationTypes := base.relationTypes.map (Record.erase · relationType) }
  | .putRule rule, schema =>
      schema = { base with rules := base.rules.map (putRuleAfter · rule) }
  | .removeRule ruleId, schema =>
      schema = { base with
        rules := base.rules.map fun rules => rules.filter fun rule => decide (rule.id ≠ ruleId) }

/-- The command makes the compiler clone what a record inherits. -/
def ReadsInherited (base : YSchema) : WorkspaceSchemaEditCommand → Prop
  | .putNode nodePath _ => isPath nodePath = true ∧
      (findNode base (split (unit '/') nodePath) = some none ∨
        findNode base (split (unit '/') nodePath).dropLast = some none)
  | .removeNode nodePath => isPath nodePath = true ∧
      findNode base (split (unit '/') nodePath) = some none
  | .putSlot nodePath slot _ _ => isPath nodePath = true ∧ isKey slot = true ∧
      findNode base (split (unit '/') nodePath) = some none
  | .putRelationType relationType _ | .removeRelationType relationType =>
      isKey relationType = true ∧ base.relationTypes.bind (readMember · relationType) = some none
  | .removeSlot _ _ | .putRule _ | .removeRule _ => False

end T3x.Yschema
