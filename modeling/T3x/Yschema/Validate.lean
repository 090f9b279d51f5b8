import T3x.Js.Order
import T3x.Yschema.Schema

/-!
# Validating a document

`validateTree` collects the findings on a schema, the document under it, its
relations and the rules: errors, gaps to fill before a commit, and fixes to
propose. A step that throws is a finding too; the first of these is what the
validation as a whole throws.
-/

namespace T3x.Yschema

open Js

/-! ## Findings -/

/-- `ValidationError`. -/
structure ValidationError where
  /-- The error code. -/
  code : String
  /-- Where the error is. -/
  path : JsString
  /-- The message. -/
  message : JsString
  /-- The details. -/
  details : Option (Record JsValue) := none
  deriving DecidableEq

/-- `ValidationGap`. -/
structure ValidationGap where
  /-- The gap code. -/
  code : String
  /-- Where the gap is. -/
  path : JsString
  /-- The message. -/
  message : JsString
  /-- The question to ask. -/
  gapQuestion : Option JsString := none
  /-- The fixes that fill the gap. -/
  fixIds : List JsString := []
  deriving DecidableEq

/-- `FixProposal`. -/
structure FixProposal where
  /-- The name of the fix. -/
  id : JsString
  /-- The code of what it fixes. -/
  code : String
  /-- Where it applies. -/
  path : JsString
  /-- The title. -/
  title : JsString
  /-- How it may be applied. -/
  applyMode : String
  /-- The operations. -/
  ops : List JsValue
  deriving DecidableEq

/-- What the validation finds, in order. -/
inductive Finding where
  | error (e : ValidationError)
  | gap (g : ValidationGap)
  | fix (f : FixProposal)
  | thrown (message : JsString)
  deriving DecidableEq

/-- A finding where the condition does not hold. -/
def demand (ok : Bool) (f : Finding) : List Finding := if ok then [] else [f]

/-- `YSchemaRelation`. -/
structure YSchemaRelation where
  /-- Where the relation begins. -/
  «from» : JsString
  /-- Where it ends. -/
  «to» : JsString
  /-- Its type. -/
  type : JsString
  deriving DecidableEq

/-- The relation as a value. -/
def YSchemaRelation.value (relation : YSchemaRelation) : JsValue :=
  .obj [(js "from", .str relation.from), (js "to", .str relation.to),
    (js "type", .str relation.type)]

/-- Where a value comes from. -/
inductive Origin where
  | userEvidence
  | schemaDefault
  | aiParaphraseApproved
  | systemGenerated
  | unschematized
  deriving DecidableEq

/-- `ProvenanceRef`. -/
structure ProvenanceRef where
  /-- The origin. -/
  origin : Origin
  /-- The source. -/
  sourceId : Option JsString := none
  /-- The turn. -/
  turnHash : Option JsString := none
  /-- The quoted text. -/
  quote : Option JsString := none
  /-- A person approved it. -/
  approved : Option Bool := none

/-- `ValidationInput`. -/
structure ValidationInput where
  /-- The document. -/
  tree : JsValue
  /-- The relations. -/
  relations : List YSchemaRelation := []
  /-- The schema. -/
  schema : YSchema
  /-- The evidence for every path. -/
  provenanceByPath : Record (List ProvenanceRef) := []

/-- `ValidationResult`. -/
structure ValidationResult where
  /-- There is no error. -/
  valid : Bool
  /-- There is neither an error nor a gap. -/
  ready : Bool
  /-- The errors. -/
  errors : List ValidationError
  /-- The gaps, the most urgent first. -/
  gaps : List ValidationGap
  /-- The fixes. -/
  fixes : List FixProposal

/-! ## Values -/

/-- `isYValueEqual`: numbers as `Object.is` compares them, mappings by name. -/
def isYValueEqual (left right : JsValue) : Bool := JsValue.sameDoc id left right

/-- `actualType`. -/
def actualType : JsValue → SlotType
  | .null => .null
  | .bool _ => .boolean
  | .num n => if isInteger n then .integer else .number
  | .str _ => .string
  | .arr _ => .array
  | .obj _ => .object

/-- `articleFor`. -/
def articleFor (type : SlotType) : JsString :=
  if type.text.head?.any (· ∈ js "aeiou") then js "an" else js "a"

/-- `matchesType`. -/
def matchesType (value : JsValue) : SlotType → Bool
  | .array => match value with
    | .arr _ => true
    | _ => false
  | .boolean => match value with
    | .bool _ => true
    | _ => false
  | .integer => match value with
    | .num n => isInteger n
    | _ => false
  | .null => match value with
    | .null => true
    | _ => false
  | .number => match value with
    | .num _ => true
    | _ => false
  | .object => match value with
    | .obj _ => true
    | _ => false
  | .string => match value with
    | .str _ => true
    | _ => false

/-- The text that an item of an array is joined by; none if the conversion throws, as it
does of a mapping whose own `toString` hides the inherited one. -/
def elementText : JsValue → Option JsString :=
  JsValue.fold
    { null := some []
      bool := fun b => some (if b then js "true" else js "false")
      num := fun n => some n.toText
      str := some
      arr := fun texts => (texts.mapM id).map (js ",").intercalate
      obj := fun members =>
        if Record.has members (js "toString") then none else some (js "[object Object]") }

/-- `value.trim() === '' ? 0 : value.trim().split(/\s+/).length`. -/
def wordCount (s : JsString) : ℕ := ((trim s).splitOnP isSpace |>.filter (· ≠ [])).length

/-! ## Paths -/

/-- `joinPath`. -/
def joinPath (path key : JsString) : JsString := path ++ unit '/' :: key

/-- `pathSlug`. -/
def pathSlug (path : JsString) : JsString := path.map fun u => if u = unit '/' then unit '-' else u

/-- One step of `resolvePath`. -/
def ownValue (value : JsValue) (key : JsString) : Option JsValue :=
  match value with
  | .obj members => Record.get members key
  | _ => none

/-- `resolvePath`. -/
def resolvePath (root : JsValue) (path : JsString) : Option JsValue :=
  if isPath path then (split (unit '/') path).foldlM ownValue root else none

/-! ## Fixes -/

/-- The id of the fix that sets a default. -/
def defaultFixId (slotPath : JsString) : JsString :=
  js "set-" ++ pathSlug slotPath ++ js "-default"

/-- `addDefaultFix`: the fix. -/
def defaultFix (slotKey slotPath : JsString) (value : JsValue) (code : String) : FixProposal where
  id := defaultFixId slotPath
  code := code
  path := slotPath
  title := js "Use default " ++ slotKey
  applyMode := "automatic_after_review"
  ops := [.obj [(js "set", .obj [(js "path", .str slotPath), (js "value", value)])]]

/-- The id of the fix that creates a node. -/
def defineFixId (path : JsString) : JsString := js "define-" ++ pathSlug path

/-- `addDefineFix`: the fix. -/
def defineFix (path : JsString) : FixProposal where
  id := defineFixId path
  code := "REQUIRED_NODE_MISSING"
  path := path
  title := js "Create required node"
  applyMode := "requires_user_input"
  ops := [.obj [(js "define", .obj [(js "path", .str path)])]]

/-- `addFix`: of the fixes with one id the first is kept. -/
def addFixes : List FixProposal → List FixProposal
  | [] => []
  | f :: fixes => f :: (addFixes fixes).filter fun g => decide (g.id ≠ f.id)

/-- `hasAcceptedEvidence`. -/
def hasAcceptedEvidence (refs : Option (List ProvenanceRef)) : Bool :=
  (refs.getD []).any fun ref =>
    match ref.origin with
    | .userEvidence => ref.sourceId.any (· ≠ []) || ref.turnHash.any (· ≠ []) ||
        ref.quote.any (· ≠ []) || ref.approved == some true
    | .aiParaphraseApproved => ref.approved == some true
    | .schemaDefault => ref.approved == some true
    | _ => false

/-! ## The schema itself -/

/-- An error in the schema. -/
def schemaError (path message : JsString) (details : Option (Record JsValue)) : Finding :=
  .error ⟨"INVALID_SCHEMA", path, message, details⟩

/-- `resolveNodeSchema`. -/
def resolveNodeSchema (schema : YSchema) (path : JsString) : Option NodeSchema :=
  if isPath path then
    (split (unit '/') path).foldlM (fun node key => node.child key) schema.root
  else none

/-- `validateNodeSchemaShape` of a node, given that of its children. -/
def validateNodeShape (head : NodeHead) (children : Option (Children (JsString → List Finding)))
    (nodePath : JsString) : List Finding :=
  let slots := head.slots.getD []
  (Record.keys slots).flatMap (fun slotKey => demand (isKey slotKey)
    (schemaError (joinPath nodePath slotKey)
      (js "Schema slot key \"" ++ slotKey ++ js "\" is invalid.") none)) ++
  (head.requiredSlots.getD []).flatMap (fun requiredSlot =>
    if isKey requiredSlot then demand (Record.has slots requiredSlot)
      (schemaError (joinPath nodePath requiredSlot) (js "requiredSlots entry \"" ++ requiredSlot ++
        js "\" is not declared in slots.") none)
    else [schemaError (joinPath nodePath requiredSlot) (js "requiredSlots entry \"" ++
      requiredSlot ++ js "\" is invalid.") none]) ++
  demand (!(head.repeated == some true && children.isSome))
    (schemaError nodePath (nodePath ++ js " cannot combine repeated with children.") none) ++
  (Record.entries (Children.nodes children)).flatMap fun (childKey, child) =>
    demand (isKey childKey) (schemaError (joinPath nodePath childKey)
      (js "Schema child key \"" ++ childKey ++ js "\" is invalid.") none) ++
    child (joinPath nodePath childKey)

/-- `validateNodeSchemaShape`. -/
def validateNodeSchemaShape : NodeSchema → JsString → List Finding :=
  NodeSchema.fold validateNodeShape

/-- `validateRelationEndpointSchema`. -/
def validateRelationEndpointSchema (schema : YSchema) (relationType : JsString) (side : String)
    (pattern : JsString) : List Finding :=
  let repeated := endsInStar pattern
  let nodePath := patternPath pattern
  let report (text : String) : List Finding :=
    [schemaError (js "$relations") (js "relationTypes." ++ relationType ++ js ("." ++ side) ++
        js " endpoint \"" ++ pattern ++ js text)
      (some [(js "relationType", .str relationType), (js "side", .str (js side)),
        (js "pattern", .str pattern)])]
  if unit '*' ∈ pattern ∧ repeated = false then report "\" must be a path or path/*."
  else if isPath nodePath = false then report "\" is invalid."
  else
    match resolveNodeSchema schema nodePath with
    | none => report "\" does not resolve to a node."
    | some node =>
      if repeated ∧ node.head.repeated ≠ some true then report "\" requires a repeated node."
      else []

/-- `validateSchemaShape`. -/
def validateSchemaShape (schema : YSchema) : List Finding :=
  (Record.entries schema.nodes).flatMap (fun (nodeKey, node) =>
    demand (isKey nodeKey) (schemaError nodeKey
      (js "Schema node key \"" ++ nodeKey ++ js "\" is invalid.") none) ++
    validateNodeSchemaShape node nodeKey) ++
  (Record.entries (schema.relationTypes.getD [])).flatMap fun (relationType, typeSchema) =>
    demand (isKey relationType) (schemaError (js "$relations")
      (js "Relation type \"" ++ relationType ++ js "\" is invalid.") none) ++
    validateRelationEndpointSchema schema relationType "from" typeSchema.from ++
    validateRelationEndpointSchema schema relationType "to" typeSchema.to

/-! ## Slots -/

section

-- `new RegExp(pattern).test(value)`
variable (regExpTest : JsString → JsString → Bool)

/-- A value against a bound: the error under the code, with the message and the bound and
the measured value as details. -/
def boundError (code : String) (slotKey slotPath : JsString) (text : String) (bound : JsNumber)
    (unitText field : String) (actual : JsValue) : Finding :=
  .error ⟨code, slotPath, slotKey ++ js text ++ bound.toText ++ js unitText,
    some [(js field, .num bound), (js "actual", actual)]⟩

/-- The length of a value against the bounds of its slot. -/
def lengthFindings (slotKey slotPath : JsString) (slot : SlotSchema) (verb unitText : String)
    (length : ℕ) : List Finding :=
  slot.minLength.toList.flatMap (fun least => demand (decide (least.toRat ≤ (length : ℚ)))
    (boundError "INVALID_LENGTH" slotKey slotPath (" must " ++ verb ++ " at least ") least unitText
      "minLength" (.num (countNumber length)))) ++
  slot.maxLength.toList.flatMap fun greatest => demand (decide ((length : ℚ) ≤ greatest.toRat))
    (boundError "INVALID_LENGTH" slotKey slotPath (" must " ++ verb ++ " at most ") greatest unitText
      "maxLength" (.num (countNumber length)))

/-- The value of a slot against the enumerated values: the error, and the default as a fix. -/
def enumFindings (slotKey slotPath : JsString) (slot : SlotSchema) (value : JsValue) :
    List Finding :=
  match slot.enum with
  | none => []
  | some allowed =>
    if allowed.any fun item => isYValueEqual item value then []
    else
      (match allowed.mapM elementText with
        | none => Finding.thrown (js "Cannot convert object to primitive value")
        | some texts => .error ⟨"INVALID_ENUM", slotPath,
            slotKey ++ js " must be one of " ++ (js ", ").intercalate texts,
            some [(js "allowed", .arr allowed), (js "actual", value)]⟩) ::
      slot.default.toList.map fun default =>
        .fix (defaultFix slotKey slotPath default "INVALID_ENUM")

/-- What the validation finds in a number, a text or an array. -/
def measureFindings (slotKey slotPath : JsString) (slot : SlotSchema) (value : JsValue) :
    List Finding :=
  match value with
  | .num n =>
    slot.minimum.toList.flatMap (fun least => demand (!n.lt least)
      (boundError "INVALID_RANGE" slotKey slotPath " must be at least " least "." "minimum" value)) ++
    slot.maximum.toList.flatMap fun greatest => demand (!greatest.lt n)
      (boundError "INVALID_RANGE" slotKey slotPath " must be at most " greatest "." "maximum" value)
  | .str s =>
    lengthFindings slotKey slotPath slot "be" " characters." s.length ++
    slot.maxWords.toList.flatMap (fun greatest =>
      demand (decide ((wordCount s : ℚ) ≤ greatest.toRat))
        (boundError "INVALID_LENGTH" slotKey slotPath " must be at most " greatest " words."
          "maxWords" (.num (countNumber (wordCount s))))) ++
    slot.pattern.toList.flatMap fun pattern => demand (regExpTest pattern s)
      (.error ⟨"INVALID_PATTERN", slotPath, slotKey ++ js " must match " ++ pattern ++ js ".",
        some [(js "pattern", .str pattern), (js "actual", value)]⟩)
  | .arr items => lengthFindings slotKey slotPath slot "contain" " items." items.length
  | _ => []

/-- `validateSlotValue`; the value is valid exactly when nothing is found. -/
def validateSlotValue (slotKey slotPath : JsString) (slot : SlotSchema) (value : JsValue) :
    List Finding :=
  slot.type.toList.flatMap (fun type => demand (matchesType value type)
    (.error ⟨"INVALID_TYPE", slotPath,
      slotKey ++ js " must be " ++ articleFor type ++ unit ' ' :: type.text,
      some [(js "expected", .str type.text), (js "actual", .str (actualType value).text)]⟩)) ++
  enumFindings slotKey slotPath slot value ++
  slot.const.toList.flatMap (fun const => demand (isYValueEqual const value)
    (.error ⟨"INVALID_CONST", slotPath, slotKey ++ js " must equal the schema constant.",
      some [(js "expected", const), (js "actual", value)]⟩)) ++
  measureFindings regExpTest slotKey slotPath slot value

variable (input : ValidationInput)

/-- `validateSlots` of one slot. -/
def validateSlot (nodePath : JsString) (required : Bool) (slotKey : JsString) (slot : SlotSchema)
    (slotValue : Option JsValue) : List Finding :=
  let slotPath := joinPath nodePath slotKey
  match slotValue with
  | none =>
    match slot.default with
    | some default =>
      .fix (defaultFix slotKey slotPath default
        (if required then "DEFAULT_REQUIRES_APPROVAL" else "OPTIONAL_DEFAULT")) ::
      demand (!required) (.gap ⟨"DEFAULT_REQUIRES_APPROVAL", slotPath,
        slotPath ++ js " can use a schema default after review.", slot.gapQuestion,
        [defaultFixId slotPath]⟩)
    | none =>
      demand (!required) (.gap ⟨"REQUIRED_SLOT_MISSING", slotPath,
        slotPath ++ js " is required before commit.", slot.gapQuestion, []⟩)
  | some value =>
    let found := validateSlotValue regExpTest slotKey slotPath slot value
    found ++ demand (!found.isEmpty || slot.provenanceRequired != some true ||
        hasAcceptedEvidence (Record.get input.provenanceByPath slotPath))
      (.gap ⟨"REQUIRED_EVIDENCE_MISSING", slotPath,
        slotPath ++ js " needs accepted source evidence.", slot.gapQuestion, []⟩)

/-- `validateSlots`. -/
def validateSlots (nodePath : JsString) (head : NodeHead) (value : Record JsValue) :
    List Finding :=
  (Record.entries (head.slots.getD [])).flatMap fun (slotKey, slot) =>
    validateSlot regExpTest input nodePath (decide (slotKey ∈ head.requiredSlots.getD [])) slotKey
      slot (Record.get value slotKey)

/-! ## Nodes -/

/-- What validating a node finds at a path, in the value there, if there is one. -/
abbrev Visit := JsString → Option JsValue → List Finding

/-- `validateUnexpectedKeys`. -/
def validateUnexpectedKeys {T : Type} (nodePath : JsString) (head : NodeHead)
    (children : Option (Children T)) (value : Record JsValue) : List Finding :=
  if input.schema.strict ≠ some true then []
  else
    match children with
    | some .any => []
    | children => (Record.keys value).flatMap fun key =>
        demand (Record.has (head.slots.getD []) key || Record.has (Children.nodes children) key)
          (.error ⟨"UNEXPECTED_SLOT", joinPath nodePath key,
            joinPath nodePath key ++ js " is not declared in schema.", none⟩)

/-- `validateNodeBody`, given what validating the children finds. -/
def validateNodeBody (head : NodeHead) (children : Option (Children Visit)) (nodePath : JsString)
    (value : Record JsValue) : List Finding :=
  validateSlots regExpTest input nodePath head value ++
  (Record.entries (Children.nodes children)).flatMap (fun (childKey, visit) =>
    visit (joinPath nodePath childKey) (Record.get value childKey)) ++
  validateUnexpectedKeys input nodePath head children value

/-- A value that is no mapping but should be. -/
def mappingError (path message : JsString) (value : JsValue) : Finding :=
  .error ⟨"INVALID_TYPE", path, message,
    some [(js "expected", .str (js "object")), (js "actual", .str (actualType value).text)]⟩

/-- The items of a repeated node. -/
def validateItems (head : NodeHead) (children : Option (Children Visit)) (nodePath : JsString)
    (items : Record JsValue) : List Finding :=
  (Record.entries items).flatMap fun (itemKey, itemValue) =>
    let itemPath := joinPath nodePath itemKey
    demand (isKey itemKey) (.error ⟨"INVALID_REPEATED_ITEM_KEY", itemPath,
      itemPath ++ js " must use a machine-safe repeated item key.",
      some [(js "keyPattern", .str keySource)]⟩) ++
    match itemValue with
    | .obj item => validateNodeBody regExpTest input head children itemPath item
    | _ => [mappingError itemPath (itemPath ++ js " must be an object.") itemValue]

/-- `validateNode`, given what validating the children finds. -/
def validateNodeWith (head : NodeHead) (children : Option (Children Visit)) : Visit :=
  fun nodePath nodeValue =>
    match nodeValue with
    | none =>
      if head.required = some true then
        [.fix (defineFix nodePath), .gap ⟨"REQUIRED_NODE_MISSING", nodePath,
          nodePath ++ js " is required before commit.", none, [defineFixId nodePath]⟩]
      else []
    | some value =>
      if head.repeated = some true then
        match value with
        | .obj items => validateItems regExpTest input head children nodePath items
        | _ => [mappingError nodePath (nodePath ++ js " must be an object of repeated items.") value]
      else
        match value with
        | .obj members => validateNodeBody regExpTest input head children nodePath members
        | _ => demand (!(head.slots.isSome || children.isSome))
            (mappingError nodePath (nodePath ++ js " must be an object.") value)

/-- `validateNode`. -/
def validateNode : NodeSchema → Visit := NodeSchema.fold (validateNodeWith regExpTest input)

/-- What the validation finds in the document. -/
def documentFindings : List Finding :=
  match input.tree with
  | .obj members =>
    (if input.schema.strict ≠ some true then []
      else (Record.keys members).flatMap fun key => demand (Record.has input.schema.nodes key)
        (.error ⟨"UNEXPECTED_NODE", key, key ++ js " is not declared in schema.", none⟩)) ++
    (Record.entries input.schema.nodes).flatMap fun (nodeKey, node) =>
      validateNode regExpTest input node nodeKey (Record.get members nodeKey)
  | value =>
    [mappingError (js "$root") (js "Tree root must be an object.") value]

end

end T3x.Yschema
