import T3x.Transition.Replay
import T3x.Yops.Profile

/-!
# The adapter of YOps

States of mapping documents are changed by lists of operations: the driver
applies them to a copy of the value, and the Effect that is made of a list
claims what its replay gives. A replacement asserts what the Base has under each
root key that differs and writes or removes what the target has there. The
hash, the canonical text of the specification, the messages of the schema
library and the data that it returns are parameters.
-/

namespace T3x.Transition

open Js Yops

/-! ## States -/

/-- `YOPS_STATE_MEDIA_TYPE`. -/
def yopsStateMediaType : JsString := js "application/vnd.t3x.yops-document+json"

/-- `YOPS_STATE_CODEC_VERSION`. -/
def yopsStateCodecVersion : JsString := js "1"

/-- The value that `JSON.parse` reads out of the canonical text of a value. -/
def canonicalClone : JsValue → JsValue :=
  JsValue.fold
    { null := .null
      bool := .bool
      num := fun n => .num n.dropZeroSign
      str := .str
      arr := .arr
      obj := fun members => .obj (Record.fromEntries (Record.sorted compareCodeUnits members)) }

/-- `normalizeProtocolValue(input)`, which is also `decode`. -/
def normalizeProtocolValue (input : JsValue) : Except ProtocolError JsValue :=
  (canonicalizeProtocolValue input).map fun _ => canonicalClone input

/-- `yopsStateCodec` as the reference in a State. -/
def yopsStateCodec : JsValue :=
  .obj [(js "mediaType", .str yopsStateMediaType), (js "version", .str yopsStateCodecVersion)]

/-- The State with a value. -/
def yopsState (value : JsValue) : JsValue :=
  .obj [(js "schema", .str stateSchema), (js "codec", yopsStateCodec), (js "value", value)]

/-- `createYOpsState(value)`. -/
def createYOpsState (value : JsValue) : Except ProtocolError JsValue := do
  parseState (yopsState (← normalizeProtocolValue value))

/-- `assertYOpsState(state)`. -/
def assertYOpsState (state : JsValue) : Except ProtocolError Unit :=
  if part (part state "codec") "mediaType" ≠ .str yopsStateMediaType ∨
      part (part state "codec") "version" ≠ .str yopsStateCodecVersion then
    .error ⟨.unsupportedMediaType, js "YOps requires State codec " ++ yopsStateMediaType ++
      js "@" ++ yopsStateCodecVersion, none⟩
  else .ok ()

/-! ## The driver -/

/-- `UnsupportedSemanticsError`. -/
def unsupportedSemantics (message : JsString) : ProtocolError := ⟨.unsupportedSemantics, message, none⟩

/-- The errors of the adapter's own, each with the error of the engine. -/
inductive YopsDriverError where
  /-- `YOpsReplayPreconditionFailedError`. -/
  | replayPreconditionFailed (error : YopsError)
  /-- `YOpsPreconditionFailedError`. -/
  | preconditionFailed (error : YopsError)
  /-- `YOpsExecutionError`. -/
  | execution (error : YopsError)

/-- What a step of the adapter gives. -/
abbrev Adapted (T : Type) := Except (ReplayError YopsDriverError) T

section

variable (sha256 : List UInt8 → JsString) (canonicalSpec : JsString)
  (issueMessage : JsValue → JsString) (parsedData : JsValue → JsValue)

/-- `parseOperations(operations)`, from an index on. -/
def parseOperations : ℕ → List JsValue → Except ProtocolError (List JsValue)
  | _, [] => return []
  | index, operation :: operations => do
    let path := itemPath (js "$.operations") index
    if operation.hasMember "source" then
      throw (schemaError (js ("YOps Effect operations cannot carry source metadata; " ++
        "provenance belongs to Statements")) (fieldPath path "source"))
    if yOpSchema operation = false then
      throw (schemaError (js "Invalid YOps operation: " ++ issueMessage operation) path)
    let rest ← parseOperations (index + 1) operations
    return parsedData operation :: rest

/-- `YOPS_SPEC_DIGEST`, with the canonical text of the specification. -/
def yopsSpecDigest : JsString :=
  js "sha256:" ++ sha256 (encodeUtf8 (js "t3x-yops-driver-spec-v1" ++ [0]) ++
    encodeUtf8 canonicalSpec)

/-- `YOPS_MUTATION_DRIVER_REF`. -/
def yopsMutationDriverRef : JsValue :=
  .obj [(js "protocol", .str (js "t3x.dev/yops")), (js "protocolVersion", .str (js "1")),
    (js "specDigest", .str (yopsSpecDigest sha256 canonicalSpec))]

/-- `yopsMutationDriver.execute(base, definition, inputs)`. -/
def executeYOps (base definition : JsValue) (inputs : ResolvedInputs) : Adapted JsValue := do
  byProtocol (assertYOpsState base)
  if (parts definition "inputs").length ≠ 0 ∨ (Record.keys inputs).length ≠ 0 then
    throw (.protocol (unsupportedSemantics (js
      "YOps adapter protocol version 1 does not define named input semantics")))
  let operations ← byProtocol
    (parseOperations issueMessage parsedData 0 (parts definition "operations"))
  let doc ← byProtocol (normalizeProtocolValue (part base "value"))
  let result := applyYOps issueMessage doc operations
  if result.ok = false then
    match result.error with
    | none => throw (.protocol (chainInvalid "YOps failed without its required native error"))
    | some error =>
      if error.code = "ASSERTION_FAILED" then throw (.driver (.replayPreconditionFailed error))
      else throw (.driver (.execution error))
  else byProtocol (createYOpsState result.doc)

/-- `yopsMutationDriver`. -/
def yopsMutationDriver : MutationDriver YopsDriverError where
  protocol := js "t3x.dev/yops"
  protocolVersion := js "1"
  specDigest := yopsSpecDigest sha256 canonicalSpec
  execute := executeYOps issueMessage parsedData

/-- `yopsMutationDrivers`. -/
def yopsMutationDrivers : Record (MutationDriver YopsDriverError) :=
  let driver := yopsMutationDriver sha256 canonicalSpec issueMessage parsedData
  [(driver.key, driver)]

/-! ## Effects -/

/-- `CreatedYOpsEffect`. -/
structure CreatedYOpsEffect where
  /-- The Effect. -/
  effect : JsValue
  /-- The State that it results in. -/
  result : JsValue

/-- A failed precondition of a replay, as the failed precondition of the caller. -/
def asPreconditionFailed {T : Type} : Adapted T → Adapted T
  | .error (.driver (.replayPreconditionFailed error)) =>
    .error (.driver (.preconditionFailed error))
  | step => step

/-- `{ driver, operations, inputs: [] }`. -/
def yopsDefinition (operations : JsValue) : JsValue :=
  .obj [(js "driver", yopsMutationDriverRef sha256 canonicalSpec), (js "operations", operations),
    (js "inputs", .arr [])]

/-- `createYOpsEffect(input)`. -/
def createYOpsEffect (base : JsValue) (operations : List JsValue)
    (expectedBase : Option ObjectDescriptor) : Adapted CreatedYOpsEffect := do
  let baseDescriptor ← byProtocol (describeProtocolObject sha256 base)
  if expectedBase.any fun expected => decide (baseDescriptor ≠ expected) then
    throw (.protocol ⟨.staleBase, js "Actual Base " ++ baseDescriptor.digest ++
      js " does not match expected " ++ (expectedBase.map (·.digest)).getD [], none⟩)
  byProtocol (assertYOpsState base)
  let callerOperations ← byProtocol (normalizeProtocolValue (.arr operations))
  let parsedOperations ← byProtocol
    (parseOperations issueMessage parsedData 0 callerOperations.items)
  let doc ← byProtocol (normalizeProtocolValue (part base "value"))
  let downshifted := compileYOpsOperationsToPrimitiveProfile issueMessage doc parsedOperations
  let compiled ← byProtocol (normalizeProtocolValue (.arr downshifted))
  let result ← asPreconditionFailed
    (replay sha256 base (yopsDefinition sha256 canonicalSpec compiled) []
      (yopsMutationDrivers sha256 canonicalSpec issueMessage parsedData))
  let resultDescriptor ← byProtocol (describeProtocolObject sha256 result)
  let effect ← byProtocol (parseEffect (.obj [(js "schema", .str effectSchema),
    (js "driver", yopsMutationDriverRef sha256 canonicalSpec), (js "operations", compiled),
    (js "inputs", .arr []), (js "base", baseDescriptor.value),
    (js "result", resultDescriptor.value)]))
  return ⟨effect, result⟩

/-- `sameProtocolValue(left, right)`. -/
def sameProtocolValue (left right : JsValue) : Except ProtocolError Bool := do
  let leftText ← canonicalizeProtocolValue left
  let rightText ← canonicalizeProtocolValue right
  return leftText = rightText

/-- The step of the loop of `createYOpsReplacementEffect`: the operations for a root key. -/
def replacementStep (base target : Record JsValue) (key : JsString) :
    Except ProtocolError (List JsValue) :=
  if key = [] ∨ unit '/' ∈ key then
    .error (unsupportedSemantics (js "YOps replacement cannot address root key " ++ quote key))
  else
    match Record.get base key, Record.get target key with
    | some before, some after => do
      if ← sameProtocolValue before after then return []
      else return rootEdit (some before) (some after) key
    | before, after => return rootEdit before after key

/-- `[...new Set([...baseKeys, ...targetKeys])].sort()`. -/
def replacementKeys (base target : Record JsValue) : List JsString :=
  sortBy compareCodeUnits (distinct (Record.keys base ++ Record.keys target))

/-- The operations that `createYOpsReplacementEffect` makes. -/
def replacementOperations (base target : Record JsValue) :
    Except ProtocolError (List JsValue) := do
  let steps ← (replacementKeys base target).mapM (replacementStep base target)
  return steps.flatten

/-- `createYOpsReplacementEffect(input)`. -/
def createYOpsReplacementEffect (base target : JsValue) (expectedBase : Option ObjectDescriptor) :
    Adapted CreatedYOpsEffect := do
  byProtocol (assertYOpsState base)
  byProtocol (assertYOpsState target)
  match part base "value", part target "value" with
  | .obj baseValue, .obj targetValue =>
    let operations ← byProtocol (replacementOperations baseValue targetValue)
    let created ← createYOpsEffect sha256 canonicalSpec issueMessage parsedData base operations
      expectedBase
    let resultDescriptor ← byProtocol (describeProtocolObject sha256 created.result)
    let targetDescriptor ← byProtocol (describeProtocolObject sha256 target)
    if resultDescriptor.digest ≠ targetDescriptor.digest then
      throw (.protocol (chainInvalid
        "YOps replacement did not replay to the exact target State"))
    return created
  | _, _ => throw (.protocol (unsupportedSemantics
      (js "YOps replacement requires top-level mapping States")))

end

end T3x.Transition
