import T3x.Decision.Policy

/-!
# Statement profiles

The predicates that statements about an Effect, its result or its Proposal
carry: replay verification, validation against a schema, external validation by
a runner, and human confirmation. A statement of a profile has one subject of
the profile's kind and a predicate of the profile's schema.
-/

namespace T3x.Decision

open Js Transition

/-! ## The schemas -/

/-- `REPLAY_VERIFICATION_PREDICATE_TYPE`. -/
def replayVerificationPredicateType : JsString := js "t3x.dev/replay-verification/v1"

/-- `YSCHEMA_VALIDATION_PREDICATE_TYPE`. -/
def yschemaValidationPredicateType : JsString := js "t3x.dev/yschema-validation/v1"

/-- `RUNNER_VALIDATION_PREDICATE_TYPE`. -/
def runnerValidationPredicateType : JsString := js "t3x.dev/runner-validation/v1"

/-- `HUMAN_CONFIRMATION_PREDICATE_TYPE`. -/
def humanConfirmationPredicateType : JsString := js "t3x.dev/human-confirmation/v1"

/-- `canonicalTimestamp`. -/
def canonicalTimestamp : Shape := .stringThat timestampPattern

/-- `stateDescriptorSchema`. -/
def stateDescriptorSchema : Shape :=
  .closed [⟨"kind", .word ["state"], false⟩, ⟨"schema", .word ["t3x/state/v1"], false⟩,
    ⟨"digest", digestShape, false⟩]

/-- `runBindingSchema`. -/
def runBindingSchema : Shape :=
  .closed [⟨"id", nonEmptyString, false⟩, ⟨"recordedAt", canonicalTimestamp, false⟩]

/-- `resourceDescriptorSetSchema`. -/
def resourceDescriptorSetSchema : Shape :=
  .list resourceDescriptorSchema 0 (some 64) isCanonicalSet

/-- `protocolValueSchema`. -/
def protocolValueSchema : Shape := fun value =>
  match canonicalizeProtocolValue value with
  | .ok _ => true
  | .error _ => false

/-- An array of a schema's values. -/
def arrayOf (shape : Shape) : Shape := .list shape 0 none fun _ => true

/-- `validationErrorCodeSchema`. -/
def validationErrorCodeSchema : Shape :=
  .word ["INVALID_KEY", "INVALID_PATH", "INVALID_TYPE", "INVALID_ENUM", "INVALID_CONST",
    "INVALID_RANGE", "INVALID_LENGTH", "INVALID_PATTERN", "INVALID_REPEATED_ITEM_KEY",
    "INVALID_RELATION_TYPE", "INVALID_RELATION_ENDPOINT", "BROKEN_RELATION_ENDPOINT",
    "RELATION_ENDPOINT_MISMATCH", "SELF_RELATION", "DUPLICATE_RELATION", "RELATION_CYCLE",
    "UNEXPECTED_NODE", "UNEXPECTED_SLOT", "INVALID_SCHEMA"]

/-- `validationGapCodeSchema`. -/
def validationGapCodeSchema : Shape :=
  .word ["REQUIRED_NODE_MISSING", "REQUIRED_SLOT_MISSING", "REQUIRED_EVIDENCE_MISSING",
    "DEFAULT_REQUIRES_APPROVAL", "USER_CHOICE_REQUIRED", "USER_INPUT_REQUIRED"]

/-- `validationErrorSchema`. -/
def validationErrorSchema : Shape :=
  .closed [⟨"code", validationErrorCodeSchema, false⟩, ⟨"path", nonEmptyString, false⟩,
    ⟨"message", nonEmptyString, false⟩, ⟨"details", .record protocolValueSchema, true⟩]

/-- `validationGapSchema`. -/
def validationGapSchema : Shape :=
  .closed [⟨"code", validationGapCodeSchema, false⟩, ⟨"path", nonEmptyString, false⟩,
    ⟨"message", nonEmptyString, false⟩, ⟨"gapQuestion", nonEmptyString, true⟩,
    ⟨"fixIds", arrayOf nonEmptyString, true⟩, ⟨"details", .record protocolValueSchema, true⟩]

/-- `fixChoiceSchema`. -/
def fixChoiceSchema : Shape :=
  .closed [⟨"label", nonEmptyString, false⟩, ⟨"value", protocolValueSchema, true⟩,
    ⟨"ops", arrayOf protocolValueSchema, false⟩]

/-- `fixProposalSchema`. -/
def fixProposalSchema : Shape :=
  .closed [⟨"id", nonEmptyString, false⟩, ⟨"code", nonEmptyString, false⟩,
    ⟨"path", nonEmptyString, false⟩, ⟨"title", nonEmptyString, false⟩,
    ⟨"description", nonEmptyString, true⟩,
    ⟨"applyMode", .word ["automatic_after_review", "requires_user_choice",
      "requires_user_input"], false⟩,
    ⟨"ops", arrayOf protocolValueSchema, true⟩, ⟨"choices", arrayOf fixChoiceSchema, true⟩]

/-- `runMetadataShape`. -/
def runMetadataShape : List ShapeField :=
  [⟨"tool", toolBindingSchema, false⟩, ⟨"run", runBindingSchema, false⟩,
    ⟨"environment", resourceBindingSchema, false⟩]

/-- `replayVerificationPredicateSchema`. -/
def replayVerificationPredicateSchema : Shape :=
  .anyOf [
    .closed (runMetadataShape ++
      [⟨"outcome", .word ["verified"], false⟩, ⟨"result", stateDescriptorSchema, false⟩]),
    .closed (runMetadataShape ++
      [⟨"outcome", .word ["false"], false⟩, ⟨"reason", nonEmptyString, false⟩]),
    .closed (runMetadataShape ++
      [⟨"outcome", .word ["unsupported"], false⟩, ⟨"reason", nonEmptyString, false⟩])]

/-- `yschemaMetadataShape`. -/
def yschemaMetadataShape : List ShapeField :=
  runMetadataShape ++ [⟨"schemaResource", resourceDescriptorSchema, false⟩,
    ⟨"profile", profileBindingSchema, false⟩, ⟨"context", resourceBindingSchema, false⟩]

/-- `validateYSchemaFlags(value)`. -/
def validateYSchemaFlags (value : JsValue) : Bool :=
  let expectedValid := (value.member "errors").items.isEmpty
  let expectedReady := expectedValid && (value.member "gaps").items.isEmpty
  (value.member "valid").flag == expectedValid && (value.member "ready").flag == expectedReady

/-- The members of a validation that ran. -/
def yschemaReportShape : List ShapeField :=
  [⟨"errors", arrayOf validationErrorSchema, false⟩, ⟨"gaps", arrayOf validationGapSchema, false⟩,
    ⟨"fixes", arrayOf fixProposalSchema, false⟩]

/-- `yschemaValidationPredicateSchema`. -/
def yschemaValidationPredicateSchema : Shape :=
  .anyOf [
    .refined (.closed (yschemaMetadataShape ++ [⟨"outcome", .word ["passed"], false⟩,
      ⟨"valid", .exactly true, false⟩, ⟨"ready", .exactly true, false⟩] ++ yschemaReportShape))
      validateYSchemaFlags,
    .refined (.closed (yschemaMetadataShape ++ [⟨"outcome", .word ["failed"], false⟩,
      ⟨"valid", .boolean, false⟩, ⟨"ready", .boolean, false⟩] ++ yschemaReportShape))
      (fun value => validateYSchemaFlags value &&
        !((value.member "valid").flag && (value.member "ready").flag)),
    .closed (yschemaMetadataShape ++
      [⟨"outcome", .word ["unsupported"], false⟩, ⟨"reason", nonEmptyString, false⟩])]

/-- `runnerFindingSchema`. -/
def runnerFindingSchema : Shape :=
  .closed [⟨"severity", .word ["error", "warning", "info"], false⟩,
    ⟨"code", .string 1 (some 256), false⟩, ⟨"message", .string 1 (some 4096), false⟩,
    ⟨"path", .string 1 (some 1024), true⟩, ⟨"line", .integer 1, true⟩,
    ⟨"column", .integer 1, true⟩]

/-- `runnerMetadataShape`. -/
def runnerMetadataShape : List ShapeField :=
  [⟨"tool", toolBindingSchema, false⟩, ⟨"run", runBindingSchema, false⟩,
    ⟨"workflow", resourceDescriptorSchema, false⟩,
    ⟨"environment", resourceDescriptorSchema, false⟩,
    ⟨"inputManifest", resourceDescriptorSchema, false⟩,
    ⟨"inputArtifacts", resourceDescriptorSetSchema, false⟩,
    ⟨"logs", resourceDescriptorSetSchema, false⟩, ⟨"outputs", resourceDescriptorSetSchema, false⟩,
    ⟨"summary", .string 1 (some 4096), false⟩,
    ⟨"findings", .list runnerFindingSchema 0 (some 1000) fun _ => true, false⟩]

/-- `value.findings.some((finding) => finding.severity === 'error')`. -/
def hasErrorFinding (value : JsValue) : Bool :=
  (value.member "findings").items.any fun finding =>
    decide (finding.member "severity" = .str (js "error"))

/-- `runnerValidationPredicateSchema`. -/
def runnerValidationPredicateSchema : Shape :=
  .anyOf [
    .refined (.closed (runnerMetadataShape ++ [⟨"outcome", .word ["passed"], false⟩]))
      (fun value => !hasErrorFinding value),
    .refined (.closed (runnerMetadataShape ++ [⟨"outcome", .word ["failed"], false⟩]))
      hasErrorFinding]

/-- `CONFIRMABLE_CLAIMS`. -/
def confirmableClaims : List String := ["intent", "rationale", "evidence"]

/-- The claims stand in the order of `CONFIRMABLE_CLAIMS`, each once. -/
def areRanked (claims : List JsValue) : Bool :=
  let ranks := claims.map fun claim => (confirmableClaims.map js).idxOf claim.text
  decide (ranks.Pairwise (· < ·))

/-- `humanConfirmationPredicateSchema`. -/
def humanConfirmationPredicateSchema : Shape :=
  .closed [⟨"confirms", .list (.word confirmableClaims) 1 none areRanked, false⟩]

/-! ## Statements of a profile -/

/-- `statement.predicateType`. -/
def predicateTypeOf (statement : JsValue) : JsString := (statement.member "predicateType").text

/-- `statement.predicate`. -/
def predicateOf (statement : JsValue) : JsValue := statement.member "predicate"

/-- `statement.predicate.outcome`. -/
def outcomeOf (statement : JsValue) : JsString := ((predicateOf statement).member "outcome").text

/-- The profiles of statements. -/
inductive Profile where
  | replay
  | validation
  | runner
  | humanConfirmation
  deriving DecidableEq

/-- The predicate type of a profile. -/
def Profile.predicateType : Profile → JsString
  | .replay => replayVerificationPredicateType
  | .validation => yschemaValidationPredicateType
  | .runner => runnerValidationPredicateType
  | .humanConfirmation => humanConfirmationPredicateType

/-- The kind of the subject of a profile's statements. -/
def Profile.subjectKind : Profile → ObjectKind
  | .replay => .effect
  | .validation | .runner => .state
  | .humanConfirmation => .statement

/-- The schema of the predicates of a profile. -/
def Profile.predicateSchema : Profile → Shape
  | .replay => replayVerificationPredicateSchema
  | .validation => yschemaValidationPredicateSchema
  | .runner => runnerValidationPredicateSchema
  | .humanConfirmation => humanConfirmationPredicateSchema

/-- `assertSingleSubject(statement.subjects, kind)`. -/
def assertSingleSubject (statement : JsValue) (kind : ObjectKind) : Except ProtocolError Unit :=
  match (statement.member "subjects").items with
  | [subject] =>
    if subject.member "kind" = .str kind.text then .ok ()
    else .error (schemaError (js "Expected exactly one " ++ kind.text ++ js " subject")
      (js "$.subjects"))
  | _ => .error (schemaError (js "Expected exactly one " ++ kind.text ++ js " subject")
      (js "$.subjects"))

/-- The parser of a profile's statements: all but the confirmation's check of its actor. -/
def parseProfileStatement (profile : Profile) (checkActor : JsValue → Except ProtocolError Unit)
    (value : JsValue) : Except ProtocolError JsValue := do
  let statement ← parseStatement value
  if predicateTypeOf statement ≠ profile.predicateType then
    throw (schemaError (js "Expected " ++ profile.predicateType) (js "$.predicateType"))
  assertSingleSubject statement profile.subjectKind
  checkActor statement
  if !profile.predicateSchema (predicateOf statement) then
    throw (schemaError (js "Invalid Statement profile") (js "$.predicate"))
  return statement

/-- `parseReplayVerificationStatement(value)`. -/
def parseReplayVerificationStatement (value : JsValue) : Except ProtocolError JsValue :=
  parseProfileStatement .replay (fun _ => .ok ()) value

/-- `parseYSchemaValidationStatement(value)`. -/
def parseYSchemaValidationStatement (value : JsValue) : Except ProtocolError JsValue :=
  parseProfileStatement .validation (fun _ => .ok ()) value

/-- `parseRunnerValidationStatement(value)`. -/
def parseRunnerValidationStatement (value : JsValue) : Except ProtocolError JsValue :=
  parseProfileStatement .runner (fun _ => .ok ()) value

/-- The check that a human confirms. -/
def assertHumanActor (statement : JsValue) : Except ProtocolError Unit :=
  if (statement.member "actor").member "kind" ≠ .str (js "human") then
    .error (schemaError (js "Human confirmation requires a human actor") (js "$.actor.kind"))
  else .ok ()

/-- `parseHumanConfirmationStatement(value)`. -/
def parseHumanConfirmationStatement (value : JsValue) : Except ProtocolError JsValue :=
  parseProfileStatement .humanConfirmation assertHumanActor value

end T3x.Decision
