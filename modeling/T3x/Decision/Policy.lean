import T3x.Js.Filter
import T3x.Js.Shape
import T3x.Transition.Identity

/-!
# Acceptance policies

The closed schema of an acceptance policy, the digest of a policy, the check
that a resource names the exact policy, and the selectors by which a policy
says whom and what it trusts. The texts of a schema library's issues are not
modelled: a refused value is refused with one text.
-/

namespace T3x.Decision

open Js Transition

/-! ## The schema -/

/-- `ACCEPTANCE_POLICY_SCHEMA`. -/
def acceptancePolicySchemaName : String := "t3x.dev/acceptance-policy/v1"

/-- `ACCEPTANCE_POLICY_MEDIA_TYPE`. -/
def acceptancePolicyMediaType : JsString := js "application/vnd.t3x.acceptance-policy+json"

/-- `nonEmptyString`. -/
def nonEmptyString : Shape := .string 1 none

/-- `digest`. -/
def digestShape : Shape := .stringThat digestPattern

/-- `actorRefSchema`. -/
def actorRefSchema : Shape :=
  .closed [⟨"kind", .word ["human", "agent", "service"], false⟩, ⟨"id", nonEmptyString, false⟩]

/-- `resourceDescriptorSchema`. -/
def resourceDescriptorSchema : Shape :=
  .closed [⟨"uri", nonEmptyString, false⟩, ⟨"mediaType", nonEmptyString, false⟩,
    ⟨"digest", digestShape, false⟩]

/-- `toolBindingSchema`. -/
def toolBindingSchema : Shape :=
  .closed [⟨"name", nonEmptyString, false⟩, ⟨"version", nonEmptyString, false⟩]

/-- `profileBindingSchema`. -/
def profileBindingSchema : Shape :=
  .closed [⟨"id", nonEmptyString, false⟩, ⟨"version", nonEmptyString, false⟩]

/-- `resourceBindingSchema`. -/
def resourceBindingSchema : Shape :=
  .anyOf [.closed [⟨"mode", .word ["unspecified"], false⟩],
    .closed [⟨"mode", .word ["bound"], false⟩, ⟨"resource", resourceDescriptorSchema, false⟩]]

/-- `canonicalKey(value)`. -/
def canonicalKey (value : JsValue) : Except ProtocolError JsString :=
  canonicalizeProtocolValue value

/-- `canonicalSet(values)`: the keys are distinct and stand in the order of the sorted keys. -/
def isCanonicalSet (values : List JsValue) : Bool :=
  match values.mapM canonicalKey with
  | .ok keys => decide (keys.Nodup) && decide (keys = sortBy compareCodeUnits keys)
  | .error _ => false

/-- `exactSelectorSchema(valueSchema)`. -/
def exactSelectorSchema (valueSchema : Shape) : Shape :=
  .anyOf [.closed [⟨"mode", .word ["any"], false⟩],
    .closed [⟨"mode", .word ["one_of"], false⟩,
      ⟨"values", .list valueSchema 1 none isCanonicalSet, false⟩]]

/-- `claimRequirementSchema`. -/
def claimRequirementSchema : Shape :=
  .closed [⟨"allowedModes", .list (.word ["authored", "inferred", "stated", "unspecified"]) 1 none
      isCanonicalSet, false⟩,
    ⟨"minimumEvidence", .integer 0, false⟩,
    ⟨"humanConfirmation", .word ["not_required", "required"], false⟩]

/-- `authorizationRuleSchema`. -/
def authorizationRuleSchema : Shape :=
  .closed [⟨"actors", exactSelectorSchema actorRefSchema, false⟩]

/-- `statementTrustShape`. -/
def statementTrustShape : List ShapeField :=
  [⟨"issuers", exactSelectorSchema actorRefSchema, false⟩,
    ⟨"tools", exactSelectorSchema toolBindingSchema, false⟩,
    ⟨"environments", exactSelectorSchema resourceBindingSchema, false⟩]

/-- The schema of `requirement`. -/
def requirementSchema : Shape := .word ["optional", "required"]

/-- The schema of the validation rule. -/
def validationRuleSchema : Shape :=
  .closed (⟨"requirement", requirementSchema, false⟩ :: statementTrustShape ++
    [⟨"profiles", exactSelectorSchema profileBindingSchema, false⟩,
      ⟨"schemas", exactSelectorSchema resourceDescriptorSchema, false⟩,
      ⟨"contexts", exactSelectorSchema resourceBindingSchema, false⟩])

/-- The schema of the runner rule. -/
def runnerRuleSchema : Shape :=
  .closed [⟨"requirement", requirementSchema, false⟩,
    ⟨"issuers", exactSelectorSchema actorRefSchema, false⟩,
    ⟨"tools", exactSelectorSchema toolBindingSchema, false⟩,
    ⟨"workflows", exactSelectorSchema resourceDescriptorSchema, false⟩,
    ⟨"environments", exactSelectorSchema resourceDescriptorSchema, false⟩]

/-- `acceptancePolicySchema`. -/
def acceptancePolicySchema : Shape :=
  .closed [⟨"schema", .word [acceptancePolicySchemaName], false⟩,
    ⟨"version", .refined (.integer 1) (fun value => value.number.strictEq (countNumber 1)), false⟩,
    ⟨"authorization", .closed [⟨"decide", authorizationRuleSchema, false⟩,
      ⟨"override", authorizationRuleSchema, false⟩, ⟨"allowSelfApproval", .boolean, false⟩], false⟩,
    ⟨"claims", .closed [⟨"intent", claimRequirementSchema, false⟩,
      ⟨"rationale", claimRequirementSchema, false⟩], false⟩,
    ⟨"checks", .closed [⟨"replay", .closed statementTrustShape, false⟩,
      ⟨"validation", validationRuleSchema, false⟩, ⟨"runner", runnerRuleSchema, true⟩,
      ⟨"humanConfirmation", .closed [⟨"issuers", exactSelectorSchema actorRefSchema, false⟩],
        false⟩], false⟩,
    ⟨"override", .closed [⟨"allowClaimFailures", .boolean, false⟩,
      ⟨"allowFailedValidation", .boolean, false⟩,
      ⟨"allowMissingHumanConfirmation", .boolean, false⟩,
      ⟨"allowMissingValidation", .boolean, false⟩, ⟨"allowFailedRunner", .boolean, true⟩,
      ⟨"allowMissingRunner", .boolean, true⟩], false⟩]

/-- An acceptance policy: a value of the schema. -/
structure AcceptancePolicy where
  /-- The value. -/
  data : JsValue
  /-- The value has the schema. -/
  valid : acceptancePolicySchema data = true

/-! ## The parts of a policy -/

/-- `ExactSelector<T>`. -/
inductive ExactSelector where
  /-- Every value is selected. -/
  | any
  /-- The values of a list are selected. -/
  | oneOf (values : List JsValue)

/-- The selector that a value of the selector schema is. -/
def selectorOf (value : JsValue) : ExactSelector :=
  if value.member "mode" = .str (js "any") then .any else .oneOf (value.member "values").items

/-- What a policy requires of a claim. -/
structure ClaimRequirement where
  /-- The modes that are allowed. -/
  allowedModes : List JsString
  /-- The least number of evidence references. -/
  minimumEvidence : JsNumber
  /-- `humanConfirmation === 'required'`. -/
  needsConfirmation : Bool

/-- What a policy trusts about statements of one profile. -/
structure TrustRule where
  /-- `requirement === 'required'`. -/
  isRequired : Bool
  /-- The trusted issuers. -/
  issuers : ExactSelector
  /-- The trusted tools. -/
  tools : ExactSelector
  /-- The trusted environments. -/
  environments : ExactSelector
  /-- The trusted profiles of a validation. -/
  profiles : ExactSelector
  /-- The trusted schemas of a validation. -/
  schemas : ExactSelector
  /-- The trusted contexts of a validation. -/
  contexts : ExactSelector
  /-- The trusted workflows of a runner. -/
  workflows : ExactSelector

/-- The rule that a value of a rule's schema is. -/
def trustRuleOf (value : JsValue) : TrustRule where
  isRequired := decide (value.member "requirement" = .str (js "required"))
  issuers := selectorOf (value.member "issuers")
  tools := selectorOf (value.member "tools")
  environments := selectorOf (value.member "environments")
  profiles := selectorOf (value.member "profiles")
  schemas := selectorOf (value.member "schemas")
  contexts := selectorOf (value.member "contexts")
  workflows := selectorOf (value.member "workflows")

namespace AcceptancePolicy

variable (policy : AcceptancePolicy)

/-- `policy.authorization.decide.actors`. -/
def decide : ExactSelector :=
  selectorOf (((policy.data.member "authorization").member "decide").member "actors")

/-- `policy.authorization.override.actors`. -/
def override : ExactSelector :=
  selectorOf (((policy.data.member "authorization").member "override").member "actors")

/-- `policy.authorization.allowSelfApproval`. -/
def allowSelfApproval : Bool := ((policy.data.member "authorization").member "allowSelfApproval").flag

/-- `policy.claims[name]`. -/
def claim (name : String) : ClaimRequirement where
  allowedModes := (((policy.data.member "claims").member name).member "allowedModes").items.map
    JsValue.text
  minimumEvidence := (((policy.data.member "claims").member name).member "minimumEvidence").number
  needsConfirmation := Decidable.decide
    (((policy.data.member "claims").member name).member "humanConfirmation" = .str (js "required"))

/-- `policy.checks.replay`. -/
def replay : TrustRule := trustRuleOf ((policy.data.member "checks").member "replay")

/-- `policy.checks.validation`. -/
def validation : TrustRule := trustRuleOf ((policy.data.member "checks").member "validation")

/-- `policy.checks.runner`. -/
def runner : Option TrustRule :=
  if (policy.data.member "checks").hasMember "runner" then
    some (trustRuleOf ((policy.data.member "checks").member "runner"))
  else none

/-- `policy.checks.humanConfirmation.issuers`. -/
def confirmers : ExactSelector :=
  selectorOf (((policy.data.member "checks").member "humanConfirmation").member "issuers")

/-- `policy.override[name] ?? false`. -/
def allows (name : String) : Bool := ((policy.data.member "override").member name).flag

end AcceptancePolicy

/-! ## Parsing and naming a policy -/

/-- `policySchemaError(error)`. -/
def policySchemaError : ProtocolError := schemaError (js "Invalid AcceptancePolicy") (js "$")

/-- `parseAcceptancePolicy(value)`. -/
def parseAcceptancePolicy (value : JsValue) : Except ProtocolError AcceptancePolicy :=
  if h : acceptancePolicySchema value = true then .ok ⟨value, h⟩ else .error policySchemaError

/-- `canonicalizeAcceptancePolicy(policy)`. -/
def canonicalizeAcceptancePolicy (policy : AcceptancePolicy) : Except ProtocolError JsString := do
  let parsed ← parseAcceptancePolicy policy.data
  canonicalizeProtocolValue parsed.data

section

variable (sha256 : List UInt8 → JsString)

/-- `acceptancePolicyDigest(policy)`. -/
def acceptancePolicyDigest (policy : AcceptancePolicy) : Except ProtocolError JsString := do
  let canonical ← canonicalizeAcceptancePolicy policy
  return js "sha256:" ++ sha256 (encodeUtf8 canonical)

/-- `verifyAcceptancePolicyResource(policy, resource)`. -/
def verifyAcceptancePolicyResource (policy : AcceptancePolicy) (resource : JsValue) :
    Except ProtocolError JsValue := do
  if !resourceDescriptorSchema resource then
    throw (schemaError (js "Invalid policy resource") (js "$.policyResource"))
  if resource.member "mediaType" ≠ .str acceptancePolicyMediaType then
    throw (schemaError (js "Expected " ++ acceptancePolicyMediaType)
      (js "$.policyResource.mediaType"))
  let digest ← acceptancePolicyDigest sha256 policy
  if resource.member "digest" ≠ .str digest then
    throw (schemaError (js "Acceptance policy resource digest does not match policy content")
      (js "$.policyResource.digest"))
  return resource

end

/-- `selectorMatches(selector, value)`. -/
def selectorMatches (selector : ExactSelector) (value : JsValue) : Except ProtocolError Bool :=
  match selector with
  | .any => return true
  | .oneOf values => do
    let key ← canonicalKey value
    values.anyM fun candidate => do
      let candidateKey ← canonicalKey candidate
      return Decidable.decide (candidateKey = key)

end T3x.Decision
