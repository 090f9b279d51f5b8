import T3x.Decision.Profiles

/-!
# Evaluation of a requested decision

The pure evaluation of one requested outcome for one Proposal under one policy.
Statements are collected by profile, the trusted ones are kept, six collectors
list what fails, and the outcome is permitted or not from the failures alone.
-/

namespace T3x.Decision

open Js Transition

/-! ## Inputs and results -/

/-- The kinds of actors. -/
inductive ActorKind where
  | human
  | agent
  | service
  deriving DecidableEq

/-- The word for a kind of actor. -/
def ActorKind.text : ActorKind → JsString
  | .human => js "human"
  | .agent => js "agent"
  | .service => js "service"

/-- `ActorRef`. -/
structure ActorRef where
  /-- The kind of the actor. -/
  kind : ActorKind
  /-- The identity of the actor. -/
  id : JsString
  deriving DecidableEq

/-- An actor reference as the value that it is. -/
def ActorRef.value (actor : ActorRef) : JsValue :=
  .obj [(js "kind", .str actor.kind.text), (js "id", .str actor.id)]

/-- `ActorContext`: an identity that the application established. -/
structure ActorContext where
  /-- The actor. -/
  actor : ActorRef
  deriving DecidableEq

/-- `StatementObservation`: a Statement with the identity of who issued it. -/
structure StatementObservation where
  /-- The Statement. -/
  statement : JsValue
  /-- The identity of the issuer. -/
  issuerContext : ActorContext
  deriving DecidableEq

/-- `RequestedDecisionOutcome`. -/
inductive RequestedDecisionOutcome where
  | accepted
  | overridden
  | rejected
  deriving DecidableEq

/-- The modes of a claim that is made. -/
inductive ClaimMode where
  | stated
  | inferred
  | authored
  deriving DecidableEq

/-- `StringClaim`. -/
inductive StringClaim where
  /-- Nothing is claimed. -/
  | unspecified
  /-- A value is claimed, with evidence. -/
  | made (mode : ClaimMode) (value : JsString) (evidence : List JsValue)
  deriving DecidableEq

/-- `ObservationScope`. -/
structure ObservationScope where
  /-- The word for how much was observed. -/
  completeness : JsString
  /-- The sources. -/
  sources : List JsString
  deriving DecidableEq

/-- `EvaluateAcceptanceInput`. -/
structure EvaluateAcceptanceInput where
  /-- Who decides. -/
  actorContext : ActorContext
  /-- The Effect. -/
  effect : JsValue
  /-- What was observed. -/
  observationScope : ObservationScope
  /-- The requested outcome. -/
  outcome : RequestedDecisionOutcome
  /-- The policy. -/
  policy : JsValue
  /-- The resource that names the policy. -/
  policyResource : JsValue
  /-- The Proposal. -/
  proposal : JsValue
  /-- The rationale of the decision. -/
  rationale : StringClaim
  /-- The observed Statements. -/
  statements : List StatementObservation

/-- `POLICY_FAILURE_CODES`. -/
inductive PolicyFailureCode where
  | claimEvidenceInsufficient
  | claimModeNotAllowed
  | humanConfirmationRequired
  | invalidOverrideRationale
  | observationScopeIncomplete
  | replayClaimFalse
  | replayNotVerified
  | runnerConflict
  | runnerFailed
  | runnerRequired
  | selfApprovalForbidden
  | unauthorizedDecision
  | unauthorizedOverride
  | validationConflict
  | validationFailed
  | validationRequired
  deriving DecidableEq

/-- `PolicyFailure`. -/
structure PolicyFailure where
  /-- The code. -/
  code : PolicyFailureCode
  /-- The path of what fails. -/
  path : JsString
  /-- The message. -/
  message : JsString
  /-- An override may pass over the failure. -/
  overrideable : Bool
  /-- Details of the failure. -/
  details : Option JsValue := none
  deriving DecidableEq

/-- `PolicyEvaluation`. -/
structure PolicyEvaluation where
  /-- The schema of evaluations. -/
  schema : JsString := js "t3x.dev/policy-evaluation/v1"
  /-- The requested outcome is permitted. -/
  permitted : Bool
  /-- The requested outcome. -/
  requestedOutcome : RequestedDecisionOutcome
  /-- Who decides. -/
  actor : ActorRef
  /-- The descriptor of the Proposal. -/
  proposal : ObjectDescriptor
  /-- The resource that names the policy. -/
  policy : JsValue
  /-- The descriptors of the statements that were considered. -/
  considered : List ObjectDescriptor
  /-- The rationale. -/
  rationale : StringClaim
  /-- What fails. -/
  failures : List PolicyFailure

/-! ## Parts of the evaluation -/

/-- `canonicalEqual(left, right)`. -/
def canonicalEqual (left right : JsValue) : Except ProtocolError Bool := do
  let leftText ← canonicalizeProtocolValue left
  let rightText ← canonicalizeProtocolValue right
  return decide (leftText = rightText)

/-- `sameActor(left, right)`. -/
def sameActor (left right : JsValue) : Bool :=
  decide (left.member "kind" = right.member "kind") && decide (left.member "id" = right.member "id")

/-- `normalizedScope(scope)`. -/
def normalizedScope (scope : ObservationScope) : Except ProtocolError ObservationScope := do
  if scope.sources.any fun source => source.isEmpty then
    throw (schemaError (js "Observation scope sources must be non-empty") (js "$.observationScope"))
  if ¬ scope.sources.Nodup then
    throw (schemaError (js "Observation scope sources must be unique") (js "$.observationScope"))
  if scope.completeness ≠ js "complete" ∧ scope.completeness ≠ js "partial" then
    throw (schemaError (js "Unknown observation scope completeness")
      (js "$.observationScope.completeness"))
  return { scope with sources := sortBy compareCodeUnits scope.sources }

/-- `hasAuthority(rule, context)`. -/
def hasAuthority (actors : ExactSelector) (context : ActorContext) : Except ProtocolError Bool :=
  selectorMatches actors context.actor.value

/-- `evidenceCount(claim)`. -/
def evidenceCount (claim : JsValue) : ℕ :=
  if (claim.member "mode").text = js "unspecified" then 0 else (claim.member "evidence").items.length

/-- Whether a confirmation confirms the claim of a name. -/
def confirms (name : String) (confirmation : StatementObservation) : Bool :=
  ((predicateOf confirmation.statement).member "confirms").items.any fun claim =>
    decide (claim = .str (js name))

/-- The failures of one claim of the Proposal. -/
def claimFailuresOf (proposal : JsValue) (policy : AcceptancePolicy)
    (confirmations : List StatementObservation) (name : String) : List PolicyFailure :=
  let claim := (predicateOf proposal).member name
  let requirement := policy.claim name
  let path := js "$.proposal.predicate." ++ js name
  let mode := (claim.member "mode").text
  let evidence := countNumber (evidenceCount claim)
  (if requirement.allowedModes.contains mode then []
    else [{
      code := .claimModeNotAllowed
      path := path ++ js ".mode"
      message := js name ++ js " claim mode " ++ mode ++ js " is not allowed by policy"
      overrideable := policy.allows "allowClaimFailures"
      details := some (.obj [(js "claim", .str (js name)), (js "mode", .str mode)]) }]) ++
  (if evidence.lt requirement.minimumEvidence then [{
      code := .claimEvidenceInsufficient
      path := path
      message := js name ++ js " requires at least " ++ requirement.minimumEvidence.toText ++
        js " evidence references"
      overrideable := policy.allows "allowClaimFailures"
      details := some (.obj [(js "claim", .str (js name)), (js "actual", .num evidence),
        (js "required", .num requirement.minimumEvidence)]) }]
    else []) ++
  (if requirement.needsConfirmation && !confirmations.any (confirms name) then [{
      code := .humanConfirmationRequired
      path := path
      message := js name ++ js " requires an acceptable human confirmation Statement"
      overrideable := policy.allows "allowMissingHumanConfirmation"
      details := some (.obj [(js "claim", .str (js name))]) }]
    else [])

/-- `claimFailures(proposal, policy, confirmations)`. -/
def claimFailures (proposal : JsValue) (policy : AcceptancePolicy)
    (confirmations : List StatementObservation) : List PolicyFailure :=
  ["intent", "rationale"].flatMap (claimFailuresOf proposal policy confirmations)

/-- Whether a rule trusts who issued a statement, its tool and its environment. -/
def sourceMatches (rule : TrustRule) (observation : StatementObservation) :
    Except ProtocolError Bool :=
  let predicate := predicateOf observation.statement
  andThen (.ok (sameActor (observation.statement.member "actor")
      observation.issuerContext.actor.value)) <|
    andThen (selectorMatches rule.issuers observation.issuerContext.actor.value) <|
      andThen (selectorMatches rule.tools (predicate.member "tool"))
        (selectorMatches rule.environments (predicate.member "environment"))

/-- `statementTrustMatches(rule, statement, issuerContext, claimedResult)`. -/
def statementTrustMatches (rule : TrustRule) (claimedResult : JsValue)
    (observation : StatementObservation) : Except ProtocolError Bool :=
  andThen (sourceMatches rule observation) <|
    if outcomeOf observation.statement ≠ js "verified" then .ok true
    else canonicalEqual ((predicateOf observation.statement).member "result") claimedResult

/-- `validationTrustMatches(rule, statement, issuerContext)`. -/
def validationTrustMatches (rule : TrustRule) (observation : StatementObservation) :
    Except ProtocolError Bool :=
  let predicate := predicateOf observation.statement
  andThen (sourceMatches rule observation) <|
    andThen (selectorMatches rule.profiles (predicate.member "profile")) <|
      andThen (selectorMatches rule.schemas (predicate.member "schemaResource"))
        (selectorMatches rule.contexts (predicate.member "context"))

/-- `runnerTrustMatches(rule, statement, issuerContext)`. -/
def runnerTrustMatches (rule : TrustRule) (observation : StatementObservation) :
    Except ProtocolError Bool :=
  let predicate := predicateOf observation.statement
  andThen (.ok (sameActor (observation.statement.member "actor")
      observation.issuerContext.actor.value)) <|
    andThen (selectorMatches rule.issuers observation.issuerContext.actor.value) <|
      andThen (selectorMatches rule.tools (predicate.member "tool")) <|
        andThen (selectorMatches rule.workflows (predicate.member "workflow"))
          (selectorMatches rule.environments (predicate.member "environment"))

/-- The trust in a human confirmation. -/
def confirmationTrustMatches (issuers : ExactSelector) (observation : StatementObservation) :
    Except ProtocolError Bool :=
  andThen (.ok (sameActor (observation.statement.member "actor")
      observation.issuerContext.actor.value))
    (selectorMatches issuers observation.issuerContext.actor.value)

/-- `sortDescriptors(descriptors)`: the last descriptor of each digest, in the order of the
digests. -/
def sortDescriptors (descriptors : List ObjectDescriptor) : List ObjectDescriptor :=
  let byDigest := descriptors.foldl (fun map d => Record.mapSet map d.digest d)
    ([] : Record ObjectDescriptor)
  sortBy (fun left right => compareCodeUnits left.digest right.digest) (byDigest.map Prod.snd)

/-! ## Collecting the statements -/

/-- What is collected from statements. -/
structure Collected where
  /-- The descriptors of the relevant statements. -/
  considered : List ObjectDescriptor := []
  /-- The replay verifications. -/
  replayStatements : List StatementObservation := []
  /-- The validations. -/
  validationStatements : List StatementObservation := []
  /-- The runner validations. -/
  runnerStatements : List StatementObservation := []
  /-- The human confirmations. -/
  confirmations : List StatementObservation := []

/-- What is collected from one statement and then from others. -/
def Collected.append (one rest : Collected) : Collected where
  considered := one.considered ++ rest.considered
  replayStatements := one.replayStatements ++ rest.replayStatements
  validationStatements := one.validationStatements ++ rest.validationStatements
  runnerStatements := one.runnerStatements ++ rest.runnerStatements
  confirmations := one.confirmations ++ rest.confirmations

/-- The objects that statements may be about. -/
structure Subjects where
  /-- The descriptor of the Effect. -/
  effect : JsValue
  /-- The result of the Effect. -/
  result : JsValue
  /-- The descriptor of the Proposal. -/
  proposal : JsValue

/-- Whether a statement has one subject, equal to a given one. -/
def hasSubject (statement target : JsValue) : Except ProtocolError Bool :=
  match (statement.member "subjects").items with
  | [subject] => canonicalEqual subject target
  | _ => return false

/-- `s.startsWith(start)`. -/
def startsWith (s start : JsString) : Bool := start.isPrefixOf s

/-- Whether a statement is about one of the objects with a predicate for it. -/
def isRelevant (policy : AcceptancePolicy) (subjects : Subjects) (statement : JsValue) :
    Except ProtocolError Bool := do
  let predicateType := predicateTypeOf statement
  let relevantReplay ← andThen (hasSubject statement subjects.effect)
    (.ok (startsWith predicateType (js "t3x.dev/replay-verification/")))
  let relevantValidation ← andThen (hasSubject statement subjects.result)
    (.ok (startsWith predicateType (js "t3x.dev/yschema-validation/")))
  let relevantRunner ← andThen (.ok policy.runner.isSome) (andThen
    (hasSubject statement subjects.result)
    (.ok (startsWith predicateType (js "t3x.dev/runner-validation/"))))
  let relevantConfirmation ← andThen (hasSubject statement subjects.proposal)
    (.ok (decide (predicateType = humanConfirmationPredicateType)))
  return relevantReplay || relevantValidation || relevantRunner || relevantConfirmation

section

variable (sha256 : List UInt8 → JsString)

/-- What one observed statement adds: the body of the loop over `input.statements`. -/
def collectOne (policy : AcceptancePolicy) (subjects : Subjects)
    (observation : StatementObservation) : Except ProtocolError Collected := do
  let statement ← parseStatement observation.statement
  let relevant ← isRelevant policy subjects statement
  if !relevant then
    return {}
  let descriptor ← describeProtocolObject sha256 statement
  if predicateTypeOf statement = replayVerificationPredicateType then
    let parsed ← parseReplayVerificationStatement statement
    return { considered := [descriptor]
             replayStatements := [⟨parsed, observation.issuerContext⟩] }
  else if predicateTypeOf statement = yschemaValidationPredicateType then
    let parsed ← parseYSchemaValidationStatement statement
    return { considered := [descriptor]
             validationStatements := [⟨parsed, observation.issuerContext⟩] }
  else if predicateTypeOf statement = runnerValidationPredicateType then
    let parsed ← parseRunnerValidationStatement statement
    return { considered := [descriptor]
             runnerStatements := [⟨parsed, observation.issuerContext⟩] }
  else if predicateTypeOf statement = humanConfirmationPredicateType then
    let parsed ← parseHumanConfirmationStatement statement
    return { considered := [descriptor]
             confirmations := [⟨parsed, observation.issuerContext⟩] }
  else return { considered := [descriptor] }

/-- The loop over `input.statements`. -/
def collect (policy : AcceptancePolicy) (subjects : Subjects) :
    List StatementObservation → Except ProtocolError Collected
  | [] => return {}
  | observation :: observations => do
    let one ← collectOne sha256 policy subjects observation
    let rest ← collect policy subjects observations
    return one.append rest

/-! ## The failures -/

/-- The failure of a partial observation. -/
def scopeFailures (scope : ObservationScope) : List PolicyFailure :=
  if scope.completeness = js "partial" then [{
    code := .observationScopeIncomplete
    path := js "$.observationScope"
    message := js "A partial observation scope cannot authorize acceptance or override"
    overrideable := false
    details := some (.obj [(js "check", .str (js "decision")),
      (js "sources", .arr (scope.sources.map .str))]) }]
  else []

/-- Whether some statement has an outcome. -/
def hasOutcome (outcome : String) (observations : List StatementObservation) : Bool :=
  observations.any fun observation => decide (outcomeOf observation.statement = js outcome)

/-- The failures of the replay of the Effect. -/
def replayFailures (acceptable : List StatementObservation) : List PolicyFailure :=
  if hasOutcome "false" acceptable then [{
    code := .replayClaimFalse
    path := js "$.statements"
    message := js "Replay is false for the exact proposed Effect"
    overrideable := false }]
  else if !hasOutcome "verified" acceptable then [{
    code := .replayNotVerified
    path := js "$.statements"
    message := js "No acceptable verified replay Statement was observed"
    overrideable := false }]
  else []

/-- What a check reports: its codes and messages, and which of its failures an override may
pass over. -/
structure CheckTexts where
  /-- The code of statements that conflict. -/
  conflict : PolicyFailureCode
  /-- The code of a statement that reports failure. -/
  failed : PolicyFailureCode
  /-- The code of a required statement that is missing. -/
  required : PolicyFailureCode
  /-- The message of statements that conflict. -/
  conflictMessage : JsString
  /-- The message of a statement that reports failure. -/
  failedMessage : JsString
  /-- The message of a required statement that is missing. -/
  requiredMessage : JsString
  /-- An override may pass over a failed check. -/
  allowFailed : Bool
  /-- An override may pass over a missing check. -/
  allowMissing : Bool

/-- The failures of a check from the outcomes of its acceptable statements. -/
def checkFailures (texts : CheckTexts) (isRequired : Bool)
    (acceptable : List StatementObservation) : List PolicyFailure :=
  if hasOutcome "passed" acceptable && hasOutcome "failed" acceptable then
    [⟨texts.conflict, js "$.statements", texts.conflictMessage, texts.allowFailed, none⟩]
  else if hasOutcome "failed" acceptable then
    [⟨texts.failed, js "$.statements", texts.failedMessage, texts.allowFailed, none⟩]
  else if isRequired && !hasOutcome "passed" acceptable then
    [⟨texts.required, js "$.statements", texts.requiredMessage, texts.allowMissing, none⟩]
  else []

/-- What the validation against a schema reports. -/
def validationTexts (policy : AcceptancePolicy) : CheckTexts where
  conflict := .validationConflict
  failed := .validationFailed
  required := .validationRequired
  conflictMessage := js "Conflicting acceptable validation Statements were observed"
  failedMessage := js "An acceptable validation Statement reports failure"
  requiredMessage := js "No acceptable passed validation Statement was observed"
  allowFailed := policy.allows "allowFailedValidation"
  allowMissing := policy.allows "allowMissingValidation"

/-- What the validation by a runner reports. -/
def runnerTexts (policy : AcceptancePolicy) : CheckTexts where
  conflict := .runnerConflict
  failed := .runnerFailed
  required := .runnerRequired
  conflictMessage := js "Conflicting acceptable runner validation Statements were observed"
  failedMessage := js "An acceptable runner validation Statement reports failure"
  requiredMessage := js "No acceptable passed runner validation Statement was observed"
  allowFailed := policy.allows "allowFailedRunner"
  allowMissing := policy.allows "allowMissingRunner"

/-- The statements that the policy trusts. -/
structure Acceptable where
  /-- The replay verifications. -/
  replay : List StatementObservation
  /-- The validations. -/
  validation : List StatementObservation
  /-- The runner validations. -/
  runner : List StatementObservation
  /-- The human confirmations. -/
  confirmations : List StatementObservation

/-- The runner validations that the policy trusts: none without a rule for runners. -/
def acceptableRunner (policy : AcceptancePolicy) (collected : Collected) :
    Except ProtocolError (List StatementObservation) :=
  match policy.runner with
  | none => return []
  | some rule => keep (runnerTrustMatches rule) collected.runnerStatements

/-- The statements of each profile that the policy trusts. -/
def acceptableOf (policy : AcceptancePolicy) (result : JsValue) (collected : Collected) :
    Except ProtocolError Acceptable := do
  let replay ← keep (statementTrustMatches policy.replay result) collected.replayStatements
  let validation ← keep (validationTrustMatches policy.validation) collected.validationStatements
  let runner ← acceptableRunner policy collected
  let confirmations ← keep (confirmationTrustMatches policy.confirmers) collected.confirmations
  return ⟨replay, validation, runner, confirmations⟩

/-- The failures of the policy's checks. -/
def policyFailures (policy : AcceptancePolicy) (proposal : JsValue) (scope : ObservationScope)
    (acceptable : Acceptable) : List PolicyFailure :=
  claimFailures proposal policy acceptable.confirmations ++ scopeFailures scope ++
    replayFailures acceptable.replay ++
    checkFailures (validationTexts policy) policy.validation.isRequired acceptable.validation ++
    match policy.runner with
    | none => []
    | some rule => checkFailures (runnerTexts policy) rule.isRequired acceptable.runner

/-- `EvaluationFacts`. -/
structure EvaluationFacts where
  /-- The actor may decide. -/
  actorAuthorizedToDecide : Bool
  /-- The actor may override. -/
  actorAuthorizedToOverride : Bool
  /-- The actor is the proposer. -/
  actorIsProposer : Bool
  /-- The descriptors of the statements that were considered. -/
  considered : List ObjectDescriptor
  /-- The failures of the policy's checks. -/
  policyFailures : List PolicyFailure

/-- What the statements of an input are evaluated against. -/
structure PolicyContext where
  /-- The policy. -/
  policy : AcceptancePolicy
  /-- The resource that names the policy. -/
  resource : JsValue
  /-- The Proposal. -/
  proposal : JsValue
  /-- The descriptor of the Proposal. -/
  proposalDescriptor : ObjectDescriptor
  /-- What was observed. -/
  scope : ObservationScope
  /-- The objects that statements may be about. -/
  subjects : Subjects

/-- `parseProposalStatement(value)`. -/
def parseProposalStatement (value : JsValue) : Except ProtocolError JsValue := do
  let statement ← parseStatement value
  if predicateTypeOf statement ≠ proposalPredicateType then
    throw (schemaError (js "Expected a Proposal Statement") (js "$.predicateType"))
  return statement

/-- The part of `policyFacts(input)` before the loop over the statements. -/
def policyContext (input : EvaluateAcceptanceInput) : Except ProtocolError PolicyContext := do
  let policy ← parseAcceptancePolicy input.policy
  let resource ← verifyAcceptancePolicyResource sha256 policy input.policyResource
  let proposal ← parseProposalStatement input.proposal
  let effect ← parseEffect input.effect
  let scope ← normalizedScope input.observationScope
  let effectDescriptor ← describeProtocolObject sha256 effect
  let about ← canonicalEqual ((proposal.member "subjects").items.headD .null) effectDescriptor.value
  if !about then
    throw (schemaError (js "Proposal must subject the supplied Effect")
      (js "$.proposal.subjects[0]"))
  let proposalDescriptor ← describeProtocolObject sha256 proposal
  return ⟨policy, resource, proposal, proposalDescriptor, scope,
    ⟨effectDescriptor.value, effect.member "result", proposalDescriptor.value⟩⟩

/-- `policyFacts(input)`, from its context. -/
def policyFacts (context : PolicyContext) (input : EvaluateAcceptanceInput) :
    Except ProtocolError EvaluationFacts := do
  let collected ← collect sha256 context.policy context.subjects input.statements
  let acceptable ← acceptableOf context.policy context.subjects.result collected
  let actorAuthorizedToDecide ← hasAuthority context.policy.decide input.actorContext
  let actorAuthorizedToOverride ← hasAuthority context.policy.override input.actorContext
  return {
    actorAuthorizedToDecide := actorAuthorizedToDecide
    actorAuthorizedToOverride := actorAuthorizedToOverride
    actorIsProposer := sameActor (context.proposal.member "actor") input.actorContext.actor.value
    considered := sortDescriptors collected.considered
    policyFailures := policyFailures context.policy context.proposal context.scope acceptable }

/-! ## The verdict -/

/-- `authorizationFailures(outcome, policy, facts)`. -/
def authorizationFailures (outcome : RequestedDecisionOutcome) (policy : AcceptancePolicy)
    (facts : EvaluationFacts) : List PolicyFailure :=
  (if outcome = .overridden then
    if !facts.actorAuthorizedToOverride then [{
      code := .unauthorizedOverride
      path := js "$.actorContext"
      message := js "The authenticated actor is not authorized to override this policy"
      overrideable := false }]
    else []
  else if !facts.actorAuthorizedToDecide then [{
      code := .unauthorizedDecision
      path := js "$.actorContext"
      message := js "The authenticated actor is not authorized to decide under this policy"
      overrideable := false }]
  else []) ++
  if outcome ≠ .rejected ∧ facts.actorIsProposer = true ∧ policy.allowSelfApproval = false then [{
      code := .selfApprovalForbidden
      path := js "$.actorContext.actor"
      message := js "Policy forbids a proposer from accepting or overriding its own Proposal"
      overrideable := false }]
  else []

/-- Whether a rationale is authored and not blank. -/
def StringClaim.isAuthored : StringClaim → Bool
  | .made .authored value _ => decide (0 < (trim value).length)
  | _ => false

/-- `overrideRationaleFailure(outcome, rationale)`. -/
def overrideRationaleFailure (outcome : RequestedDecisionOutcome) (rationale : StringClaim) :
    List PolicyFailure :=
  if outcome ≠ .overridden ∨ rationale.isAuthored = true then []
  else [{
    code := .invalidOverrideRationale
    path := js "$.rationale"
    message := js "Override requires a non-empty rationale authored by the Decision actor"
    overrideable := false }]

/-- `permittedForOutcome(outcome, failures)`. -/
def permittedForOutcome (outcome : RequestedDecisionOutcome) (failures : List PolicyFailure) :
    Bool :=
  match outcome with
  | .rejected => !failures.any fun failure => decide (failure.code = .unauthorizedDecision)
  | .accepted => failures.isEmpty
  | .overridden => !failures.isEmpty && failures.all PolicyFailure.overrideable

/-- `evaluateAcceptance(input)`. -/
def evaluateAcceptance (input : EvaluateAcceptanceInput) :
    Except ProtocolError PolicyEvaluation := do
  let context ← policyContext sha256 input
  let facts ← policyFacts sha256 context input
  let failures := facts.policyFailures ++
    authorizationFailures input.outcome context.policy facts ++
    overrideRationaleFailure input.outcome input.rationale
  return {
    permitted := permittedForOutcome input.outcome failures
    requestedOutcome := input.outcome
    actor := input.actorContext.actor
    proposal := context.proposalDescriptor
    policy := context.resource
    considered := facts.considered
    rationale := input.rationale
    failures := failures }

end

end T3x.Decision
