import T3x.Decision.Recording
import T3x.Repository.Store

/-!
# Decisions that are recorded and authorized

Recording writes the objects of a record that the trusted service issued, and its facts,
once for a Decision; an authorization is written in the same transaction as the record.
-/

namespace T3x.Repository

open Js T3x.Transition T3x.Storage
open Decision (ObservationScope PolicyEvaluation StatementObservation)

/-- `RepositoryDecisionRecord`. -/
structure RepositoryDecisionRecord where
  /-- The project. -/
  projectId : JsString
  /-- The ref. -/
  refName : JsString
  /-- The Decision. -/
  decision : JsValue
  /-- Its evaluation. -/
  evaluation : PolicyEvaluation
  /-- What was observed. -/
  observationScope : ObservationScope
  /-- The considered Statements with their issuers. -/
  observations : List StatementObservation
  /-- The objects of the graph. -/
  objects : List JsValue

section

variable (sha256 : List UInt8 → JsString)

/-- The text of a member of a resource. -/
def resourceText (resource : JsValue) (key : String) : JsString :=
  match part resource key with
  | .str text => text
  | _ => []

/-- `statementIssuers(record)`. -/
def statementIssuers (record : RepositoryDecisionRecord) :
    Except StorageError (List StoredStatementIssuer) := do
  let issuers ← record.observations.mapM fun observation => do
    let statement ← ofProtocol (describeProtocolObject sha256 observation.statement)
    return (⟨statement, observation.issuerContext.actor⟩ : StoredStatementIssuer)
  return sortBy (fun left right =>
    compareCodeUnits left.statement.digest right.statement.digest) issuers

/-- `decisionFacts(record)`. -/
def decisionFacts (record : RepositoryDecisionRecord) :
    Except StorageError StoredDecisionFacts := do
  let serialized ← serializeTransitionObject sha256 record.decision
  let issuers ← statementIssuers sha256 record
  return {
    projectId := record.projectId
    refName := record.refName
    decisionDigest := serialized.digest
    policyUri := resourceText record.evaluation.policy "uri"
    policyDigest := resourceText record.evaluation.policy "digest"
    actorKind := record.evaluation.actor.kind.text
    actorId := record.evaluation.actor.id
    outcome := record.evaluation.requestedOutcome.text
    observationScope := record.observationScope
    statementIssuers := issuers }

/-- Facts are inserted unless their key is taken, and compared with what is stored. -/
def insertFacts (key : StoredDecisionFacts → StoredDecisionFacts → Bool)
    (conflict : JsString → StorageError) (facts : StoredDecisionFacts)
    (stored : List StoredDecisionFacts) : Except StorageError (List StoredDecisionFacts) :=
  match stored.find? (key facts) with
  | none => .ok (stored ++ [facts])
  | some row => if row = facts then .ok stored else .error (conflict facts.decisionDigest)

/-- Facts of one Decision. -/
def sameDecision (left right : StoredDecisionFacts) : Bool :=
  decide (right.decisionDigest = left.decisionDigest)

/-- Facts of one Decision for one ref. -/
def sameAuthorization (left right : StoredDecisionFacts) : Bool :=
  decide (right.projectId = left.projectId) && decide (right.refName = left.refName) &&
    decide (right.decisionDigest = left.decisionDigest)

/-- `recordDecisionLedger(tx, record)`. -/
def recordDecisionLedger (record : RepositoryDecisionRecord) (s : Store) :
    Except StorageError Store := do
  let facts ← decisionFacts sha256 record
  let objects ← persistTransitionObjects sha256 record.objects s.objects
  let ledger ← insertFacts sameDecision decisionRecordConflict facts s.ledger
  return { s with
    objects := objects
    ledger := ledger }

/-- The transaction of `recordRepositoryDecisionAuthorization(db, authorization)`. -/
def recordAuthorization (record : RepositoryDecisionRecord) (s : Store) :
    Except StorageError Store := do
  let facts ← decisionFacts sha256 record
  let s ← recordDecisionLedger sha256 record s
  let authorizations ←
    insertFacts sameAuthorization decisionAuthorizationConflict facts s.authorizations
  return { s with authorizations := authorizations }

end

end T3x.Repository
