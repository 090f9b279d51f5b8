import T3x.Interleave
import T3x.Js.Shape
import T3x.Storage.Objects

/-!
# Transition requests

A request for a transition, a statement about one, and the result of a command on
one are stored under the identity of the request. Each call looks for what is
stored first, writes in one transaction that leaves taken identities alone, and
reads back what is stored then.
-/

namespace T3x.Storage

open Js T3x.Transition Interleave

/-! ## Rows -/

/-- `ActorRef`. -/
structure ActorRef where
  /-- The kind. -/
  kind : JsString
  /-- The name. -/
  id : JsString
  deriving DecidableEq

/-- `TRANSITION_REQUEST_KINDS`. -/
inductive TransitionRequestKind where
  | structuredYops
  | exactSourceImport
  | exactSourceEdit
  | exactSourceRevert
  deriving DecidableEq

/-- What a request for a transition says: the columns that `proposalFactsEqual` compares. -/
structure ProposalFacts where
  /-- The project. -/
  projectId : JsString
  /-- The workspace. -/
  workspaceId : JsString
  /-- The revision of the workspace. -/
  workspaceRevision : ℤ
  /-- The reference. -/
  refName : JsString
  /-- Its head. -/
  refHead : Option JsString
  /-- The digest of the Proposal. -/
  proposalDigest : JsString
  /-- The digest of the Effect. -/
  effectDigest : JsString
  /-- The kind of the request. -/
  requestKind : TransitionRequestKind
  /-- The canonical text of the request. -/
  requestCanonicalJson : JsString
  /-- The digest of that text. -/
  requestDigest : JsString
  /-- The actor. -/
  actor : ActorRef
  /-- The name of the request. -/
  requestId : JsString
  deriving DecidableEq

/-- A row of `transition_proposal_memberships`. -/
structure ProposalRow where
  /-- The transition, the primary key. -/
  transitionId : JsString
  /-- What the request says. -/
  facts : ProposalFacts
  /-- When the row was written. -/
  createdAt : ℤ
  deriving DecidableEq

/-- A row of `transition_proposal_preparations`. -/
structure PreparationRow where
  /-- The transition, the primary key. -/
  transitionId : JsString
  /-- The canonical text of the preparation. -/
  canonicalJson : JsString
  /-- The digest of that text. -/
  digest : JsString
  /-- When the row was written. -/
  createdAt : ℤ
  deriving DecidableEq

/-- What a statement membership says: the columns that `statementFactsEqual` compares. -/
structure StatementFacts where
  /-- The transition. -/
  transitionId : JsString
  /-- The digest of the Statement. -/
  statementDigest : JsString
  /-- The source. -/
  source : JsString
  /-- The issuer. -/
  issuer : ActorRef
  /-- The name of the request. -/
  requestId : JsString
  /-- The digest of the request. -/
  requestDigest : JsString
  deriving DecidableEq

/-- A row of `transition_statement_memberships`. -/
structure StatementRow where
  /-- What the membership says. -/
  facts : StatementFacts
  /-- When the row was written. -/
  createdAt : ℤ
  deriving DecidableEq

/-- `TransitionCommandAction`. -/
inductive TransitionCommandAction where
  | decide
  | commit
  deriving DecidableEq

/-- `TransitionCommandResultKind`. -/
inductive TransitionCommandResultKind where
  | decision
  | commit
  deriving DecidableEq

/-- `RecordTransitionCommandReceiptInput`, the columns that `sameReceipt` compares. -/
structure ReceiptFacts where
  /-- The transition. -/
  transitionId : JsString
  /-- The project. -/
  projectId : JsString
  /-- The action. -/
  action : TransitionCommandAction
  /-- The actor. -/
  actor : ActorRef
  /-- The name of the request. -/
  requestId : JsString
  /-- The digest of the request. -/
  requestDigest : JsString
  /-- The kind of the result. -/
  resultKind : TransitionCommandResultKind
  /-- The digest of the result. -/
  resultDigest : JsString
  deriving DecidableEq

/-- A row of `transition_command_receipts`. -/
structure ReceiptRow where
  /-- What the receipt says. -/
  facts : ReceiptFacts
  /-- When the row was written. -/
  createdAt : ℤ
  deriving DecidableEq

/-- The committed rows. -/
structure RequestStore where
  /-- The protocol objects. -/
  objects : List ObjectRow
  /-- The transitions. -/
  proposals : List ProposalRow
  /-- Their preparations. -/
  preparations : List PreparationRow
  /-- The statements about them. -/
  statements : List StatementRow
  /-- The results of commands on them. -/
  receipts : List ReceiptRow

/-! ## Keys -/

/-- The identity of a request for a transition, a unique index. -/
def ProposalRow.request (row : ProposalRow) : JsString × ActorRef × JsString :=
  (row.facts.projectId, row.facts.actor, row.facts.requestId)

/-- The primary key of a statement membership. -/
def StatementFacts.statement (facts : StatementFacts) : JsString × JsString :=
  (facts.transitionId, facts.statementDigest)

/-- The identity of a request for a statement, a unique index. -/
def StatementFacts.request (facts : StatementFacts) : JsString × JsString × ActorRef × JsString :=
  (facts.transitionId, facts.source, facts.issuer, facts.requestId)

/-- The primary key of a receipt. -/
def ReceiptFacts.request (facts : ReceiptFacts) : JsString × JsString × ActorRef × JsString :=
  (facts.projectId, facts.transitionId, facts.actor, facts.requestId)

/-! ## Errors -/

/-- `TransitionMembershipNotFoundError`. -/
def membershipNotFound (transitionId : JsString) : StorageError :=
  .failure (js "TRANSITION_NOT_FOUND")
    (js "Transition " ++ transitionId ++ js " was not found in this project")

/-- `TransitionRequestConflictError`. -/
def requestConflict (requestId : JsString) : StorageError :=
  .failure (js "TRANSITION_REQUEST_CONFLICT")
    (js "Transition request " ++ requestId ++ js " was already used with different facts")

/-- `TransitionStatementConflictError`. -/
def statementConflict (requestId : JsString) : StorageError :=
  .failure (js "TRANSITION_STATEMENT_CONFLICT") (js "Transition Statement request " ++ requestId ++
    js " conflicts with stored issuer facts")

/-- `TransitionMembershipIntegrityError` and `TransitionCommandIntegrityError`, which share their
code. -/
def integrityInvalid (message : JsString) : StorageError :=
  .failure (js "INTEGRITY_CHAIN_INVALID") message

/-- `TransitionCommandConflictError`. -/
def commandConflict (requestId : JsString) : StorageError :=
  .failure (js "TRANSITION_COMMAND_CONFLICT")
    (js "Transition command " ++ requestId ++ js " was already used with different facts")

/-- A check that throws a `TypeError`. -/
def requireType (holds : Bool) (message : String) : Except StorageError Unit :=
  if holds then .ok () else .error (.typeError (js message))

/-- A check that throws an integrity error. -/
def requireIntegrity (holds : Bool) (message : String) : Except StorageError Unit :=
  if holds then .ok () else .error (integrityInvalid (js message))

/-- Whether an actor is one of the three kinds and has a name. -/
def isActor (actor : ActorRef) : Bool :=
  [js "human", js "agent", js "service"].contains actor.kind && trim actor.id ≠ []

/-- `assertActor(actor, field)`. -/
def assertActor (actor : ActorRef) (field : String) : Except StorageError Unit :=
  if isActor actor then .ok ()
  else .error (.typeError (js field ++ js " requires a valid authenticated actor"))

/-- `sameActor(left, right)`, of the actor of an object and one of a row. -/
def sameActor (left : JsValue) (right : ActorRef) : Bool :=
  part left "kind" = .str right.kind && part left "id" = .str right.id

/-- `isCorePredicateType`. -/
def isCorePredicateType (statement : JsValue) : Bool :=
  part statement "predicateType" = .str proposalPredicateType ||
    part statement "predicateType" = .str decisionPredicateType

section

-- The hexadecimal digits of a SHA-256 hash.
variable (sha256 : List UInt8 → JsString)

/-- `digestTransitionRequestCanonicalJson`. -/
def digestTransitionRequestCanonicalJson (canonicalJson : JsString) : JsString :=
  js "sha256:" ++ sha256 (encodeUtf8 (js "t3x-transition-request-v1" ++ 0 :: canonicalJson))

/-- `digestTransitionPreparationCanonicalJson`. -/
def digestTransitionPreparationCanonicalJson (canonicalJson : JsString) : JsString :=
  js "sha256:" ++ sha256 (encodeUtf8 (js "t3x-transition-preparation-v1" ++ 0 :: canonicalJson))

/-- `describeTransitionObject(object)`. -/
def describeTransitionObject (object : JsValue) : Except StorageError ObjectDescriptor :=
  ofProtocol (describeProtocolObject sha256 object)

/-! ## Reading rows -/

/-- `findTransitionProposalByRequest(db, input)`. -/
def findTransitionProposalByRequest (s : RequestStore) (projectId : JsString) (actor : ActorRef)
    (requestId : JsString) : Option ProposalRow :=
  s.proposals.find? fun row => row.request = (projectId, actor, requestId)

/-- `getTransitionProposalPreparation(db, transitionId)`. -/
def getTransitionProposalPreparation (s : RequestStore) (transitionId : JsString) :
    Option PreparationRow :=
  s.preparations.find? fun row => row.transitionId = transitionId

/-- `getTransitionProposalMembership(db, projectId, transitionId)`. -/
def getTransitionProposalMembership (s : RequestStore) (projectId transitionId : JsString) :
    Option ProposalRow :=
  s.proposals.find? fun row =>
    row.facts.projectId = projectId && row.transitionId = transitionId

/-- The statement memberships of a transition, by digest. -/
def statementsOf (s : RequestStore) (transitionId : JsString) : List StatementRow :=
  sortBy (fun left right => compareCodeUnits left.facts.statementDigest right.facts.statementDigest)
    (s.statements.filter fun row => row.facts.transitionId = transitionId)

/-- `listTransitionStatementMemberships(db, projectId, transitionId)`. -/
def listTransitionStatementMemberships (projectId transitionId : JsString) :
    Prog RequestStore StorageError (List StatementRow) := do
  let membership ← .query fun s => getTransitionProposalMembership s projectId transitionId
  match membership with
  | none => .fail (membershipNotFound transitionId)
  | some _ => .query fun s => statementsOf s transitionId

/-- `loadObject(db, descriptor)`. -/
def loadObject (descriptor : JsValue) : Prog RequestStore StorageError JsValue := do
  let digest := (part descriptor "digest").text
  let stored ← .query fun s => findObject s.objects digest
  match stored with
  | none => .fail (integrityInvalid (js "Object " ++ digest ++ js " is missing"))
  | some row =>
    let object ← .lift (parseSerializedTransitionObject row.canonicalJson)
    let actual ← .lift (describeTransitionObject sha256 object)
    if part descriptor "kind" ≠ .str row.kind ∨ part descriptor "schema" ≠ .str row.schema ∨
        descriptorsEqual actual.value descriptor = false then
      .fail (integrityInvalid (js "Object " ++ digest ++ js " failed verification"))
    return object

/-- `ResolvedTransitionProposalGraph`, without observations. -/
structure ProposalGraph where
  /-- The membership. -/
  membership : ProposalRow
  /-- The preparation. -/
  preparation : Option PreparationRow
  /-- The State that the Effect starts from. -/
  base : JsValue
  /-- The State that it leads to. -/
  result : JsValue
  /-- The Effect. -/
  effect : JsValue
  /-- The Proposal. -/
  proposal : JsValue

/-- The checks on the facts of a stored membership. -/
def checkMembership (membership : ProposalRow) : Except StorageError Unit := do
  let facts := membership.facts
  requireIntegrity (isActor facts.actor) "Stored Proposal actor is invalid"
  requireIntegrity
    (trim facts.workspaceId ≠ [] && trim facts.refName ≠ [] && trim facts.requestId ≠ [] &&
      1 ≤ facts.workspaceRevision && digestPattern facts.requestDigest &&
      digestTransitionRequestCanonicalJson sha256 facts.requestCanonicalJson =
        facts.requestDigest)
    "Stored Proposal membership facts are invalid"

/-- The checks on a stored preparation. -/
def checkPreparation (preparation : Option PreparationRow) : Except StorageError Unit :=
  requireIntegrity
    (preparation.all fun row => digestPattern row.digest &&
      digestTransitionPreparationCanonicalJson sha256 row.canonicalJson = row.digest)
    "Stored Proposal preparation facts are invalid"

/-- The checks on the Proposal of a membership. -/
def checkProposal (membership : ProposalRow) (proposal : JsValue) : Except StorageError Unit := do
  requireIntegrity (part proposal "schema" = .str statementSchema &&
      part proposal "predicateType" = .str proposalPredicateType)
    "Membership Proposal is not a core Proposal"
  requireIntegrity (sameActor (part proposal "actor") membership.facts.actor)
    "Stored Proposal actor does not match membership"
  requireIntegrity ((parts proposal "subjects").length = 1 &&
      part ((parts proposal "subjects").headD .null) "digest" = .str membership.facts.effectDigest)
    "Stored Proposal does not bind membership Effect"

/-- `resolveTransitionProposalGraph(db, projectId, transitionId, false)`. -/
def resolveTransitionProposalGraph (projectId transitionId : JsString) :
    Prog RequestStore StorageError ProposalGraph := do
  let found ← .query fun s => getTransitionProposalMembership s projectId transitionId
  match found with
  | none => .fail (membershipNotFound transitionId)
  | some membership =>
    .lift (checkMembership sha256 membership)
    let preparation ← .query fun s => getTransitionProposalPreparation s transitionId
    .lift (checkPreparation sha256 preparation)
    let proposal ← loadObject sha256 (.obj [(js "kind", .str (js "statement")),
      (js "schema", .str statementSchema), (js "digest", .str membership.facts.proposalDigest)])
    .lift (checkProposal membership proposal)
    let effect ← loadObject sha256 ((parts proposal "subjects").headD .null)
    .lift (requireIntegrity (part effect "schema" = .str effectSchema)
      "Membership Effect has the wrong schema")
    let base ← loadObject sha256 (part effect "base")
    let result ← loadObject sha256 (part effect "result")
    .lift (requireIntegrity (part base "schema" = .str stateSchema &&
      part result "schema" = .str stateSchema) "Membership Effect State graph is invalid")
    return ⟨membership, preparation, base, result, effect, proposal⟩

/-! ## Proposals -/

/-- `CreateTransitionProposalMembershipInput`. -/
structure CreateTransitionProposalMembershipInput where
  /-- The project. -/
  projectId : JsString
  /-- The workspace. -/
  workspaceId : JsString
  /-- The revision of the workspace. -/
  workspaceRevision : ℤ
  /-- The reference. -/
  refName : JsString
  /-- Its head. -/
  refHead : Option JsString
  /-- The kind of the request. -/
  requestKind : TransitionRequestKind
  /-- The canonical text of the request. -/
  requestCanonicalJson : JsString
  /-- The digest of that text. -/
  requestDigest : JsString
  /-- The canonical text of the preparation. -/
  preparationCanonicalJson : Option JsString
  /-- The digest of that text. -/
  preparationDigest : Option JsString
  /-- The name of the request. -/
  requestId : JsString
  /-- The actor. -/
  actor : ActorRef
  /-- The State that the Effect starts from. -/
  base : JsValue
  /-- The State that it leads to. -/
  result : JsValue
  /-- The Effect. -/
  effect : JsValue
  /-- The Proposal. -/
  proposal : JsValue

/-- `assertProposalGraph(input)`. -/
def assertProposalGraph (input : CreateTransitionProposalMembershipInput) :
    Except StorageError Unit := do
  assertActor input.actor "actor"
  requireType (1 ≤ input.workspaceRevision) "workspaceRevision must be a positive integer"
  requireType (trim input.requestId ≠ []) "requestId must be non-empty"
  requireType (digestPattern input.requestDigest) "requestDigest is invalid"
  requireType (digestTransitionRequestCanonicalJson sha256 input.requestCanonicalJson =
    input.requestDigest) "requestDigest does not match the canonical request bytes"
  requireType (input.preparationCanonicalJson.isNone = input.preparationDigest.isNone)
    "preparation canonical bytes and digest must be supplied together"
  requireType (input.preparationCanonicalJson.all fun text =>
      some (digestTransitionPreparationCanonicalJson sha256 text) = input.preparationDigest)
    "preparationDigest does not match the canonical preparation bytes"
  let effect ← describeTransitionObject sha256 input.effect
  let proposal ← describeTransitionObject sha256 input.proposal
  requireIntegrity (part input.proposal "predicateType" = .str proposalPredicateType &&
      (parts input.proposal "subjects").length = 1 &&
      descriptorsEqual ((parts input.proposal "subjects").headD .null) effect.value)
    "Proposal does not bind the supplied Effect"
  requireIntegrity (sameActor (part input.proposal "actor") input.actor)
    "Proposal actor does not match authenticated actor"
  let base ← describeTransitionObject sha256 input.base
  requireIntegrity (descriptorsEqual (part input.effect "base") base.value)
    "Effect Base does not match the supplied State"
  let result ← describeTransitionObject sha256 input.result
  requireIntegrity (descriptorsEqual (part input.effect "result") result.value)
    "Effect Result does not match the supplied State"
  requireIntegrity (proposal.digest ≠ []) "Proposal identity is empty"

/-- What the request says, as it is stored and compared. -/
def proposalFacts (input : CreateTransitionProposalMembershipInput) :
    Except StorageError ProposalFacts := do
  let proposal ← describeTransitionObject sha256 input.proposal
  let effect ← describeTransitionObject sha256 input.effect
  return {
    projectId := input.projectId
    workspaceId := input.workspaceId
    workspaceRevision := input.workspaceRevision
    refName := input.refName
    refHead := input.refHead
    proposalDigest := proposal.digest
    effectDigest := effect.digest
    requestKind := input.requestKind
    requestCanonicalJson := input.requestCanonicalJson
    requestDigest := input.requestDigest
    actor := input.actor
    requestId := input.requestId }

/-- `preparationFactsEqual(row, input)`. -/
def preparationFactsEqual (row : Option PreparationRow)
    (input : CreateTransitionProposalMembershipInput) : Bool :=
  match input.preparationCanonicalJson with
  | none => row.isNone
  | some text => row.any fun row =>
      row.canonicalJson = text && some row.digest = input.preparationDigest

/-- The insertion of a membership and its preparation, which leaves taken keys alone. -/
def insertProposal (row : ProposalRow) (preparation : Option (JsString × JsString))
    (s : RequestStore) : RequestStore :=
  if s.proposals.any fun old =>
      old.transitionId = row.transitionId || old.request = row.request then s
  else
    let stored := { s with proposals := s.proposals ++ [row] }
    match preparation with
    | none => stored
    | some (canonicalJson, digest) =>
      if s.preparations.any fun old => old.transitionId = row.transitionId then stored
      else { stored with preparations :=
        s.preparations ++ [⟨row.transitionId, canonicalJson, digest, row.createdAt⟩] }

/-- The text and the digest of the preparation, where both are given. -/
def preparationOf (input : CreateTransitionProposalMembershipInput) :
    Option (JsString × JsString) :=
  match input.preparationCanonicalJson, input.preparationDigest with
  | some text, some digest => some (text, digest)
  | _, _ => none

/-- The transaction of `createTransitionProposalMembership`. -/
def proposalTransaction (input : CreateTransitionProposalMembershipInput) (row : ProposalRow)
    (s : RequestStore) : Except StorageError (Unit × RequestStore) := do
  let objects ← persistTransitionObjects sha256
    [input.base, input.result, input.effect, input.proposal] s.objects
  return ((), insertProposal row (preparationOf input) { s with objects := objects })

/-- The comparison of a stored membership and its preparation with the request. -/
def compareProposal (facts : ProposalFacts) (input : CreateTransitionProposalMembershipInput)
    (stored : ProposalRow) (reused : Bool) :
    Prog RequestStore StorageError (ProposalRow × Bool) := do
  let preparation ← .query fun s => getTransitionProposalPreparation s stored.transitionId
  if stored.facts ≠ facts ∨ preparationFactsEqual preparation input = false then
    .fail (requestConflict input.requestId)
  return (stored, reused)

/-- `createTransitionProposalMembership(db, input)`, with the name and the time that a new row
would have. -/
def createTransitionProposalMembership (transitionId : JsString) (now : ℤ)
    (input : CreateTransitionProposalMembershipInput) :
    Prog RequestStore StorageError (ProposalRow × Bool) := do
  .lift (assertProposalGraph sha256 input)
  let facts ← .lift (proposalFacts sha256 input)
  let existing ← .query fun s =>
    findTransitionProposalByRequest s input.projectId input.actor input.requestId
  match existing with
  | some row => compareProposal facts input row true
  | none =>
    .atomically (proposalTransaction sha256 input ⟨transitionId, facts, now⟩)
    let found ← .query fun s =>
      findTransitionProposalByRequest s input.projectId input.actor input.requestId
    match found with
    | none => .fail (integrityInvalid (js "Proposal membership vanished"))
    | some stored => compareProposal facts input stored (stored.transitionId ≠ transitionId)

/-! ## Statements -/

/-- `RecordTransitionStatementMembershipInput`. -/
structure RecordTransitionStatementMembershipInput where
  /-- The project. -/
  projectId : JsString
  /-- The transition. -/
  transitionId : JsString
  /-- The Statement. -/
  statement : JsValue
  /-- The source. -/
  source : JsString
  /-- The issuer. -/
  issuer : ActorRef
  /-- The name of the request. -/
  requestId : JsString
  /-- The digest of the request. -/
  requestDigest : JsString

/-- What a membership of the Statement says, as it is stored and compared. -/
def statementFacts (input : RecordTransitionStatementMembershipInput) :
    Except StorageError StatementFacts := do
  let statement ← describeTransitionObject sha256 input.statement
  return ⟨input.transitionId, statement.digest, input.source, input.issuer, input.requestId,
    input.requestDigest⟩

/-- `assertStatementMembershipInput(graph, input)`. -/
def assertStatementMembershipInput (graph : ProposalGraph)
    (input : RecordTransitionStatementMembershipInput) : Except StorageError Unit := do
  assertActor input.issuer "issuer"
  requireType (trim input.source ≠ [] && trim input.requestId ≠ [])
    "Statement source and requestId must be non-empty"
  requireType (digestPattern input.requestDigest) "requestDigest is invalid"
  requireIntegrity (sameActor (part input.statement "actor") input.issuer)
    "Statement claimed actor does not match authenticated issuer"
  requireIntegrity (!isCorePredicateType input.statement)
    "Proposal and Decision predicates cannot enter external Statement membership"
  let effect ← describeTransitionObject sha256 graph.effect
  let proposal ← describeTransitionObject sha256 graph.proposal
  let allowedSubjects := [effect.value, part graph.effect "result", proposal.value]
  let subjects := parts input.statement "subjects"
  requireIntegrity (subjects ≠ [] && subjects.all fun subject =>
      allowedSubjects.any fun allowed => descriptorsEqual subject allowed)
    "Statement subjects must belong to the project-scoped Transition graph"

/-- The text that tells the requests of a batch apart. -/
def requestKey (facts : StatementFacts) : JsString :=
  facts.source ++ 0 :: (facts.issuer.kind ++ 0 :: (facts.issuer.id ++ 0 :: facts.requestId))

/-- The stored membership that a request of the batch repeats, if any. -/
def reusedStatement (current : List StatementRow) (facts : StatementFacts) :
    Except StorageError (Option StatementRow) :=
  let sameDigest := current.find? fun row => row.facts.statementDigest = facts.statementDigest
  let sameRequest := current.find? fun row => row.facts.source = facts.source &&
    row.facts.issuer = facts.issuer && row.facts.requestId = facts.requestId
  if (sameDigest.any fun row => row.facts ≠ facts) || sameRequest.any fun row => row.facts ≠ facts
  then .error (statementConflict facts.requestId)
  else .ok (sameDigest.or sameRequest)

/-- `verifyStoredBatch(stored)`, with the memberships that it finds. -/
def verifyStoredBatch (batch : List StatementFacts) (stored : List StatementRow) :
    Except StorageError (List StatementRow) :=
  batch.mapM fun facts =>
    match stored.find? fun row => row.facts.statementDigest = facts.statementDigest with
    | none => .error (statementConflict facts.requestId)
    | some membership =>
      if membership.facts = facts then .ok membership
      else .error (statementConflict facts.requestId)

/-- The insertion of a statement membership, which leaves taken keys alone. -/
def insertStatement (now : ℤ) (statements : List StatementRow) (facts : StatementFacts) :
    List StatementRow :=
  if statements.any fun old => old.facts.statement = facts.statement ||
      old.facts.request = facts.request then statements
  else statements ++ [⟨facts, now⟩]

/-- The transaction of `recordTransitionStatementMemberships`. -/
def statementTransaction (now : ℤ) (projectId transitionId : JsString)
    (batch : List StatementFacts) (pending : List (JsValue × StatementFacts)) (s : RequestStore) :
    Except StorageError (List StatementRow × RequestStore) := do
  let objects ← persistTransitionObjects sha256 (pending.map Prod.fst) s.objects
  let statements := (pending.map Prod.snd).foldl (insertStatement now) s.statements
  let written := { s with objects := objects, statements := statements }
  match getTransitionProposalMembership written projectId transitionId with
  | none => throw (membershipNotFound transitionId)
  | some _ =>
    let memberships ← verifyStoredBatch batch (statementsOf written transitionId)
    return (memberships, written)

/-- `recordTransitionStatementMemberships(db, inputs)`, with the time that new rows would have. -/
def recordTransitionStatementMemberships (now : ℤ)
    (inputs : List RecordTransitionStatementMembershipInput) :
    Prog RequestStore StorageError (List (StatementRow × Bool)) :=
  match inputs with
  | [] => pure []
  | first :: _ => do
    .lift (requireType (inputs.all fun input =>
        input.projectId = first.projectId && input.transitionId = first.transitionId)
      "Statement membership batches require one project-scoped Transition")
    let graph ← resolveTransitionProposalGraph sha256 first.projectId first.transitionId
    .lift (inputs.forM (assertStatementMembershipInput sha256 graph))
    let batch ← .lift (inputs.mapM (statementFacts sha256))
    .lift (requireType (decide (batch.map StatementFacts.statementDigest).Nodup &&
        decide (batch.map requestKey).Nodup)
      "Statement membership batches cannot repeat a Statement or issuer request")
    let current ← listTransitionStatementMemberships first.projectId first.transitionId
    let reused ← .lift (batch.mapM (reusedStatement current))
    let pending := (((inputs.map fun input => input.statement).zip batch).zip reused).filterMap
      fun entry => if entry.2.isNone then some entry.1 else none
    let store := statementTransaction sha256 now first.projectId first.transitionId batch pending
    let memberships ←
      if pending = [] then .lift (verifyStoredBatch batch current) else .atomically store
    return memberships.zip (reused.map Option.isSome)

/-! ## Receipts -/

/-- `receipt(row)`: what is read is checked. -/
def readReceipt (row : ReceiptRow) : Except StorageError ReceiptRow :=
  if [js "human", js "agent", js "service"].contains row.facts.actor.kind &&
      digestPattern row.facts.requestDigest && digestPattern row.facts.resultDigest then .ok row
  else .error (integrityInvalid (js "Stored Transition command " ++ row.facts.requestId ++
    js " has invalid trusted facts"))

/-- `findTransitionCommandReceipt(db, input)`. -/
def findTransitionCommandReceipt (input : ReceiptFacts) :
    Prog RequestStore StorageError (Option ReceiptRow) := do
  let found ← .query fun s => s.receipts.find? fun row => row.facts.request = input.request
  match found with
  | none => return none
  | some row =>
    let receipt ← .lift (readReceipt row)
    return some receipt

/-- `assertInput(input)`. -/
def assertReceiptInput (input : ReceiptFacts) : Except StorageError Unit := do
  requireType (input.transitionId ≠ [] && input.projectId ≠ [] && isActor input.actor &&
      trim input.requestId ≠ [] && digestPattern input.requestDigest &&
      digestPattern input.resultDigest) "Transition command receipt input is invalid"
  requireType (match input.action with
    | .decide => input.resultKind = .decision
    | .commit => input.resultKind = .commit)
    "Transition command action and result kind do not match"

/-- `assertResultObject(db, input)`, on the stored object. -/
def checkResultObject (input : ReceiptFacts) (stored : Option ObjectRow) :
    Except StorageError Unit := do
  match stored with
  | none => throw (integrityInvalid (js "Transition command result " ++ input.resultDigest ++
      js " does not exist"))
  | some row =>
    let object ← parseSerializedTransitionObject row.canonicalJson
    let valid : Bool := match input.resultKind with
      | .decision => part object "schema" = .str statementSchema &&
          part object "predicateType" = .str decisionPredicateType
      | .commit => part object "schema" = .str commitV2Schema
    if valid then return ()
    else throw (integrityInvalid (js "Transition command result " ++ input.resultDigest ++
      js " has the wrong protocol type"))

/-- The insertion of a receipt, which leaves a taken key alone. -/
def insertReceipt (row : ReceiptRow) (s : RequestStore) : RequestStore :=
  if s.receipts.any fun old => old.facts.request = row.facts.request then s
  else { s with receipts := s.receipts ++ [row] }

/-- `recordTransitionCommandReceipt(db, input)`, with the time that a new row would have. -/
def recordTransitionCommandReceipt (now : ℤ) (input : ReceiptFacts) :
    Prog RequestStore StorageError (ReceiptRow × Bool) := do
  .lift (assertReceiptInput input)
  let membership ← .query fun s =>
    getTransitionProposalMembership s input.projectId input.transitionId
  if membership.isNone then
    .fail (integrityInvalid (js "Transition " ++ input.transitionId ++
      js " is not a member of project " ++ input.projectId))
  let prior ← findTransitionCommandReceipt input
  match prior with
  | some receipt =>
    if receipt.facts ≠ input then .fail (commandConflict input.requestId)
    return (receipt, true)
  | none =>
    let object ← .query fun s => findObject s.objects input.resultDigest
    .lift (checkResultObject input object)
    .atomically fun s => .ok ((), insertReceipt ⟨input, now⟩ s)
    let stored ← findTransitionCommandReceipt input
    match stored with
    | none => .fail (commandConflict input.requestId)
    | some receipt =>
      if receipt.facts ≠ input then .fail (commandConflict input.requestId)
      return (receipt, false)

end

end T3x.Storage
