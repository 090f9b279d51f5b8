import T3x.Decision.Evaluation
import T3x.Storage.Objects

/-!
# The repository of a project

Commits are members of projects, and refs point to them. A ref advances from the
head that the writer expects to a commit whose first parent is that head, if the
Decision of the commit is authorized for the ref. Entries of the operations log
that a commit consumed are recorded beside it.
-/

namespace T3x.Repository

open Js T3x.Transition T3x.Storage

/-! ## Tables -/

/-- A row of `branches`. -/
structure BranchRow where
  /-- The identifier, the primary key. -/
  branchId : JsString
  /-- The project. -/
  projectId : JsString
  /-- The name, unique in the project. -/
  name : JsString
  /-- The branch that it was branched from. -/
  parentBranch : Option JsString
  /-- The digest of the commit that it points to. -/
  headCommitHash : Option JsString
  /-- The description. -/
  description : Option JsString
  /-- It is the current branch of the project. -/
  isCurrent : Bool
  deriving DecidableEq

/-- A row of `transition_commits`: the membership of a commit in a project. -/
structure CommitRow where
  /-- The project. -/
  projectId : JsString
  /-- The digest of the commit. -/
  digest : JsString
  /-- The media type. -/
  mediaType : JsString
  deriving DecidableEq

/-- `StoredStatementIssuer`: who issued a considered Statement. -/
structure StoredStatementIssuer where
  /-- The descriptor of the Statement. -/
  statement : ObjectDescriptor
  /-- The issuer. -/
  actor : Decision.ActorRef
  deriving DecidableEq

/-- `StoredDecisionFacts`: a row of `transition_decision_ledger`, and one of
`transition_decision_authorizations`. -/
structure StoredDecisionFacts where
  /-- The project. -/
  projectId : JsString
  /-- The ref. -/
  refName : JsString
  /-- The digest of the Decision. -/
  decisionDigest : JsString
  /-- The URI of the policy. -/
  policyUri : JsString
  /-- The digest of the policy. -/
  policyDigest : JsString
  /-- The kind of the actor who decided. -/
  actorKind : JsString
  /-- The identity of the actor who decided. -/
  actorId : JsString
  /-- The outcome. -/
  outcome : JsString
  /-- What was observed. -/
  observationScope : Decision.ObservationScope
  /-- The issuers of the considered Statements. -/
  statementIssuers : List StoredStatementIssuer
  deriving DecidableEq

/-- A row of `conversations`, as far as the log refers to it. -/
structure ConversationRow where
  /-- The identifier, the primary key. -/
  conversationId : JsString
  /-- The project. -/
  projectId : JsString
  deriving DecidableEq

/-- `InsertYOpsLogInput`. -/
structure InsertYOpsLogInput where
  /-- The conversation. -/
  conversationId : JsString
  /-- The project. -/
  projectId : JsString
  /-- The kind of the source. -/
  source : JsString
  /-- The turn. -/
  turnHash : Option JsString := none
  /-- The operations. -/
  yops : JsValue
  /-- The version in the conversation. -/
  version : Option ℤ := none
  /-- The state of the pipeline. -/
  pipelineState : Option JsString := none
  /-- The result of the gate. -/
  gateResultJson : Option JsValue := none
  /-- Further data. -/
  metadata : Option JsValue := none
  /-- The topic. -/
  topicId : Option JsString := none
  deriving DecidableEq

/-- A row of `yops_log`. -/
structure YOpsLogRow extends InsertYOpsLogInput where
  /-- The identifier, the primary key. -/
  id : JsString
  /-- When the entry was superseded. -/
  supersededAt : Option ℤ
  deriving DecidableEq

/-- A row of `transition_yops_log_consumptions`. -/
structure ConsumptionRow where
  /-- The project. -/
  projectId : JsString
  /-- The consumed entry; with the project, the primary key. -/
  yopsLogId : JsString
  /-- The commit that consumed it. -/
  commitDigest : JsString
  deriving DecidableEq

/-- A row of `events` of the type `branch.advanced`. -/
structure BranchAdvancedEvent where
  /-- The project. -/
  projectId : JsString
  /-- The ref that advanced. -/
  refName : JsString
  /-- The head before. -/
  previousHead : Option JsString
  /-- The head after. -/
  head : JsString
  deriving DecidableEq

/-- The tables, and the advisory locks of the projects with the sessions that hold them. -/
structure Store where
  /-- `transition_objects`. -/
  objects : List ObjectRow
  /-- `transition_commits`. -/
  commits : List CommitRow
  /-- `branches`. -/
  branches : List BranchRow
  /-- `transition_decision_ledger`. -/
  ledger : List StoredDecisionFacts
  /-- `transition_decision_authorizations`. -/
  authorizations : List StoredDecisionFacts
  /-- `conversations`. -/
  conversations : List ConversationRow
  /-- `yops_log`. -/
  yopsLog : List YOpsLogRow
  /-- `transition_yops_log_consumptions`. -/
  consumptions : List ConsumptionRow
  /-- `events`. -/
  events : List BranchAdvancedEvent
  /-- The locks that are held. -/
  locks : List (JsString × ℕ)

/-! ## Errors -/

/-- The text of a head in an error. -/
def headText (head : Option JsString) (missing : String) : JsString := head.getD (js missing)

/-- `TransitionParentHeadMismatchError`. -/
def parentHeadMismatch (expectedHead firstParent : Option JsString) : StorageError :=
  .failure (js "INTEGRITY_CHAIN_INVALID") (js "CommitV2 first parent " ++
    headText firstParent "<none>" ++ js " does not match expected ref head " ++
    headText expectedHead "<empty>")

/-- `TransitionParentProjectMembershipError`. -/
def parentProjectMembership (parentDigests : List JsString) : StorageError :=
  .failure (js "INTEGRITY_CHAIN_INVALID")
    (js "CommitV2 parents do not belong to this project: " ++
      (js ", ").intercalate parentDigests)

/-- `TransitionYOpsLogMembershipError`. -/
def yopsLogMembership (yopsLogIds : List JsString) : StorageError :=
  .failure (js "YOPS_LOG_MEMBERSHIP_INVALID")
    (js "YOps log entries do not belong to this project: " ++ (js ", ").intercalate yopsLogIds)

/-- `SupersededYOpsLogIdsError`, which has no code: its name stands in its place. -/
def supersededYOpsLogIds (ids : List JsString) : StorageError :=
  .failure (js "SupersededYOpsLogIdsError")
    (js "Cannot commit superseded yops_log entries (re-extract landed during commit): " ++
      (js ", ").intercalate ids)

/-- `TransitionYOpsLogAlreadyConsumedError`. -/
def yopsLogAlreadyConsumed (consumptions : List ConsumptionRow) : StorageError :=
  .failure (js "YOPS_LOG_ALREADY_CONSUMED") (js "YOps log entries were already consumed: " ++
    (js ", ").intercalate (consumptions.map fun entry =>
      entry.yopsLogId ++ js " by " ++ entry.commitDigest))

/-- `DecisionNotAuthorizedError`. -/
def decisionNotAuthorized (decisionDigest : JsString) : StorageError :=
  .failure (js "DECISION_NOT_AUTHORIZED") (js "Decision " ++ decisionDigest ++
    js " has no trusted authorization for this project and ref")

/-- `DecisionAuthorizationConflictError`. -/
def decisionAuthorizationConflict (decisionDigest : JsString) : StorageError :=
  .failure (js "DECISION_AUTHORIZATION_CONFLICT") (js "Decision " ++ decisionDigest ++
    js " already has different repository authorization facts")

/-- `DecisionRecordConflictError`. -/
def decisionRecordConflict (decisionDigest : JsString) : StorageError :=
  .failure (js "DECISION_RECORD_CONFLICT") (js "Decision " ++ decisionDigest ++
    js " already has different repository audit facts")

/-- `TransitionRefNotFoundError`. -/
def refNotFound (projectId refName : JsString) : StorageError :=
  .failure (js "REF_NOT_FOUND")
    (js "Ref " ++ refName ++ js " was not found in project " ++ projectId)

/-- `TransitionHeadConflictError`. -/
def headConflict (expectedHead actualHead : Option JsString) : StorageError :=
  .failure (js "STALE_BASE") (js "Expected ref head " ++ headText expectedHead "<empty>" ++
    js ", found " ++ headText actualHead "<empty>")

/-- What the database throws for a key that is taken. -/
def uniqueViolation : StorageError := .failure (js "23505") (js "duplicate key value")

/-- What the database throws for a reference to a row that is not there. -/
def foreignKeyViolation : StorageError := .failure (js "23503") (js "missing referenced row")

/-! ## Commits -/

/-- `COMMIT_V2_MEDIA_TYPE`. -/
def commitV2MediaType : JsString := js "application/vnd.t3x.commit-v2+json"

/-- The text of `value.digest` of a descriptor. -/
def digestOf (value : JsValue) : JsString :=
  match part value "digest" with
  | .str digest => digest
  | _ => []

/-- `commit.parents.map((parent) => parent.digest)`. -/
def parentDigests (commit : JsValue) : List JsString := (parts commit "parents").map digestOf

/-- `commit.parents[0]?.digest ?? null`. -/
def firstParent (commit : JsValue) : Option JsString := (parentDigests commit).head?

section

variable (sha256 : List UInt8 → JsString)

/-- `describeCommitV2(commit)`. -/
def describeCommitV2 (commit : JsValue) : Except StorageError ObjectDescriptor :=
  ofProtocol (parseCommitV2 commit >>= describeProtocolObject sha256)

/-- `verifyCommitV2(commit, resolver)`. -/
def verifyCommitV2 (resolver : ObjectResolver) (commit : JsValue) :
    Except StorageError VerifiedCommitIntegrity :=
  ofProtocol (parseCommitV2 commit >>= verifyCommitIntegrity sha256 resolver)

/-! ## Resolvers -/

/-- The commit is a member of the project. -/
def isMember (s : Store) (projectId digest : JsString) : Bool :=
  s.commits.any fun row => decide (row.projectId = projectId) && decide (row.digest = digest)

/-- `DatabaseTransitionObjectResolver`: commits resolve inside the project only. -/
def databaseResolver (s : Store) (projectId : JsString) : ObjectResolver := fun descriptor =>
  if descriptor.kind = .commit && !isMember s projectId descriptor.digest then none
  else (findObject s.objects descriptor.digest).map fun row => encodeUtf8 row.canonicalJson

/-- The bytes of one more object that comes with a commit. -/
def overlayObject (overlay : Record (List UInt8)) (object : JsValue) :
    Except StorageError (Record (List UInt8)) := do
  let serialized ← serializeTransitionObject sha256 object
  if (Record.get overlay serialized.digest).any fun existing =>
      decide (decodeUtf8 existing ≠ some serialized.canonicalJson) then
    throw (.typeError (js "Conflicting protocol bytes for " ++ serialized.digest))
  return Record.mapSet overlay serialized.digest (encodeUtf8 serialized.canonicalJson)

/-- The bytes of the objects that come with a commit, by their digests. -/
def overlayBytes (objects : List JsValue) : Except StorageError (Record (List UInt8)) :=
  objects.foldlM (overlayObject sha256) []

/-- `get(descriptor)` of an `OverlayObjectResolver`. -/
def overlayResolver (overlay : Record (List UInt8)) (fallback : ObjectResolver) :
    ObjectResolver := fun descriptor =>
  (Record.get overlay descriptor.digest).or (fallback descriptor)

/-- `overlayTransitionObjects(fallback, objects)`. -/
def overlayTransitionObjects (fallback : ObjectResolver) (objects : List JsValue) :
    Except StorageError ObjectResolver :=
  (overlayBytes sha256 objects).map fun overlay => overlayResolver overlay fallback

/-! ## Reading -/

/-- `findBranchByName(db, projectId, name)`. -/
def findBranchByName (s : Store) (projectId name : JsString) : Option BranchRow :=
  s.branches.find? fun row => decide (row.projectId = projectId) && decide (row.name = name)

/-- The head of the ref, where it exists. -/
def refHead (s : Store) (projectId name : JsString) : Option (Option JsString) :=
  (findBranchByName s projectId name).map BranchRow.headCommitHash

end

end T3x.Repository
