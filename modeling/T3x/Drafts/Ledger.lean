import T3x.Drafts.Lineage

/-!
# The ledger of a draft

A draft is a base document and the actions that were published on it, each a list
of operations. The document at a revision is what the operations up to it give.
Publishing answers a request that it has seen before as it did then, refuses one
for another revision or one that fails, and notes one that changes nothing.
-/

namespace T3x.Drafts

open Js T3x.Yops

/-! ## Requests and records -/

/-- `DraftActionChannel`. -/
inductive DraftActionChannel where
  | manual
  | mcp
  | assistant
  | «import»
  deriving DecidableEq

/-- The word for a channel. -/
def DraftActionChannel.text : DraftActionChannel → JsString
  | .manual => js "manual"
  | .mcp => js "mcp"
  | .assistant => js "assistant"
  | .import => js "import"

/-- The kinds of actors. -/
inductive ActorKind where
  | human
  | agent
  | service
  deriving DecidableEq

/-- The word for a kind of actors. -/
def ActorKind.text : ActorKind → JsString
  | .human => js "human"
  | .agent => js "agent"
  | .service => js "service"

/-- On whose behalf an actor acts. -/
structure Delegator where
  /-- The kind of the delegator. -/
  kind : JsString
  /-- The name of the delegator. -/
  id : JsString
  deriving DecidableEq

/-- `DraftActionActor`. -/
structure DraftActionActor where
  /-- The kind of the actor. -/
  kind : ActorKind
  /-- The name of the actor. -/
  id : JsString
  /-- On whose behalf the actor acts. -/
  delegator : Option Delegator
  deriving DecidableEq

/-- What a request expects of the workspace. -/
structure Precondition where
  /-- The revision of the workspace. -/
  workspaceRevision : JsNumber
  /-- The head of the reference. -/
  refHead : Option JsString
  deriving DecidableEq

/-- `PublishDraftActionInput`. How an action was generated is carried along as it is. -/
structure PublishDraftActionInput where
  /-- The name of the action. -/
  actionId : JsString
  /-- The channel. -/
  channel : DraftActionChannel
  /-- The actor. -/
  actor : DraftActionActor
  /-- The operations. -/
  operations : List JsValue
  /-- The revision that is expected to be the current one. -/
  expectedRevision : JsNumber
  /-- When the action is published. -/
  publishedAt : JsString
  /-- The reason. -/
  reason : Option JsString
  /-- How the action was generated. -/
  generation : Option (Record JsValue)
  /-- What is expected of the workspace. -/
  precondition : Option Precondition
  /-- The revision that is written. -/
  targetRevision : Option JsNumber

/-- `DraftActionRecord`. -/
structure DraftActionRecord where
  /-- The name of the action. -/
  actionId : JsString
  /-- Its number. -/
  sequence : ℕ
  /-- The channel. -/
  channel : DraftActionChannel
  /-- The actor. -/
  actor : DraftActionActor
  /-- When it was published. -/
  publishedAt : JsString
  /-- What was expected of the workspace. -/
  precondition : Option Precondition
  /-- The revision that was to be written. -/
  targetRevision : Option JsNumber
  /-- The revision before. -/
  beforeRevision : ℕ
  /-- The revision after. -/
  afterRevision : ℕ
  /-- The operations. -/
  operations : List JsValue
  /-- The canonical text of the operations. -/
  operationsDigest : JsString
  /-- The canonical text of the request. -/
  requestDigest : JsString
  /-- The reason, if it is not empty. -/
  reason : Option JsString
  /-- How it was generated. -/
  generation : Option (Record JsValue)

/-- `DraftActionReceipt`, of a request that changed nothing, with the text of the request. -/
structure DraftActionReceipt where
  /-- The name of the action. -/
  actionId : JsString
  /-- The revision that was expected. -/
  expectedRevision : JsNumber
  /-- The revision at the time. -/
  compositionRevision : ℕ
  /-- The message. -/
  message : JsString
  /-- The canonical text of the request. -/
  requestDigest : JsString

/-- `DraftActionLedger`. -/
structure DraftActionLedger where
  /-- The document at revision 0. -/
  base : JsValue
  /-- The current revision. -/
  compositionRevision : ℕ
  /-- The actions. -/
  actions : List DraftActionRecord
  /-- The receipts, if there are any. -/
  receipts : Option (List DraftActionReceipt)
  /-- The lineage of the nodes. -/
  lineage : List DraftNodeLineage

/-! ## The canonical text of a request -/

/-- The member under a name, if the value is there. -/
def member (name : String) (value : Option JsValue) : Record JsValue :=
  (value.map fun value => (js name, value)).toList

/-- An actor as the object it is. -/
def DraftActionActor.value (actor : DraftActionActor) : JsValue :=
  .obj ([(js "kind", .str actor.kind.text), (js "id", .str actor.id)] ++
    member "delegator" (actor.delegator.map fun delegator =>
      .obj [(js "kind", .str delegator.kind), (js "id", .str delegator.id)]))

/-- A precondition as the object it is. -/
def Precondition.value (precondition : Precondition) : JsValue :=
  .obj [(js "workspaceRevision", .num precondition.workspaceRevision),
    (js "refHead", (precondition.refHead.map JsValue.str).getD .null)]

/-- `operationsDigest(operations)`. -/
def operationsDigest (operations : List JsValue) : JsString := canonicalJson (.arr operations)

/-- The canonical text of what a request asks for. -/
def requestDigest (input : PublishDraftActionInput) : JsString :=
  canonicalJson (.obj
    [(js "actionId", .str input.actionId),
      (js "actor", input.actor.value),
      (js "channel", .str input.channel.text),
      (js "operations", .arr input.operations),
      (js "expectedRevision", .num input.expectedRevision),
      (js "targetRevision", (input.targetRevision.map JsValue.num).getD .null),
      (js "precondition", (input.precondition.map Precondition.value).getD .null),
      (js "generation", (input.generation.map JsValue.obj).getD .null),
      (js "reason", (input.reason.map JsValue.str).getD .null)])

/-! ## Reading the ledger -/

/-- `createDraftActionLedger(base)`. -/
def createDraftActionLedger (base : JsValue) : DraftActionLedger :=
  { base
    compositionRevision := 0
    actions := []
    receipts := none
    lineage := (documentPaths base).map fun path => ⟨nodeIdForPath path, path, 0, none⟩ }

/-- `actionById(ledger, actionId)`. -/
def actionById (ledger : DraftActionLedger) (actionId : JsString) : Option DraftActionRecord :=
  ledger.actions.find? fun action => decide (action.actionId = actionId)

/-- The receipts of a ledger. -/
def DraftActionLedger.receiptList (ledger : DraftActionLedger) : List DraftActionReceipt :=
  ledger.receipts.getD []

/-- The receipt for an action. -/
def receiptById (ledger : DraftActionLedger) (actionId : JsString) : Option DraftActionReceipt :=
  ledger.receiptList.find? fun receipt => decide (receipt.actionId = actionId)

section

variable (issueMessage : JsValue → JsString)

/-- The document after the actions up to a revision. -/
def replayActions (revision : ℕ) : JsValue → List DraftActionRecord → Except JsString JsValue
  | doc, [] => .ok doc
  | doc, action :: actions =>
    if revision < action.afterRevision then .ok doc
    else
      match applyDraftYOps issueMessage doc action.operations with
      | .ok next => replayActions revision next actions
      | .error message =>
        .error (js "Replay failed at action " ++ action.actionId ++ js ": " ++ message)

/-- `replayToRevision(ledger, revision)`. -/
def replayToRevision (ledger : DraftActionLedger) (revision : ℕ) : Except JsString JsValue :=
  if ledger.compositionRevision < revision then
    .error (js "Revision " ++ natToString revision ++ js " is outside 0.." ++
      natToString ledger.compositionRevision)
  else replayActions issueMessage revision ledger.base ledger.actions

/-- `currentComposition(ledger)`. -/
def currentComposition (ledger : DraftActionLedger) : Except JsString JsValue :=
  replayToRevision issueMessage ledger ledger.compositionRevision

/-! ## Publishing -/

/-- Why a request conflicts. -/
inductive ConflictReason where
  | idempotencyMismatch
  | staleRevision
  deriving DecidableEq

/-- Why a request is rejected. -/
inductive RejectionReason where
  | historicalWrite
  | applyFailed
  deriving DecidableEq

/-- The answer to a request. -/
inductive Answer where
  | published (action : DraftActionRecord)
  | reused (action : DraftActionRecord)
  | conflict (reason : ConflictReason) (message : JsString)
  | rejected (reason : RejectionReason) (message : JsString)
  | noChange (receipt : DraftActionReceipt)

/-- `PublishDraftActionResult`. -/
structure PublishDraftActionResult where
  /-- The answer. -/
  answer : Answer
  /-- The ledger after it. -/
  ledger : DraftActionLedger

/-- Whether a number is a revision. -/
def isRevision (n : JsNumber) (revision : ℕ) : Bool := decide (n.toRat = revision)

/-- `Object.hasOwn(operation, 'source')`. -/
def hasOwnSource (operation : JsValue) : Except JsString Bool :=
  match operation with
  | .null => .error (js "Cannot convert undefined or null to object")
  | operation => .ok (operation.hasMember "source")

/-- The nodes with their paths in the open entries. -/
def identities (lineage : List DraftNodeLineage) : JsValue :=
  .arr ((lineage.filter DraftNodeLineage.isOpen).map fun entry =>
    .obj [(js "nodeId", .str entry.nodeId), (js "path", .str entry.path)])

/-- The record of a published action. -/
def actionRecord (ledger : DraftActionLedger) (input : PublishDraftActionInput) :
    DraftActionRecord :=
  { actionId := input.actionId
    sequence := ledger.actions.length + 1
    channel := input.channel
    actor := input.actor
    publishedAt := input.publishedAt
    precondition := input.precondition
    targetRevision := input.targetRevision
    beforeRevision := ledger.compositionRevision
    afterRevision := ledger.compositionRevision + 1
    operations := input.operations
    operationsDigest := operationsDigest input.operations
    requestDigest := requestDigest input
    reason := input.reason.filter fun reason => !reason.isEmpty
    generation := input.generation }

/-- The receipt of a request that changes nothing. -/
def noChangeReceipt (ledger : DraftActionLedger) (input : PublishDraftActionInput) :
    DraftActionReceipt :=
  { actionId := input.actionId
    expectedRevision := input.expectedRevision
    compositionRevision := ledger.compositionRevision
    message := js "Document unchanged"
    requestDigest := requestDigest input }

/-- Publish a request for the current revision that was not seen before. -/
def publishNew (ledger : DraftActionLedger) (input : PublishDraftActionInput) :
    Except JsString PublishDraftActionResult := do
  if ← input.operations.anyM hasOwnSource then
    return ⟨.rejected .applyFailed (js "Operation source metadata is not trusted evidence; " ++
      js "provenance must be bound by the server"), ledger⟩
  let before ← currentComposition issueMessage ledger
  match applyDraftYOps issueMessage before input.operations with
  | .error message => return ⟨.rejected .applyFailed message, ledger⟩
  | .ok after =>
    let lineage ← nextLineage issueMessage ledger.lineage input.operations before
      (ledger.compositionRevision + 1)
    if yValuesEqual before after ∧
        canonicalJson (identities ledger.lineage) = canonicalJson (identities lineage) then
      let receipt := noChangeReceipt ledger input
      return ⟨.noChange receipt, { ledger with receipts := some (ledger.receiptList ++ [receipt]) }⟩
    let action := actionRecord ledger input
    return ⟨.published action,
      { ledger with
        compositionRevision := ledger.compositionRevision + 1
        actions := ledger.actions ++ [action]
        lineage := lineage }⟩

/-- `publishDraftAction(ledger, input)`. -/
def publishDraftAction (ledger : DraftActionLedger) (input : PublishDraftActionInput) :
    Except JsString PublishDraftActionResult :=
  match actionById ledger input.actionId, receiptById ledger input.actionId with
  | some existing, _ =>
    if existing.requestDigest = requestDigest input then .ok ⟨.reused existing, ledger⟩
    else .ok ⟨.conflict .idempotencyMismatch (js "Action " ++ input.actionId ++
      js " was published with different operations"), ledger⟩
  | none, some receipt =>
    if receipt.requestDigest = requestDigest input then .ok ⟨.noChange receipt, ledger⟩
    else .ok ⟨.conflict .idempotencyMismatch
      (js "Request identity reused with different facts"), ledger⟩
  | none, none =>
    match input.targetRevision.filter fun n => !isRevision n ledger.compositionRevision with
    | some target =>
      .ok ⟨.rejected .historicalWrite (js "Writes must target current revision " ++
        natToString ledger.compositionRevision ++ js ", not " ++ target.toText), ledger⟩
    | none =>
      if isRevision input.expectedRevision ledger.compositionRevision = false then
        .ok ⟨.conflict .staleRevision (js "Expected revision " ++ input.expectedRevision.toText ++
          js ", current is " ++ natToString ledger.compositionRevision), ledger⟩
      else publishNew issueMessage ledger input

end

end T3x.Drafts
