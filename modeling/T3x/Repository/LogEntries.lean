import T3x.Repository.Transactions

/-!
# The lifecycle of log entries

An entry that no commit consumed may be archived, superseded or deleted. Each of
these transactions holds the lock of the project, which a commit that consumes
entries holds too, from before it looks at the consumptions until it commits. An
update commits later what it selected when it ran.
-/

namespace T3x.Repository

open Js T3x.Transition T3x.Storage Interleave

/-! ## Statements -/

/-- The entry is consumed by a commit of the project. -/
def isConsumed (s : Store) (projectId id : JsString) : Bool :=
  s.consumptions.any fun row => decide (row.projectId = projectId) && decide (row.yopsLogId = id)

/-- `getYOpsLogEntry(db, id)`. -/
def getYOpsLogEntry (s : Store) (id : JsString) : Option YOpsLogRow :=
  s.yopsLog.find? fun row => decide (row.id = id)

/-- The entries are marked as superseded. -/
def supersede (now : ℤ) (ids : List JsString) (s : Store) : Store :=
  { s with
    yopsLog := Table.update (fun row => decide (row.id ∈ ids))
      (fun row => { row with supersededAt := some now }) s.yopsLog }

/-- `SELECT project_id FROM conversations WHERE conversation_id = …`. -/
def conversationProject (s : Store) (conversationId : JsString) : Option JsString :=
  (s.conversations.find? fun row => decide (row.conversationId = conversationId)).map (·.projectId)

/-- An active entry of the conversation that no commit of the project consumed. -/
def isActiveUncommitted (s : Store) (projectId conversationId : JsString) (row : YOpsLogRow) :
    Bool :=
  decide (row.conversationId = conversationId) && row.supersededAt.isNone &&
    !isConsumed s projectId row.id

/-- The members of a value under a name, with the items of an array in their places. -/
def laxMembers (key : String) : JsValue → List JsValue
  | .obj record => (Record.get record (js key)).toList
  | .arr items => items.flatMap fun item =>
    match item with
    | .obj record => (Record.get record (js key)).toList
    | _ => []
  | _ => []

/-- `@.source.type != "llm"` of an operation: the type is another string, or null. -/
def hasOtherSource (op : JsValue) : Bool :=
  ((laxMembers "source" op).flatMap (laxMembers "type")).any fun type =>
    (match type with
      | .arr items => items
      | item => [item]).any fun item =>
        match item with
        | .str text => decide (text ≠ js "llm")
        | .null => true
        | _ => false

/-- The operations are an array, and none of them has another source than the model. -/
def isAllLLM (yops : JsValue) : Bool :=
  match yops with
  | .arr ops => !ops.any hasOtherSource
  | _ => false

/-! ## Transactions -/

/-- `insertYOpsLogEntry(db, input)`. -/
def insertYOpsLogEntry (session : ℕ) (id : JsString) (input : InsertYOpsLogInput) :
    Call YOpsLogRow :=
  commit session fun s =>
    if (conversationProject s input.conversationId).isNone then .error foreignKeyViolation
    else if Table.hasKey (fun row : YOpsLogRow => row.id) id s.yopsLog then
      .error uniqueViolation
    else
      let row : YOpsLogRow := { input with
        id := id
        supersededAt := none }
      .ok (row, { s with yopsLog := s.yopsLog ++ [row] })

/-- `deleteYOpsLogEntry(db, id)`. -/
def deleteYOpsLogEntry (session : ℕ) (id : JsString) : Call (Option YOpsLogRow) := do
  match ← Prog.query fun s => getYOpsLogEntry s id with
  | none => return none
  | some entry =>
    acquireProjectSupersedeLock session entry.projectId
    if ← Prog.query fun s => isConsumed s entry.projectId id then
      commit session fun s => .ok (none, s)
    else
      let deleted ← Prog.query fun s => getYOpsLogEntry s id
      commit session fun s => .ok (deleted, { s with
        yopsLog := s.yopsLog.filter fun row => decide (row.id ≠ id) })

/-- `archiveYOpsLogEntryForUndo(db, id)`. -/
def archiveYOpsLogEntryForUndo (session : ℕ) (now : ℤ) (id : JsString) :
    Call (Option YOpsLogRow) := do
  match ← Prog.query fun s => getYOpsLogEntry s id with
  | none => return none
  | some entry =>
    acquireProjectSupersedeLock session entry.projectId
    if ← Prog.query fun s => isConsumed s entry.projectId id then
      commit session fun s => .ok (none, s)
    else if entry.supersededAt.isSome then
      commit session fun s => .ok (some entry, s)
    else
      -- The entry was read before the lock: the update looks at the column again.
      let ids ← Prog.query fun s => (s.yopsLog.filter fun row =>
        decide (row.id = id) && row.supersededAt.isNone).map (·.id)
      commit session fun s =>
        let t := supersede now ids s
        .ok (t.yopsLog.find? fun row => decide (row.id ∈ ids), t)

/-- Under the lock of the project, the entries that a statement selects are superseded. -/
def supersedeSelected (session : ℕ) (now : ℤ) (projectId : JsString)
    (selected : Store → YOpsLogRow → Bool) : Call (List JsString) := do
  acquireProjectSupersedeLock session projectId
  let ids ← Prog.query fun s => (s.yopsLog.filter (selected s)).map (·.id)
  commit session fun s => .ok (ids, supersede now ids s)

/-- `supersedeActiveLLMSuggestions(db, conversationId)`. -/
def supersedeActiveLLMSuggestions (session : ℕ) (now : ℤ) (conversationId : JsString) :
    Call (List JsString) := do
  match ← Prog.query fun s => conversationProject s conversationId with
  | none => return []
  | some projectId =>
    supersedeSelected session now projectId fun s row =>
      isActiveUncommitted s projectId conversationId row && isAllLLM row.yops

/-- `supersedeActiveUncommittedYOpsLogEntries(db, conversationId)`. -/
def supersedeActiveUncommittedYOpsLogEntries (session : ℕ) (now : ℤ)
    (conversationId : JsString) : Call (List JsString) := do
  match ← Prog.query fun s => conversationProject s conversationId with
  | none => return []
  | some projectId =>
    supersedeSelected session now projectId fun s row =>
      isActiveUncommitted s projectId conversationId row

/-- `supersedeYOpsLogEntryForRepair(db, conversationId, yopsLogId)`. -/
def supersedeYOpsLogEntryForRepair (session : ℕ) (now : ℤ) (conversationId yopsLogId : JsString) :
    Call (List JsString) := do
  match ← Prog.query fun s => s.yopsLog.find? fun row =>
      decide (row.id = yopsLogId) && decide (row.conversationId = conversationId) with
  | none => return []
  | some target =>
    supersedeSelected session now target.projectId fun s row =>
      isActiveUncommitted s target.projectId conversationId row &&
        s.yopsLog.any fun other => decide (other.id = yopsLogId) &&
          isActiveUncommitted s target.projectId conversationId other

/-! ## Calls -/

/-- A call, with the identifiers and the time that new values have. -/
inductive Request where
  | createTransitionCommit (input : CreateTransitionCommitInput)
  | recordRepositoryDecision (record : RepositoryDecisionRecord)
  | recordRepositoryDecisionAuthorization (record : RepositoryDecisionRecord)
  | insertBranch (branchId : JsString) (input : CreateBranchInput)
  | switchBranch (projectId branchName : JsString)
  | deleteBranch (projectId branchName : JsString)
  | ensureMainBranch (branchId projectId : JsString)
  | insertYOpsLogEntry (id : JsString) (input : InsertYOpsLogInput)
  | deleteYOpsLogEntry (id : JsString)
  | archiveYOpsLogEntryForUndo (now : ℤ) (id : JsString)
  | supersedeActiveLLMSuggestions (now : ℤ) (conversationId : JsString)
  | supersedeActiveUncommittedYOpsLogEntries (now : ℤ) (conversationId : JsString)
  | supersedeYOpsLogEntryForRepair (now : ℤ) (conversationId yopsLogId : JsString)

/-- The program of a call in its session. -/
def Request.program (sha256 : List UInt8 → JsString) (session : ℕ) : Request → Call Unit
  | createTransitionCommit input =>
    (Repository.createTransitionCommit sha256 session input).mapResult fun _ => ()
  | recordRepositoryDecision record =>
    Repository.recordRepositoryDecision sha256 session record
  | recordRepositoryDecisionAuthorization record =>
    Repository.recordRepositoryDecisionAuthorization sha256 session record
  | insertBranch branchId input =>
    (Repository.insertBranch session branchId input).mapResult fun _ => ()
  | switchBranch projectId branchName =>
    (Repository.switchBranch session projectId branchName).mapResult fun _ => ()
  | deleteBranch projectId branchName =>
    (Repository.deleteBranch session projectId branchName).mapResult fun _ => ()
  | ensureMainBranch branchId projectId =>
    (Repository.ensureMainBranch session branchId projectId).mapResult fun _ => ()
  | insertYOpsLogEntry id input =>
    (Repository.insertYOpsLogEntry session id input).mapResult fun _ => ()
  | deleteYOpsLogEntry id =>
    (Repository.deleteYOpsLogEntry session id).mapResult fun _ => ()
  | archiveYOpsLogEntryForUndo now id =>
    (Repository.archiveYOpsLogEntryForUndo session now id).mapResult fun _ => ()
  | supersedeActiveLLMSuggestions now conversationId =>
    (Repository.supersedeActiveLLMSuggestions session now conversationId).mapResult fun _ => ()
  | supersedeActiveUncommittedYOpsLogEntries now conversationId =>
    (Repository.supersedeActiveUncommittedYOpsLogEntries session now
      conversationId).mapResult fun _ => ()
  | supersedeYOpsLogEntryForRepair now conversationId yopsLogId =>
    (Repository.supersedeYOpsLogEntryForRepair session now conversationId
      yopsLogId).mapResult fun _ => ()

end T3x.Repository
