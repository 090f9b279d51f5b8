import T3x.Interleave
import T3x.Repository.Authorization
import T3x.Table

/-!
# The transactions of the repository

A transaction is a program of statements. A statement reads what is committed when it
runs; what a transaction writes is committed by its last action, together with the
release of its locks. So statements of other transactions may run between any two of
its own. A transaction that throws releases its locks and writes nothing.
-/

namespace T3x.Repository

open Js T3x.Transition T3x.Storage Interleave

/-! ## Sessions -/

/-- A program over the repository. -/
abbrev Call (α : Type) := Prog Store StorageError α

/-- The locks of the session are released. -/
def Store.release (s : Store) (session : ℕ) : Store :=
  { s with locks := s.locks.filter fun lock => decide (lock.2 ≠ session) }

/-- The transaction is undone. -/
def abort {α : Type} (session : ℕ) (error : StorageError) : Call α :=
  .act (fun _ => true) (fun s => s.release session) fun _ => .done (.error error)

/-- A statement that reads, or throws and undoes the transaction. -/
def statement {α : Type} (session : ℕ) (read : Store → Except StorageError α) : Call α := do
  match ← Prog.query read with
  | .ok a => return a
  | .error e => abort session e

/-- The last action of a transaction commits what it writes, or undoes the transaction. -/
def commit {α : Type} (session : ℕ) (write : Store → Except StorageError (α × Store)) : Call α :=
  .act (fun _ => true)
    (fun s => match write s with
      | .ok (_, t) => t.release session
      | .error _ => s.release session)
    fun s => .done ((write s).map Prod.fst)

/-- `acquireProjectSupersedeLock(tx, projectId)`: waits until no other session holds it. -/
def acquireProjectSupersedeLock (session : ℕ) (projectId : JsString) : Call Unit :=
  .act (fun s => s.locks.all fun lock => decide (lock.1 ≠ projectId) || decide (lock.2 = session))
    (fun s => { s with locks := s.locks ++ [(projectId, session)] }) fun _ => .done (.ok ())

/-! ## Commits -/

/-- `CreateTransitionCommitInput`. -/
structure CreateTransitionCommitInput where
  /-- The project. -/
  projectId : JsString
  /-- The ref that advances. -/
  refName : JsString
  /-- The head that is expected. -/
  expectedHead : Option JsString
  /-- The commit. -/
  commit : JsValue
  /-- The objects of its graph that are not stored yet. -/
  objects : List JsValue
  /-- The log entries that it consumes. -/
  yopsLogIds : List JsString := []

/-- The project of a log entry. -/
def logProject (s : Store) (id : JsString) : Option JsString :=
  (s.yopsLog.find? fun row => decide (row.id = id)).map (·.projectId)

/-- The entries that do not belong to the project. -/
def checkLogMembership (projectId : JsString) (yopsLogIds : List JsString) (s : Store) :
    Except StorageError Unit :=
  let invalid := yopsLogIds.filter fun id => decide (logProject s id ≠ some projectId)
  if invalid = [] then .ok () else .error (yopsLogMembership invalid)

/-- The entries that are superseded. -/
def checkNotSuperseded (yopsLogIds : List JsString) (s : Store) : Except StorageError Unit :=
  let superseded := s.yopsLog.filter fun row =>
    decide (row.id ∈ yopsLogIds) && row.supersededAt.isSome
  if superseded = [] then .ok () else .error (supersededYOpsLogIds (superseded.map (·.id)))

/-- The entries that a commit of the project consumed. -/
def checkNotConsumed (projectId : JsString) (yopsLogIds : List JsString) (s : Store) :
    Except StorageError Unit :=
  let consumptions := s.consumptions.filter fun row =>
    decide (row.projectId = projectId) && decide (row.yopsLogId ∈ yopsLogIds)
  if consumptions = [] then .ok () else .error (yopsLogAlreadyConsumed consumptions)

/-- The parents that are no commits of the project. -/
def checkParents (projectId : JsString) (digests : List JsString) (s : Store) :
    Except StorageError Unit :=
  let missing := digests.filter fun digest => !isMember s projectId digest
  if missing = [] then .ok () else .error (parentProjectMembership missing)

/-- The Decision is authorized for the ref. -/
def checkAuthorized (projectId refName decisionDigest : JsString) (s : Store) :
    Except StorageError Unit :=
  if s.authorizations.any fun row => decide (row.projectId = projectId) &&
      decide (row.refName = refName) && decide (row.decisionDigest = decisionDigest) then .ok ()
  else .error (decisionNotAuthorized decisionDigest)

/-- The membership of a commit is inserted unless it is there. -/
def insertCommit (row : CommitRow) (commits : List CommitRow) : List CommitRow :=
  if Table.hasKey (fun old : CommitRow => (old.projectId, old.digest)) (row.projectId, row.digest)
    commits then commits
  else commits ++ [row]

/-- Consumptions are inserted together. -/
def insertConsumptions (rows consumptions : List ConsumptionRow) :
    Except StorageError (List ConsumptionRow) :=
  if rows.any fun row => Table.hasKey
      (fun old : ConsumptionRow => (old.projectId, old.yopsLogId)) (row.projectId, row.yopsLogId)
      consumptions then .error uniqueViolation
  else .ok (consumptions ++ rows)

/-- The ref has the head. -/
def hasHead (projectId refName : JsString) (head : Option JsString) (row : BranchRow) : Bool :=
  decide (row.projectId = projectId) && decide (row.name = refName) &&
    decide (row.headCommitHash = head)

/-- The ref advances from the expected head, which is recorded as an event. -/
def advanceRef (projectId refName : JsString) (expectedHead : Option JsString)
    (digest : JsString) (s : Store) : Except StorageError Store :=
  if s.branches.any (hasHead projectId refName expectedHead) then
    .ok { s with
      branches := Table.update (hasHead projectId refName expectedHead)
        (fun row => { row with headCommitHash := some digest }) s.branches
      events := s.events ++ [⟨projectId, refName, expectedHead, digest⟩] }
  else
    match findBranchByName s projectId refName with
    | none => .error (refNotFound projectId refName)
    | some actual => .error (headConflict expectedHead actual.headCommitHash)

section

variable (sha256 : List UInt8 → JsString)

/-- The verification of the commit with the objects that come with it. -/
def verifyInput (input : CreateTransitionCommitInput) (s : Store) :
    Except StorageError VerifiedCommitIntegrity := do
  let resolver ← overlayTransitionObjects sha256 (databaseResolver s input.projectId) input.objects
  verifyCommitV2 sha256 resolver input.commit

/-- What the transaction of a verified commit writes. -/
def writeCommit (input : CreateTransitionCommitInput) (yopsLogIds : List JsString)
    (verified : VerifiedCommitIntegrity) (digest : JsString) (s : Store) :
    Except StorageError (JsString × Store) := do
  let objects ← persistTransitionObjects sha256 (input.objects ++ [verified.commit]) s.objects
  let commits := insertCommit ⟨input.projectId, digest, commitV2MediaType⟩ s.commits
  let consumptions ← insertConsumptions
    (yopsLogIds.map fun id => ⟨input.projectId, id, digest⟩) s.consumptions
  let t ← advanceRef input.projectId input.refName input.expectedHead digest { s with
    objects := objects
    commits := commits
    consumptions := consumptions }
  return (digest, t)

/-- The last part of `createTransitionCommit`: the commit is verified in the transaction that
advances the ref, and written if its Decision is authorized. -/
def verifyAndWrite (session : ℕ) (input : CreateTransitionCommitInput)
    (yopsLogIds : List JsString) : Call JsString := do
  let verified ← statement session (verifyInput sha256 input)
  let descriptor ← statement session fun _ => describeCommitV2 sha256 verified.commit
  statement session (checkAuthorized input.projectId input.refName
    (digestOf (part verified.commit "decision")))
  commit session (writeCommit sha256 input yopsLogIds verified descriptor.digest)

/-- `createTransitionCommit(db, input)`: the digest of the commit. -/
def createTransitionCommit (session : ℕ) (input : CreateTransitionCommitInput) :
    Call JsString := do
  if firstParent input.commit ≠ input.expectedHead then
    .fail (parentHeadMismatch input.expectedHead (firstParent input.commit))
  statement session (checkParents input.projectId
    (sortBy compareCodeUnits (distinct (parentDigests input.commit))))
  let yopsLogIds := sortBy compareCodeUnits (distinct input.yopsLogIds)
  unless yopsLogIds.isEmpty do
    acquireProjectSupersedeLock session input.projectId
    statement session (checkLogMembership input.projectId yopsLogIds)
    statement session (checkNotSuperseded yopsLogIds)
    statement session (checkNotConsumed input.projectId yopsLogIds)
  verifyAndWrite sha256 session input yopsLogIds

/-- `recordRepositoryDecision(db, record)` of a record that was issued. -/
def recordRepositoryDecision (session : ℕ) (record : RepositoryDecisionRecord) : Call Unit :=
  commit session fun s => do
    let t ← recordDecisionLedger sha256 record s
    return ((), t)

/-- `recordRepositoryDecisionAuthorization(db, authorization)` of a record that authorizes. -/
def recordRepositoryDecisionAuthorization (session : ℕ) (record : RepositoryDecisionRecord) :
    Call Unit := do
  let _ ← Prog.lift (decisionFacts sha256 record)
  commit session fun s => do
    let t ← recordAuthorization sha256 record s
    return ((), t)

end

/-! ## Branches -/

/-- `CreateBranchInput`. -/
structure CreateBranchInput where
  /-- The project. -/
  projectId : JsString
  /-- The name. -/
  name : JsString
  /-- The commit to branch from; without it, the head of the parent. -/
  headCommitHash : Option JsString := none
  /-- The branch to branch from. -/
  parentBranch : Option JsString := none
  /-- The description. -/
  description : Option JsString := none

/-- The parent branch, where a name is given. -/
def CreateBranchInput.parent (input : CreateBranchInput) : Option JsString :=
  input.parentBranch.filter fun name => decide (name ≠ [])

/-- The project has no branch. -/
def isFirstBranch (projectId : JsString) (s : Store) : Bool :=
  s.branches.all fun row => decide (row.projectId ≠ projectId)

/-- A branch is inserted unless one of its keys is taken. -/
def insertBranchRow (row : BranchRow) (s : Store) : Except StorageError (BranchRow × Store) :=
  if Table.hasKey BranchRow.branchId row.branchId s.branches ∨
      Table.hasKey (fun old : BranchRow => (old.projectId, old.name)) (row.projectId, row.name)
        s.branches then .error uniqueViolation
  else .ok (row, { s with branches := s.branches ++ [row] })

/-- The head where the branch starts. -/
def branchPoint (input : CreateBranchInput) (s : Store) : Option JsString :=
  match input.headCommitHash, input.parent with
  | some head, _ => some head
  | none, some parent => (findBranchByName s input.projectId parent).bind (·.headCommitHash)
  | none, none => none

/-- `insertBranch(db, input)`. -/
def insertBranch (session : ℕ) (branchId : JsString) (input : CreateBranchInput) :
    Call BranchRow := do
  let isCurrent ← Prog.query (isFirstBranch input.projectId)
  let headCommitHash ← Prog.query (branchPoint input)
  commit session (insertBranchRow
    { branchId := branchId
      projectId := input.projectId
      name := input.name
      parentBranch := input.parentBranch
      headCommitHash := headCommitHash
      description := input.description
      isCurrent := isCurrent })

/-- The branch of the project with the name. -/
def isBranch (projectId name : JsString) (row : BranchRow) : Bool :=
  decide (row.projectId = projectId) && decide (row.name = name)

/-- `switchBranch(db, projectId, branchName)`. -/
def switchBranch (session : ℕ) (projectId branchName : JsString) : Call (Option BranchRow) := do
  match ← Prog.query fun s => findBranchByName s projectId branchName with
  | none => return none
  | some _ =>
    commit session fun s =>
      let t := { s with
        branches := Table.update (fun row => decide (row.projectId = projectId))
          (fun row => { row with isCurrent := decide (row.name = branchName) }) s.branches }
      .ok (findBranchByName t projectId branchName, t)

/-- `deleteBranch(db, projectId, branchName)`. -/
def deleteBranch (session : ℕ) (projectId branchName : JsString) : Call Bool := do
  match ← Prog.query fun s => findBranchByName s projectId branchName with
  | none => return false
  | some branch =>
    if branch.isCurrent then return false
    commit session fun s => .ok (s.branches.any (isBranch projectId branchName), { s with
      branches := s.branches.filter fun row => !isBranch projectId branchName row })

/-- `ensureMainBranch(db, projectId)`. -/
def ensureMainBranch (session : ℕ) (branchId projectId : JsString) : Call BranchRow := do
  match ← Prog.query fun s => findBranchByName s projectId (js "main") with
  | some existing => return existing
  | none =>
    let isCurrent ← Prog.query (isFirstBranch projectId)
    commit session fun s =>
      match findBranchByName s projectId (js "main") with
      | some concurrent => .ok (concurrent, s)
      | none => insertBranchRow
        { branchId := branchId
          projectId := projectId
          name := js "main"
          parentBranch := none
          headCommitHash := none
          description := none
          isCurrent := isCurrent } s

end T3x.Repository
