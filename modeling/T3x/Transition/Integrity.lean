import T3x.Transition.Resolver

/-!
# The integrity of a commit

A commit names its Decision, which names the Proposal that it decides, which names
the Effect that it proposes; the Effect starts where the first parent ended and
claims the Result of the commit. Integrity means that every object on this way
resolves and that the ends meet. Neither policy nor replay is looked at.
-/

namespace T3x.Transition

open Js

/-! ## Parts of objects -/

/-- `value.key` of a value that has been checked to be an object. -/
def part (value : JsValue) (key : String) : JsValue :=
  match value with
  | .obj record => field record key
  | _ => .null

/-- The items of `value.key`. -/
def parts (value : JsValue) (key : String) : List JsValue :=
  match part value key with
  | .arr items => items
  | _ => []

/-- `descriptorsEqual(left, right)`. -/
def descriptorsEqual (left right : JsValue) : Bool :=
  part left "kind" = part right "kind" ∧ part left "schema" = part right "schema" ∧
    part left "digest" = part right "digest"

/-- `isExplicitEmptyGenesis(value)`. -/
def isExplicitEmptyGenesis (value : JsValue) : Bool :=
  match value with
  | .obj record => (Record.keys record).isEmpty
  | _ => false

/-- `parseProposalStatement(value)`. -/
def parseProposalStatement (value : JsValue) : Except ProtocolError JsValue := do
  let statement ← parseStatement value
  if part statement "predicateType" ≠ .str proposalPredicateType then
    throw (schemaError (js "Expected a Proposal Statement") (js "$.predicateType"))
  return statement

/-- `parseDecisionStatement(value)`. -/
def parseDecisionStatement (value : JsValue) : Except ProtocolError JsValue := do
  let statement ← parseStatement value
  if part statement "predicateType" ≠ .str decisionPredicateType then
    throw (schemaError (js "Expected a Decision Statement") (js "$.predicateType"))
  return statement

/-- `IntegrityChainInvalidError`. -/
def chainInvalid (message : String) : ProtocolError := ⟨.integrityChainInvalid, js message, none⟩

/-! ## Verification -/

/-- `VerifiedCommitIntegrity`. -/
structure VerifiedCommitIntegrity where
  /-- The commit. -/
  commit : JsValue
  /-- Its Decision. -/
  decision : JsValue
  /-- The Proposal that is decided. -/
  proposal : JsValue
  /-- The Effect that is proposed. -/
  effect : JsValue
  /-- The parents. -/
  parents : List JsValue

section

variable (sha256 : List UInt8 → JsString)

/-- `verifyStatementSubjects(statement, resolver)`. -/
def verifyStatementSubjects (resolver : ObjectResolver) (statement : JsValue) :
    Except ProtocolError Unit := do
  let parsed ← parseStatement statement
  let _ ← (parts parsed "subjects").mapM (resolveProtocolObject sha256 resolver)

/-- The last checks of `verifyCommitIntegrity`: where the Effect starts. -/
def verifyParents (effect base : JsValue) (parents : List JsValue) :
    Except ProtocolError Unit := do
  if parents = [] ∧ isExplicitEmptyGenesis (part base "value") = false then
    throw (chainInvalid
      "A parentless CommitV2 must apply its Effect to an explicit empty genesis State")
  if parents.head?.any fun first =>
      !descriptorsEqual (part first "result") (part effect "base") then
    throw (chainInvalid "First-parent Result must equal the Effect Base descriptor")
  if (parents.drop 1).any fun mergeParent => !(parts effect "inputs").any fun input =>
      descriptorsEqual (part input "object") (part mergeParent "result") then
    throw (chainInvalid "Every additional parent Result must be declared in Effect.inputs")

/-- `verifyCommitIntegrity(commit, resolver)`. -/
def verifyCommitIntegrity (resolver : ObjectResolver) (commit : JsValue) :
    Except ProtocolError VerifiedCommitIntegrity := do
  let parsedCommit ← parseCommitV2 commit
  let decisionObject ← resolveProtocolObject sha256 resolver (part parsedCommit "decision")
  if part decisionObject "schema" ≠ .str statementSchema ∨
      part decisionObject "predicateType" ≠ .str decisionPredicateType then
    throw (chainInvalid "CommitV2.decision must resolve to a t3x.decision/v1 Statement")
  let decision ← parseDecisionStatement decisionObject
  if part (part decision "predicate") "outcome" = .str (js "rejected") then
    throw (chainInvalid "A rejected Decision cannot be committed")
  let proposalObject ←
    resolveProtocolObject sha256 resolver ((parts decision "subjects").headD .null)
  if part proposalObject "schema" ≠ .str statementSchema ∨
      part proposalObject "predicateType" ≠ .str proposalPredicateType then
    throw (chainInvalid "Decision subject must resolve to a t3x.proposal/v1 Statement")
  let proposal ← parseProposalStatement proposalObject
  let effectObject ←
    resolveProtocolObject sha256 resolver ((parts proposal "subjects").headD .null)
  if part effectObject "schema" ≠ .str effectSchema then
    throw (chainInvalid "Proposal subject must resolve to an Effect")
  let effect ← parseEffect effectObject
  if descriptorsEqual (part parsedCommit "result") (part effect "result") = false then
    throw (chainInvalid "CommitV2.result must equal the Effect claimed Result")
  let base ← parseState (← resolveProtocolObject sha256 resolver (part effect "base"))
  let _ ← resolveProtocolObject sha256 resolver (part parsedCommit "result")
  let _ ← (parts effect "inputs").mapM fun input =>
    resolveProtocolObject sha256 resolver (part input "object")
  let _ ← (parts (part decision "predicate") "considered").mapM fun considered => do
    let consideredObject ← resolveProtocolObject sha256 resolver considered
    verifyStatementSubjects sha256 resolver (← parseStatement consideredObject)
  let parents ← (parts parsedCommit "parents").mapM fun descriptor => do
    parseCommitV2 (← resolveProtocolObject sha256 resolver descriptor)
  verifyParents effect base parents
  return ⟨parsedCommit, decision, proposal, effect, parents⟩

end

end T3x.Transition
