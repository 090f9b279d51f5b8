import T3x.Proposals.GenerationDraft

/-!
# The compiler of generation drafts

The compiler replaces the pointers of a draft by the evidence that a server has
verified for them, each set of evidence without repetition and sorted by the
canonical texts of its members. It gives the operations of the Effect, the draft
of the Proposal and a record of the preparation, or the issues that it found.
-/

namespace T3x.Proposals

open Js Transition Yops

/-- `ProposalGenerationCompileIssueCode`. -/
inductive GenerationIssueCode where
  | draftInvalid
  | profileInvalid
  | postureMismatch
  | contextInvalid
  | actorInvalid
  | evidenceBindingInvalid
  | evidenceBindingMissing
  | basisPointerInvalid
  | operationInvalid
  | preparationInvalid
  deriving DecidableEq

/-- `ProposalGenerationCompileIssue`. -/
structure GenerationIssue where
  /-- The code. -/
  code : GenerationIssueCode
  /-- The path of what is at fault. -/
  path : JsString
  /-- The message. -/
  message : JsString
  deriving DecidableEq

/-- `VerifiedDraftEvidenceBinding`. -/
structure EvidenceBinding where
  /-- The pointer. -/
  pointer : DraftEvidencePointer
  /-- What it points to. -/
  evidence : EvidenceRef

/-- An actor: the word for its kind, and its name. -/
structure ActorRef where
  /-- The word for the kind. -/
  kind : JsString
  /-- The name. -/
  id : JsString
  deriving DecidableEq

/-- `run`. -/
structure GenerationRun where
  /-- The name of the run. -/
  id : JsString
  /-- When it was recorded. -/
  recordedAt : JsString
  deriving DecidableEq

/-- The input of `compileProposalGenerationDraft`. -/
structure GenerationInput where
  /-- The draft, as it was received. -/
  draft : JsValue
  /-- The profile, as it was received. -/
  profile : JsValue
  /-- The context bundle, as it was received. -/
  context : JsValue
  /-- Who asked for the draft. -/
  requestedBy : ActorRef
  /-- The generator. -/
  generator : ActorRef
  /-- The provider. -/
  provider : JsString
  /-- The model. -/
  model : JsString
  /-- The run. -/
  run : GenerationRun
  /-- The evidence that has been verified. -/
  evidenceBindings : List EvidenceBinding

/-- An issue of the schema library: a path and a message. -/
structure SchemaIssue where
  /-- The path. -/
  path : List JsString
  /-- The message. -/
  message : JsString

/-- `canonicalKey(value)`. -/
def canonicalKey (value : JsValue) : Except ProtocolError JsString :=
  canonicalizeProtocolValue value

/-- `pointerKey(pointer)`. -/
def pointerKey (pointer : DraftEvidencePointer) : Except ProtocolError JsString :=
  canonicalKey pointer.value

/-- `sameResource(left, right)`. -/
def sameResource (left right : ResourceDescriptor) : Bool := left = right

/-- `collectZodIssues(code, error)`. -/
def collectZodIssues (code : GenerationIssueCode) (issues : List SchemaIssue) :
    List GenerationIssue :=
  issues.map fun issue =>
    { code
      path := if issue.path = [] then js "$" else js "$." ++ join (unit '.') issue.path
      message := issue.message }

/-! ## Evidence -/

/-- The issue of a binding that does not bind what its pointer names. -/
def notBound (path : JsString) : GenerationIssue :=
  ⟨.evidenceBindingInvalid, path,
    js "Verified EvidenceRef does not bind the exact Source and locator named by the pointer"⟩

/-- `verifiedEvidenceMap(context, bindings, issues)`, from an index on, with what has been bound. -/
def verifiedEvidenceMap (context : ProposalContextBundle) :
    ℕ → Record EvidenceRef → List EvidenceBinding →
      Except ProtocolError (Record EvidenceRef × List GenerationIssue)
  | _, result, [] => return (result, [])
  | index, result, binding :: bindings => do
    let path := js "$.evidenceBindings." ++ natToString index
    match context.sources[binding.pointer.sourceIndex]? with
    | none =>
      let (map, issues) ← verifiedEvidenceMap context (index + 1) result bindings
      return (map, ⟨.evidenceBindingInvalid, path ++ js ".pointer.sourceIndex",
        js "Evidence pointer does not name a Source in the exact Context Bundle"⟩ :: issues)
    | some source =>
      if sameResource binding.evidence.resource source = false then
        let (map, issues) ← verifiedEvidenceMap context (index + 1) result bindings
        return (map, notBound path :: issues)
      let bound ← canonicalKey binding.evidence.locator.value
      let named ← canonicalKey binding.pointer.locator.value
      if bound ≠ named then
        let (map, issues) ← verifiedEvidenceMap context (index + 1) result bindings
        return (map, notBound path :: issues)
      let key ← pointerKey binding.pointer
      match Record.get result key with
      | none =>
        verifiedEvidenceMap context (index + 1) (Record.mapSet result key binding.evidence) bindings
      | some prior =>
        let priorKey ← canonicalKey prior.value
        let bindingKey ← canonicalKey binding.evidence.value
        if priorKey ≠ bindingKey then
          let (map, issues) ← verifiedEvidenceMap context (index + 1) result bindings
          return (map, ⟨.evidenceBindingInvalid, path,
            js "One evidence pointer cannot resolve to multiple EvidenceRef values"⟩ :: issues)
        verifiedEvidenceMap context (index + 1) (Record.mapSet result key binding.evidence) bindings

/-- `new Map(values.map(value => [canonicalKey(value), value]))`. -/
def uniqueByKey {T : Type} (toValue : T → JsValue) (values : List T) :
    Except ProtocolError (Record T) := do
  let entries ← values.mapM fun value => do
    let key ← canonicalKey (toValue value)
    return (key, value)
  return entries.foldl (fun map entry => Record.mapSet map entry.1 entry.2) []

/-- `[...unique.values()].sort(compareCanonical)`: a member stands under its canonical text. -/
def sortedValues {T : Type} (unique : Record T) : List T :=
  (sortBy (fun left right => compareCodeUnits left.1 right.1) unique).map Prod.snd

/-- What the pointers resolve to, from an index on. -/
def resolvePointers (evidence : Record EvidenceRef) (path : JsString) :
    ℕ → List DraftEvidencePointer → Except ProtocolError (List EvidenceRef × List GenerationIssue)
  | _, [] => return ([], [])
  | index, pointer :: pointers => do
    let key ← pointerKey pointer
    let (resolved, issues) ← resolvePointers evidence path (index + 1) pointers
    match Record.get evidence key with
    | none =>
      return (resolved, ⟨.evidenceBindingMissing, path ++ js "." ++ natToString index,
        js "Draft evidence pointer has no server-verified EvidenceRef binding"⟩ :: issues)
    | some value => return (value :: resolved, issues)

/-- `resolveEvidence(pointers, evidence, path, issues)`. -/
def resolveEvidence (evidence : Record EvidenceRef) (pointers : List DraftEvidencePointer)
    (path : JsString) : Except ProtocolError (List EvidenceRef × List GenerationIssue) := do
  let (resolved, issues) ← resolvePointers evidence path 0 pointers
  let unique ← uniqueByKey EvidenceRef.value resolved
  return (sortedValues unique, issues)

/-- The resources of the kind of a basis. -/
def ProposalContextBundle.collection (context : ProposalContextBundle) :
    BasisKind → List ResourceDescriptor
  | .source => context.sources
  | .memory => context.memories
  | .searchResult => context.searchResults

/-- `resolveBasis(pointers, context, path, issues)`. -/
def resolveBasis (context : ProposalContextBundle) (pointers : List DraftBasisPointer)
    (path : JsString) : Except ProtocolError (List ResourceDescriptor × List GenerationIssue) := do
  let resolved := pointers.filterMap fun pointer =>
    (context.collection pointer.kind)[pointer.index]?
  let missing := pointers.zipIdx.filter fun entry =>
    (context.collection entry.1.kind)[entry.1.index]?.isNone
  let unique ← uniqueByKey ResourceDescriptor.value resolved
  return (sortedValues unique, missing.map fun entry =>
    ⟨.basisPointerInvalid, path ++ js "." ++ natToString entry.2,
      js "Basis pointer does not name a " ++ entry.1.kind.text ++
        js " resource in the exact Context Bundle"⟩)

/-! ## Operations -/

/-- `generationOperationPaths(operation)`. -/
def generationOperationPaths (operation : JsValue) : List JsString :=
  match operation with
  | .obj record =>
    match (Record.keys record).head? with
    | none => []
    | some operationName =>
      match getOpSpec operationName, Record.get record operationName with
      | some spec, some payload =>
        let paths := spec.pathFields.toList.filterMap fun field =>
          match payload.member field with
          | .str path => some (if path = [] then js "$" else path)
          | _ => none
        sortBy compareCodeUnits (distinct paths)
      | _, _ => []
  | _ => []

section

variable (parsedData : JsValue → JsValue) (schemaIssues : String → JsValue → List SchemaIssue)

/-- `canonicalOperation(operation, path, issues)`: the operation and its paths. -/
def canonicalOperation (operation : JsValue) (path : JsString) :
    Except ProtocolError (Option (JsValue × List JsString) × List GenerationIssue) := do
  if operation.hasMember "source" then
    return (none, [⟨.operationInvalid, path ++ js ".source",
      js "Generated Effect operations cannot carry source metadata"⟩])
  if yOpSchema operation = false then
    return (none, (schemaIssues "YOpSchema" operation).map fun issue =>
      { code := .operationInvalid
        path := if issue.path = [] then path else path ++ js "." ++ join (unit '.') issue.path
        message := issue.message })
  let normalized ← normalizeProtocolValue (parsedData operation)
  return (some (normalized, generationOperationPaths (parsedData operation)), [])

/-- The operations of a group, from an index on: those that compile, with their paths. -/
def compileOperations (path : JsString) :
    ℕ → List JsValue → Except ProtocolError (List (JsValue × List JsString) × List GenerationIssue)
  | _, [] => return ([], [])
  | index, operation :: operations => do
    let (compiled, issues) ← canonicalOperation parsedData schemaIssues operation
      (path ++ js "." ++ natToString index)
    let (rest, restIssues) ← compileOperations path (index + 1) operations
    return (compiled.toList ++ rest, issues ++ restIssues)

end

/-! ## Groups -/

/-- A challenge in a preparation. -/
structure PreparationChallenge where
  /-- The path of the value. -/
  path : JsString
  /-- The prior value. -/
  priorValue : JsValue
  /-- Its evidence. -/
  priorEvidence : List EvidenceRef
  /-- Why it is challenged. -/
  reason : JsString
  /-- The paths that the challenge bears on. -/
  impactPaths : List JsString

/-- A group of operations in a preparation. -/
structure PreparationBinding where
  /-- The name of the group. -/
  groupId : JsString
  /-- The places of the operations in the Effect. -/
  operationIndexes : List ℕ
  /-- The paths of the operations. -/
  paths : List JsString
  /-- Where the group says that it comes from. -/
  origin : JsString
  /-- The evidence. -/
  evidence : List EvidenceRef
  /-- The basis. -/
  basis : List ResourceDescriptor
  /-- The assumptions. -/
  assumptions : List JsString
  /-- Why the operations are proposed. -/
  reason : JsString
  /-- The challenges. -/
  challenges : List PreparationChallenge

/-- The challenges of a group, from an index on. -/
def compileChallenges (evidence : Record EvidenceRef) (path : JsString) :
    ℕ → List DraftChallenge →
      Except ProtocolError (List PreparationChallenge × List GenerationIssue)
  | _, [] => return ([], [])
  | index, challenge :: challenges => do
    let (priorEvidence, issues) ← resolveEvidence evidence challenge.priorEvidencePointers
      (path ++ js "." ++ natToString index ++ js ".priorEvidencePointers")
    let (rest, restIssues) ← compileChallenges evidence path (index + 1) challenges
    return (⟨challenge.path, challenge.priorValue, priorEvidence, challenge.reason,
      sortBy compareCodeUnits (distinct challenge.impactPaths)⟩ :: rest, issues ++ restIssues)

section

variable (parsedData : JsValue → JsValue) (schemaIssues : String → JsValue → List SchemaIssue)

/-- The groups of a draft, from an index on, after some operations: their operations, what is
prepared of them and the issues. -/
def compileChanges (context : ProposalContextBundle) (evidence : Record EvidenceRef) :
    (changeIndex operationCount : ℕ) → List GenerationChange →
      Except ProtocolError (List JsValue × List PreparationBinding × List GenerationIssue)
  | _, _, [] => return ([], [], [])
  | changeIndex, operationCount, change :: changes => do
    let path := js "$.draft.changes." ++ natToString changeIndex
    let (operations, operationIssues) ← compileOperations parsedData schemaIssues
      (path ++ js ".operations") 0 change.operations
    let (changeEvidence, evidenceIssues) ← resolveEvidence evidence change.evidencePointers
      (path ++ js ".evidencePointers")
    let (basis, basisIssues) ← resolveBasis context change.basisPointers
      (path ++ js ".basisPointers")
    let (challenges, challengeIssues) ← compileChallenges evidence (path ++ js ".challenges") 0
      change.challenges
    let (restOperations, restBindings, restIssues) ← compileChanges context evidence
      (changeIndex + 1) (operationCount + operations.length) changes
    return (operations.map Prod.fst ++ restOperations,
      { groupId := change.id
        operationIndexes := List.range' operationCount operations.length
        paths := sortBy compareCodeUnits (distinct (operations.flatMap Prod.snd))
        origin := change.claimedOrigin
        evidence := changeEvidence
        basis
        assumptions := change.assumptions
        reason := change.reason
        challenges } :: restBindings,
      operationIssues ++ evidenceIssues ++ basisIssues ++ challengeIssues ++ restIssues)

end

/-! ## The draft of the Proposal -/

/-- A claim of a draft of a Proposal. -/
inductive DraftStringClaim where
  /-- A claim that is left open. -/
  | unspecified
  /-- A claim with a value and evidence. -/
  | attributed (mode : ClaimMode) (value : JsString) (evidence : List EvidenceRef)

/-- A claim as the value that it is. -/
def DraftStringClaim.value : DraftStringClaim → JsValue
  | .unspecified => .obj [(js "mode", .str (js "unspecified"))]
  | .attributed mode value evidence =>
    .obj [(js "mode", .str mode.text), (js "value", .str value),
      (js "evidence", .arr (evidence.map EvidenceRef.value))]

/-- `compileClaim(claim, evidence, path, issues)`. -/
def compileGenerationClaim (evidence : Record EvidenceRef) (claim : ProposalGenerationDraftClaim)
    (path : JsString) : Except ProtocolError (DraftStringClaim × List GenerationIssue) :=
  match claim with
  | .unspecified => return (.unspecified, [])
  | .attributed mode value evidencePointers => do
    let (resolved, issues) ← resolveEvidence evidence evidencePointers
      (path ++ js ".evidencePointers")
    return (.attributed mode value resolved, issues)

/-- A bound source of operations, as the value that it is. -/
def sourceBinding (binding : PreparationBinding) (evidence : EvidenceRef) : JsValue :=
  .obj [(js "status", .str (js "bound")), (js "claim", .str (js "unassigned")),
    (js "evidence", evidence.value),
    (js "operationIndexes", .arr (binding.operationIndexes.map fun index => .num (countNumber index))),
    (js "paths", .arr (binding.paths.map .str))]

/-- The draft of the Proposal, as the value that it is. -/
def proposalDraftValue (intent rationale : DraftStringClaim) (warnings : List JsString)
    (bindings : List PreparationBinding) : JsValue :=
  .obj [(js "schema", .str (js "t3x/proposal-draft")), (js "version", .num (countNumber 1)),
    (js "intent", intent.value), (js "rationale", rationale.value),
    (js "review", .obj [(js "unresolvedQuestions", .arr []),
      (js "warnings", .arr (warnings.map .str)),
      (js "sourceBindings", .arr (bindings.flatMap fun binding =>
        binding.evidence.map (sourceBinding binding)))])]

end T3x.Proposals
