import T3x.Transition.YopsDriver

/-!
# Generation drafts

A generator writes a draft of a Proposal: claims and groups of operations that
point to sources by their place in a context bundle. The schemas trim the
strings that they read. What the schema library says about a refused value is a
parameter of the compiler.
-/

namespace T3x.Proposals

open Js Transition

/-! ## Evidence -/

/-- `ResourceDescriptor`. -/
structure ResourceDescriptor where
  /-- Where the resource is. -/
  uri : JsString
  /-- The type of its content. -/
  mediaType : JsString
  /-- The digest of its content. -/
  digest : JsString
  deriving DecidableEq

/-- A resource as the value that it is. -/
def ResourceDescriptor.value (resource : ResourceDescriptor) : JsValue :=
  .obj [(js "uri", .str resource.uri), (js "mediaType", .str resource.mediaType),
    (js "digest", .str resource.digest)]

/-- A place in a resource. -/
structure EvidenceLocator where
  /-- How the place is written. -/
  scheme : JsString
  /-- The place. -/
  place : JsValue

/-- A locator as the value that it is. -/
def EvidenceLocator.value (locator : EvidenceLocator) : JsValue :=
  .obj [(js "scheme", .str locator.scheme), (js "value", locator.place)]

/-- `EvidenceRef`. -/
structure EvidenceRef where
  /-- The resource. -/
  resource : ResourceDescriptor
  /-- The place in it. -/
  locator : EvidenceLocator

/-- Evidence as the value that it is. -/
def EvidenceRef.value (evidence : EvidenceRef) : JsValue :=
  .obj [(js "resource", evidence.resource.value), (js "locator", evidence.locator.value)]

/-- `DraftEvidencePointer`. -/
structure DraftEvidencePointer where
  /-- The place of the source in the context bundle. -/
  sourceIndex : ℕ
  /-- The place in the source. -/
  locator : EvidenceLocator

/-- A pointer as the value that it is. -/
def DraftEvidencePointer.value (pointer : DraftEvidencePointer) : JsValue :=
  .obj [(js "sourceIndex", .num (countNumber pointer.sourceIndex)),
    (js "locator", pointer.locator.value)]

/-- The kinds of resources that a basis points to. -/
inductive BasisKind where
  | source
  | memory
  | searchResult
  deriving DecidableEq

/-- The word for a kind of basis. -/
def BasisKind.text : BasisKind → JsString
  | .source => js "source"
  | .memory => js "memory"
  | .searchResult => js "search_result"

/-- `DraftBasisPointer`. -/
structure DraftBasisPointer where
  /-- The kind of the resource. -/
  kind : BasisKind
  /-- The place of the resource among those of its kind. -/
  index : ℕ

/-! ## Drafts -/

/-- The modes of a claim that says something. -/
inductive ClaimMode where
  | stated
  | inferred
  | authored
  deriving DecidableEq

/-- The word for a mode. -/
def ClaimMode.text : ClaimMode → JsString
  | .stated => js "stated"
  | .inferred => js "inferred"
  | .authored => js "authored"

/-- `ProposalGenerationDraftClaim`. -/
inductive ProposalGenerationDraftClaim where
  /-- A claim that is left open. -/
  | unspecified
  /-- A claim with a value and pointers to its evidence. -/
  | attributed (mode : ClaimMode) (value : JsString) (evidencePointers : List DraftEvidencePointer)

/-- A challenge of a prior value. -/
structure DraftChallenge where
  /-- The path of the value. -/
  path : JsString
  /-- The prior value. -/
  priorValue : JsValue
  /-- The pointers to its evidence. -/
  priorEvidencePointers : List DraftEvidencePointer
  /-- Why it is challenged. -/
  reason : JsString
  /-- The paths that the challenge bears on. -/
  impactPaths : List JsString

/-- A group of operations. -/
structure GenerationChange where
  /-- The name of the group. -/
  id : JsString
  /-- The operations. -/
  operations : List JsValue
  /-- Where the group says that it comes from. -/
  claimedOrigin : JsString
  /-- The pointers to the evidence. -/
  evidencePointers : List DraftEvidencePointer
  /-- The pointers to the basis. -/
  basisPointers : List DraftBasisPointer
  /-- The assumptions. -/
  assumptions : List JsString
  /-- Why the operations are proposed. -/
  reason : JsString
  /-- The challenges. -/
  challenges : List DraftChallenge

/-- `ProposalGenerationDraftV1`, what is read of it. -/
structure ProposalGenerationDraft where
  /-- The posture of the generator. -/
  posture : JsString
  /-- The intent. -/
  intent : ProposalGenerationDraftClaim
  /-- The rationale. -/
  rationale : ProposalGenerationDraftClaim
  /-- The groups of operations. -/
  changes : List GenerationChange
  /-- The warnings. -/
  warnings : List JsString

/-- `ProposalContextBundleV1`, what is read of it. -/
structure ProposalContextBundle where
  /-- The sources. -/
  sources : List ResourceDescriptor
  /-- The memories. -/
  memories : List ResourceDescriptor
  /-- The results of searches. -/
  searchResults : List ResourceDescriptor

/-! ## The schemas -/

/-- `z.string().trim().min(1).max(greatest)`. -/
def trimmedString (greatest : Option ℕ) : Shape
  | .str s => Shape.string 1 greatest (.str (trim s))
  | _ => false

/-- `nonEmptyString`. -/
def nonEmptyString : Shape := trimmedString none

/-- `z.literal(1)`. -/
def literalOne : Shape
  | .num n => decide (n.toRat = 1)
  | _ => false

/-- `digestSchema`. -/
def digestSchema : Shape := .stringThat digestPattern

/-- `protocolValueSchema`. -/
def protocolValueSchema : Shape := fun value => (canonicalizeProtocolValue value).toBool

/-- `resourceDescriptorSchema`. -/
def resourceDescriptorSchema : Shape :=
  .closed [⟨"uri", nonEmptyString, false⟩, ⟨"mediaType", nonEmptyString, false⟩,
    ⟨"digest", digestSchema, false⟩]

/-- `locatorSchema`. -/
def locatorSchema : Shape :=
  .closed [⟨"scheme", nonEmptyString, false⟩, ⟨"value", protocolValueSchema, false⟩]

/-- `z.array(shape).max(greatest)`. -/
def arrayUpTo (greatest : ℕ) (shape : Shape) : Shape := .list shape 0 (some greatest) fun _ => true

/-- `DraftEvidencePointerSchema`. -/
def draftEvidencePointerSchema : Shape :=
  .closed [⟨"sourceIndex", .integer 0, false⟩, ⟨"locator", locatorSchema, false⟩]

/-- `DraftBasisPointerSchema`. -/
def draftBasisPointerSchema : Shape :=
  .closed [⟨"kind", .word ["source", "memory", "search_result"], false⟩,
    ⟨"index", .integer 0, false⟩]

/-- `attributedDraftClaimSchema`. -/
def attributedDraftClaimSchema : Shape :=
  .refined (.closed [⟨"mode", .word ["stated", "inferred", "authored"], false⟩,
      ⟨"value", nonEmptyString, false⟩,
      ⟨"evidencePointers", arrayUpTo 64 draftEvidencePointerSchema, false⟩])
    fun value => decide ((value.member "mode").text ≠ js "stated") ||
      !(value.member "evidencePointers").items.isEmpty

/-- `ProposalGenerationDraftClaimSchema`. -/
def proposalGenerationDraftClaimSchema : Shape :=
  .anyOf [.closed [⟨"mode", .word ["unspecified"], false⟩], attributedDraftClaimSchema]

/-- `draftChallengeSchema`. -/
def draftChallengeSchema : Shape :=
  .closed [⟨"path", nonEmptyString, false⟩, ⟨"priorValue", protocolValueSchema, false⟩,
    ⟨"priorEvidencePointers", arrayUpTo 64 draftEvidencePointerSchema, false⟩,
    ⟨"reason", trimmedString (some 4096), false⟩,
    ⟨"impactPaths", arrayUpTo 256 nonEmptyString, false⟩]

/-- `proposalGenerationChangeSchema`. -/
def proposalGenerationChangeSchema : Shape :=
  .closed [⟨"id", trimmedString (some 256), false⟩,
    ⟨"operations", .list protocolValueSchema 1 (some 1000) fun _ => true, false⟩,
    ⟨"claimedOrigin", .word ["source_backed", "inferred", "recommended"], false⟩,
    ⟨"evidencePointers", arrayUpTo 64 draftEvidencePointerSchema, false⟩,
    ⟨"basisPointers", arrayUpTo 64 draftBasisPointerSchema, false⟩,
    ⟨"assumptions", arrayUpTo 128 (trimmedString (some 4096)), false⟩,
    ⟨"reason", trimmedString (some 4096), false⟩,
    ⟨"challenges", arrayUpTo 128 draftChallengeSchema, false⟩]

/-- `PROPOSAL_GENERATION_POSTURES`. -/
def proposalGenerationPostures : List String := ["source_only", "guided", "recommend"]

/-- The items of an array repeat no trimmed name. -/
def distinctIds (items : List JsValue) : Bool :=
  decide (items.map fun item => trim (item.member "id").text).Nodup

/-- `ProposalGenerationDraftSchema`. -/
def proposalGenerationDraftSchema : Shape :=
  .closed [⟨"schema", .word ["t3x.dev/proposal-generation-draft/v1"], false⟩,
    ⟨"version", literalOne, false⟩, ⟨"posture", .word proposalGenerationPostures, false⟩,
    ⟨"intent", proposalGenerationDraftClaimSchema, false⟩,
    ⟨"rationale", proposalGenerationDraftClaimSchema, false⟩,
    ⟨"changes", .list proposalGenerationChangeSchema 1 (some 200) distinctIds, false⟩,
    ⟨"alternatives", arrayUpTo 20 protocolValueSchema, true⟩,
    ⟨"warnings", arrayUpTo 256 (trimmedString (some 4096)), false⟩]

/-- `stateDescriptorSchema`. -/
def stateDescriptorSchema : Shape :=
  .closed [⟨"kind", .word ["state"], false⟩, ⟨"schema", .word ["t3x/state/v1"], false⟩,
    ⟨"digest", digestSchema, false⟩]

/-- `ProposalContextBundleSchema`. -/
def proposalContextBundleSchema : Shape :=
  .closed [⟨"schema", .word ["t3x.dev/proposal-context-bundle/v1"], false⟩,
    ⟨"version", literalOne, false⟩, ⟨"base", stateDescriptorSchema, false⟩,
    ⟨"yschema", resourceDescriptorSchema, false⟩,
    ⟨"sources", arrayUpTo 256 resourceDescriptorSchema, false⟩,
    ⟨"memories", arrayUpTo 256 resourceDescriptorSchema, false⟩,
    ⟨"searchResults", arrayUpTo 256 resourceDescriptorSchema, false⟩,
    ⟨"userInstruction", resourceDescriptorSchema, false⟩,
    ⟨"prompt", resourceDescriptorSchema, false⟩, ⟨"skill", resourceDescriptorSchema, true⟩]

/-! ## Reading what the schemas accept -/

/-- A trimmed member of a value. -/
def trimmedMember (value : JsValue) (key : String) : JsString := trim (value.member key).text

/-- A count that a value is. -/
def readCount (value : JsValue) : ℕ := value.number.toRat.num.toNat

/-- Read a resource. -/
def readResource (value : JsValue) : ResourceDescriptor :=
  ⟨trimmedMember value "uri", trimmedMember value "mediaType", (value.member "digest").text⟩

/-- Read a locator. -/
def readLocator (value : JsValue) : EvidenceLocator :=
  ⟨trimmedMember value "scheme", value.member "value"⟩

/-- Read a pointer. -/
def readPointer (value : JsValue) : DraftEvidencePointer :=
  ⟨readCount (value.member "sourceIndex"), readLocator (value.member "locator")⟩

/-- Read a pointer to a basis. -/
def readBasis (value : JsValue) : DraftBasisPointer where
  kind :=
    if (value.member "kind").text = js "source" then .source
    else if (value.member "kind").text = js "memory" then .memory
    else .searchResult
  index := readCount (value.member "index")

/-- Read a mode. -/
def readMode (value : JsValue) : ClaimMode :=
  if value.text = js "stated" then .stated
  else if value.text = js "inferred" then .inferred
  else .authored

/-- Read a claim. -/
def readClaim (value : JsValue) : ProposalGenerationDraftClaim :=
  if (value.member "mode").text = js "unspecified" then .unspecified
  else .attributed (readMode (value.member "mode")) (trimmedMember value "value")
    ((value.member "evidencePointers").items.map readPointer)

/-- Read a list of strings. -/
def readStrings (value : JsValue) : List JsString := value.items.map fun item => trim item.text

/-- Read a challenge. -/
def readChallenge (value : JsValue) : DraftChallenge where
  path := trimmedMember value "path"
  priorValue := value.member "priorValue"
  priorEvidencePointers := (value.member "priorEvidencePointers").items.map readPointer
  reason := trimmedMember value "reason"
  impactPaths := readStrings (value.member "impactPaths")

/-- Read a group of operations. -/
def readChange (value : JsValue) : GenerationChange where
  id := trimmedMember value "id"
  operations := (value.member "operations").items
  claimedOrigin := (value.member "claimedOrigin").text
  evidencePointers := (value.member "evidencePointers").items.map readPointer
  basisPointers := (value.member "basisPointers").items.map readBasis
  assumptions := readStrings (value.member "assumptions")
  reason := trimmedMember value "reason"
  challenges := (value.member "challenges").items.map readChallenge

/-- Read a draft. -/
def readDraft (value : JsValue) : ProposalGenerationDraft where
  posture := (value.member "posture").text
  intent := readClaim (value.member "intent")
  rationale := readClaim (value.member "rationale")
  changes := (value.member "changes").items.map readChange
  warnings := readStrings (value.member "warnings")

/-- Read a context bundle. -/
def readContext (value : JsValue) : ProposalContextBundle where
  sources := (value.member "sources").items.map readResource
  memories := (value.member "memories").items.map readResource
  searchResults := (value.member "searchResults").items.map readResource

end T3x.Proposals
