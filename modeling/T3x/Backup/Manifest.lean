import T3x.Js.DateText
import T3x.Js.Shape
import T3x.Js.Utf8

/-!
# The manifest of a project archive

An archive has six payloads, one of each kind, at fixed paths. Its manifest
declares how many bytes and records each of them has, and the digest of the
bytes. A manifest is validated before any payload is read; what the validation
accepts is the object of a typed manifest.
-/

namespace T3x.Backup

open Js

/-! ## Types -/

/-- `ProjectArchiveEntryKind`. -/
inductive ProjectArchiveEntryKind
  /-- `project_metadata`. -/
  | projectMetadata
  /-- `source_evidence`. -/
  | sourceEvidence
  /-- `repository_graph`. -/
  | repositoryGraph
  /-- `governance_evidence`. -/
  | governanceEvidence
  /-- `workspace_state`. -/
  | workspaceState
  /-- `outputs`. -/
  | outputs
  deriving DecidableEq

namespace ProjectArchiveEntryKind

/-- The name of a kind. -/
def name : ProjectArchiveEntryKind → String
  | projectMetadata => "project_metadata"
  | sourceEvidence => "source_evidence"
  | repositoryGraph => "repository_graph"
  | governanceEvidence => "governance_evidence"
  | workspaceState => "workspace_state"
  | outputs => "outputs"

/-- `PROJECT_ARCHIVE_ENTRY_CONTRACT[kind].path`. -/
def path : ProjectArchiveEntryKind → String
  | projectMetadata => "project/metadata.json"
  | sourceEvidence => "source/evidence.ndjson"
  | repositoryGraph => "repository/graph.ndjson"
  | governanceEvidence => "governance/evidence.ndjson"
  | workspaceState => "workspace/state.ndjson"
  | outputs => "outputs/artifacts.ndjson"

/-- `PROJECT_ARCHIVE_ENTRY_CONTRACT[kind].mediaType`. -/
def mediaType : ProjectArchiveEntryKind → String
  | projectMetadata => "application/json"
  | _ => "application/x-ndjson"

end ProjectArchiveEntryKind

/-- `ENTRY_KINDS`. -/
def entryKinds : List ProjectArchiveEntryKind :=
  [.projectMetadata, .sourceEvidence, .repositoryGraph, .governanceEvidence, .workspaceState,
    .outputs]

/-- `ProjectArchiveEntryDescriptor`. The path and the media type are those of the kind. -/
structure ProjectArchiveEntryDescriptor where
  /-- What the payload holds. -/
  kind : ProjectArchiveEntryKind
  /-- The length of the payload. -/
  bytes : ℕ
  /-- The number of its records. -/
  records : ℕ
  /-- The digits of the digest of the payload. -/
  hex : JsString
  deriving DecidableEq

/-- `ProjectArchiveManifestV1`. What every manifest has the same is left out: the schema and its
version, the model of commits and the policy of a restore. -/
structure ProjectArchiveManifestV1 where
  /-- When the archive was exported. -/
  exportedAt : JsString
  /-- The project it was exported of. -/
  projectId : JsString
  /-- The name of the project. -/
  projectName : JsString
  /-- The version of the schema of the core. -/
  coreSchemaVersion : ℕ
  /-- The payloads. -/
  entries : List ProjectArchiveEntryDescriptor
  /-- The digits of the digest of the manifest. -/
  archiveDigest : JsString
  deriving DecidableEq

/-! ## The object of a manifest -/

/-- A digest. -/
def digestValue (hex : JsString) : JsValue :=
  .obj [(js "algorithm", .str (js "sha256")), (js "hex", .str hex)]

/-- The object of a descriptor. -/
def ProjectArchiveEntryDescriptor.value (entry : ProjectArchiveEntryDescriptor) : JsValue :=
  .obj [(js "kind", .str (js entry.kind.name)), (js "path", .str (js entry.kind.path)),
    (js "mediaType", .str (js entry.kind.mediaType)), (js "bytes", .num (countNumber entry.bytes)),
    (js "records", .num (countNumber entry.records)), (js "digest", digestValue entry.hex)]

/-- The source of an archive. -/
def ProjectArchiveManifestV1.source (manifest : ProjectArchiveManifestV1) : JsValue :=
  .obj [(js "projectId", .str manifest.projectId), (js "projectName", .str manifest.projectName),
    (js "coreSchemaVersion", .num (countNumber manifest.coreSchemaVersion)),
    (js "commitModel", .str (js "CommitV2"))]

/-- The policy of a restore. -/
def restorePolicy : JsValue :=
  .obj [(js "createsNewProject", .bool true), (js "visibility", .str (js "private")),
    (js "authority", .str (js "server_resolved_target_namespace")),
    (js "restoresMemberships", .bool false), (js "restoresCredentials", .bool false),
    (js "restoresBilling", .bool false)]

/-- The members of a manifest that its digest is made of. -/
def ProjectArchiveManifestV1.payload (manifest : ProjectArchiveManifestV1) : Record JsValue :=
  [(js "schema", .str (js "t3x.project-archive/v1")), (js "version", .num (countNumber 1)),
    (js "exportedAt", .str manifest.exportedAt), (js "source", manifest.source),
    (js "restorePolicy", restorePolicy),
    (js "entries", .arr (manifest.entries.map ProjectArchiveEntryDescriptor.value))]

/-- `archiveDigestPayload(manifest)`. -/
def archiveDigestPayload (manifest : ProjectArchiveManifestV1) : JsString :=
  (JsValue.obj manifest.payload).encode Record.entries

/-- The object of a manifest. -/
def ProjectArchiveManifestV1.value (manifest : ProjectArchiveManifestV1) : JsValue :=
  .obj (manifest.payload ++ [(js "archiveDigest", digestValue manifest.archiveDigest)])

/-! ## Validation -/

/-- A complaint about what is not as it should be. -/
def complain (isRight : Bool) (message : JsString) : List JsString := if isRight then [] else [message]

/-- `hasExactKeys(value, expected)`. -/
def hasExactKeys (value : Record JsValue) (expected : List String) : Bool :=
  decide (sortBy compareCodeUnits (Record.keys value) = expected.map js)

/-- `isNonEmptyString(value)`. -/
def isNonEmptyString : Option JsValue → Bool
  | some (.str s) => decide (trim s ≠ [])
  | _ => false

/-- `isNonNegativeSafeInteger(value)`. -/
def isNonNegativeSafeInteger (value : Option JsValue) : Bool := value.any (Shape.integer 0)

/-- `isPositiveSafeInteger(value)`. -/
def isPositiveSafeInteger (value : Option JsValue) : Bool := value.any (Shape.integer 1)

/-- Whether a member is a text, or is missing where there is none. -/
def isText : Option JsValue → Option JsString → Bool
  | some (.str s), some text => decide (s = text)
  | none, none => true
  | _, _ => false

/-- Whether a member is a truth value. -/
def isFlag : Option JsValue → Bool → Bool
  | some (.bool b), expected => b == expected
  | _, _ => false

/-- `isCanonicalInstant(value)`. -/
def isCanonicalInstant (readOther : JsString → Option ℤ) : Option JsValue → Bool
  | some (.str s) => (dateParse readOther s).any fun instant => decide (toISOString instant = s)
  | _ => false

/-- `SHA256_HEX`. -/
def isSha256Hex (s : JsString) : Bool :=
  decide (s.length = 64) && s.all fun u => isDigit u || (97 ≤ u && u ≤ 102)

/-- Whether a member is a digest. -/
def isDigest : Option JsValue → Bool
  | some (.obj digest) =>
    hasExactKeys digest ["algorithm", "hex"] &&
      isText (Record.get digest (js "algorithm")) (some (js "sha256")) &&
      match Record.get digest (js "hex") with
      | some (.str hex) => isSha256Hex hex
      | _ => false
  | _ => false

/-- `PROJECT_ARCHIVE_ENTRY_CONTRACT[kind]` if the kind is in it. A name that every object has is in
it, and what it names has neither a path nor a media type. -/
def contractOf (kind : JsString) : Option (Option ProjectArchiveEntryKind) :=
  match entryKinds.find? fun k => decide (js k.name = kind) with
  | some k => some (some k)
  | none => if kind ∈ inheritedNames then some none else none

/-- The place of an entry in a complaint. -/
def atEntry (index : ℕ) (complaint : String) : JsString :=
  js "entries[" ++ natToString index ++ js "]" ++ js complaint

/-- `validateEntry(value, index, errors)`: what is added to the errors. -/
def validateEntry (value : JsValue) (index : ℕ) : List JsString :=
  match value with
  | .obj value =>
    complain (hasExactKeys value ["bytes", "digest", "kind", "mediaType", "path", "records"])
        (atEntry index " contains unknown or missing fields") ++
      match (Record.get value (js "kind")).bind fun
        | .str kind => contractOf kind
        | _ => none with
      | none => [atEntry index ".kind is not supported"]
      | some contract =>
        complain (isText (Record.get value (js "path")) (contract.map fun kind => js kind.path))
            (atEntry index ".path does not match its kind") ++
          complain (isText (Record.get value (js "mediaType"))
              (contract.map fun kind => js kind.mediaType))
            (atEntry index ".mediaType does not match its kind") ++
          complain (isNonNegativeSafeInteger (Record.get value (js "bytes")))
            (atEntry index ".bytes must be a non-negative safe integer") ++
          complain (isNonNegativeSafeInteger (Record.get value (js "records")))
            (atEntry index ".records must be a non-negative safe integer") ++
          complain (isDigest (Record.get value (js "digest")))
            (atEntry index ".digest must be a lowercase SHA-256 digest")
  | _ => [atEntry index " must be an object"]

/-- The texts that entries have under a name. -/
def entryTexts (entries : List JsValue) (name : String) : List JsString :=
  entries.filterMap fun
    | .obj entry =>
      match Record.get entry (js name) with
      | some (.str s) => some s
      | _ => none
    | _ => none

/-- The complaints about the entries of a manifest. -/
def validateEntries : Option JsValue → List JsString
  | some (.arr entries) =>
    let kinds := entryTexts entries "kind"
    let paths := entryTexts entries "path"
    let currentOrder := kinds.filter fun kind => (contractOf kind).isSome
    (entries.zipIdx.flatMap fun e => validateEntry e.1 e.2) ++
      (entryKinds.flatMap fun kind =>
        complain (decide (kinds.count (js kind.name) = 1))
          (js "entries must contain exactly one " ++ js kind.name ++ js " payload")) ++
      complain (decide (entries.length = entryKinds.length))
        (js "entries must contain exactly " ++ natToString entryKinds.length ++ js " payloads") ++
      complain (decide ((distinct paths).length = paths.length)) (js "entry paths must be unique") ++
      complain (decide (currentOrder.length = entryKinds.length →
          join 0 currentOrder = join 0 (entryKinds.map fun kind => js kind.name)))
        (js "entries must use canonical kind order")
  | _ => [js "entries must be an array"]

/-- The complaints about the source of a manifest. -/
def validateSource : Option JsValue → List JsString
  | some (.obj source) =>
    complain (hasExactKeys source ["commitModel", "coreSchemaVersion", "projectId", "projectName"])
        (js "source contains unknown or missing fields") ++
      complain (isNonEmptyString (Record.get source (js "projectId")))
        (js "source.projectId is required") ++
      complain (isNonEmptyString (Record.get source (js "projectName")))
        (js "source.projectName is required") ++
      complain (isPositiveSafeInteger (Record.get source (js "coreSchemaVersion")))
        (js "source.coreSchemaVersion must be a positive safe integer") ++
      complain (isText (Record.get source (js "commitModel")) (some (js "CommitV2")))
        (js "source.commitModel must be CommitV2")
  | _ => [js "source must be an object"]

/-- The complaints about the policy of a restore. -/
def validateRestorePolicy : Option JsValue → List JsString
  | some (.obj policy) =>
    complain (hasExactKeys policy ["authority", "createsNewProject", "restoresBilling",
        "restoresCredentials", "restoresMemberships", "visibility"])
        (js "restorePolicy contains unknown or missing fields") ++
      complain (isFlag (Record.get policy (js "createsNewProject")) true &&
          isText (Record.get policy (js "visibility")) (some (js "private")) &&
          isText (Record.get policy (js "authority"))
            (some (js "server_resolved_target_namespace")) &&
          isFlag (Record.get policy (js "restoresMemberships")) false &&
          isFlag (Record.get policy (js "restoresCredentials")) false &&
          isFlag (Record.get policy (js "restoresBilling")) false)
        (js "restorePolicy must preserve the tenant-safe v1 restore boundary")
  | _ => [js "restorePolicy must be an object"]

/-- The complaints about a manifest, but for the one that its digest is another one. -/
def manifestErrors (readOther : JsString → Option ℤ) (input : Record JsValue) : List JsString :=
  complain (hasExactKeys input ["archiveDigest", "entries", "exportedAt", "restorePolicy", "schema",
      "source", "version"]) (js "manifest contains unknown or missing fields") ++
    complain (isText (Record.get input (js "schema")) (some (js "t3x.project-archive/v1")))
      (js "manifest schema is unsupported") ++
    complain (match Record.get input (js "version") with
        | some (.num version) => version.strictEq (countNumber 1)
        | _ => false) (js "manifest version is unsupported") ++
    complain (isCanonicalInstant readOther (Record.get input (js "exportedAt")))
      (js "exportedAt must be a canonical UTC instant") ++
    validateSource (Record.get input (js "source")) ++
    validateRestorePolicy (Record.get input (js "restorePolicy")) ++
    validateEntries (Record.get input (js "entries")) ++
    complain (isDigest (Record.get input (js "archiveDigest")))
      (js "archiveDigest must be a lowercase SHA-256 digest")

/-! ## Reading a manifest -/

/-- The count that a number is. -/
def countOf (value : JsValue) : ℕ := value.number.toRat.num.toNat

/-- An entry that was validated, as a descriptor. -/
def entryOf (value : JsValue) : ProjectArchiveEntryDescriptor where
  kind := (entryKinds.find? fun k => decide (js k.name = (value.member "kind").text)).getD
    .projectMetadata
  bytes := countOf (value.member "bytes")
  records := countOf (value.member "records")
  hex := ((value.member "digest").member "hex").text

/-- A manifest that was validated: `input as unknown as ProjectArchiveManifestV1`. -/
def manifestOf (input : JsValue) : ProjectArchiveManifestV1 where
  exportedAt := (input.member "exportedAt").text
  projectId := ((input.member "source").member "projectId").text
  projectName := ((input.member "source").member "projectName").text
  coreSchemaVersion := countOf ((input.member "source").member "coreSchemaVersion")
  entries := (input.member "entries").items.map entryOf
  archiveDigest := ((input.member "archiveDigest").member "hex").text

/-- `validateProjectArchiveManifest(input)`: the manifest, or the errors. -/
def validateProjectArchiveManifest (sha256 : List UInt8 → JsString)
    (readOther : JsString → Option ℤ) (input : JsValue) :
    Except (List JsString) ProjectArchiveManifestV1 :=
  match input with
  | .obj members =>
    if manifestErrors readOther members ≠ [] then .error (manifestErrors readOther members)
    else
      let manifest := manifestOf input
      if manifest.archiveDigest ≠ sha256 (encodeUtf8 (archiveDigestPayload manifest)) then
        .error [js "archiveDigest does not match the manifest"]
      else .ok manifest
  | _ => .error [js "manifest must be an object"]

/-! ## Manifests that are created -/

/-- A typed manifest whose object is accepted, but for its digest. -/
structure ProjectArchiveManifestV1.IsWellFormed (manifest : ProjectArchiveManifestV1) : Prop where
  /-- It was exported at a point in time. -/
  exportedAt : ∃ instant, inRange instant ∧ manifest.exportedAt = toISOString instant
  /-- The project has an identity. -/
  projectId : trim manifest.projectId ≠ []
  /-- The project has a name. -/
  projectName : trim manifest.projectName ≠ []
  /-- The version of the schema is positive. -/
  coreSchemaVersion : 1 ≤ manifest.coreSchemaVersion
  /-- It is a safe integer. -/
  safeVersion : manifest.coreSchemaVersion < 2 ^ 53
  /-- There is one payload of each kind. -/
  kinds : manifest.entries.map ProjectArchiveEntryDescriptor.kind = entryKinds
  /-- Their counts are safe integers. -/
  safeCounts : ∀ entry ∈ manifest.entries, entry.bytes < 2 ^ 53 ∧ entry.records < 2 ^ 53
  /-- Their digests are digests. -/
  digests : ∀ entry ∈ manifest.entries, isSha256Hex entry.hex = true
  /-- So is that of the manifest. -/
  archiveDigest : isSha256Hex manifest.archiveDigest = true

/-- The keys of an object are exact if they are the expected ones in another order. -/
theorem hasExactKeys_of_perm {value : Record JsValue} {expected : List String} (names : List String)
    (hnames : value.map Prod.fst = names.map js) (hperm : (names.map js).Perm (expected.map js))
    (hsorted : (expected.map js).Pairwise fun a b => compareCodeUnits a b < 0) :
    hasExactKeys value expected = true := by
  have hc := isStringOrder_compareCodeUnits.isComparison
  rw [← hnames] at hperm
  have hnodup : (value.map Prod.fst).Nodup := by
    refine hperm.nodup_iff.mpr (hsorted.imp fun {a b} hlt heq => ?_)
    rw [heq, hc.refl] at hlt
    exact absurd hlt (lt_irrefl 0)
  refine decide_eq_true ?_
  rw [Record.keys, Record.entries_of_nodup hnodup]
  refine List.Perm.eq_of_pairwise (fun a b _ _ hab hba => ?_) (hc.sortBy_pairwise _)
    (hsorted.imp fun {a b} h => h.le) ((sortBy_perm _ _).trans hperm)
  have hswap := hc.swap a b
  exact (isStringOrder_compareCodeUnits.eq_zero a b).mp (by omega)

/-- What is right gives no complaint. -/
theorem complain_of_right {isRight : Bool} (h : isRight = true) (message : JsString) :
    complain isRight message = [] := if_pos h

/-- A count is a safe integer. -/
theorem isNonNegativeSafeInteger_countNumber {n : ℕ} (h : n < 2 ^ 53) :
    isNonNegativeSafeInteger (some (.num (countNumber n))) = true :=
  integer_countNumber h (Int.natCast_nonneg n)

/-- A digest is accepted. -/
theorem isDigest_digestValue {hex : JsString} (h : isSha256Hex hex = true) :
    isDigest (some (digestValue hex)) = true := by
  have hkeys : hasExactKeys [(js "algorithm", .str (js "sha256")), (js "hex", .str hex)]
      ["algorithm", "hex"] = true := 
    hasExactKeys_of_perm ["algorithm", "hex"] rfl (by decide) (by decide)
  have halgorithm : Record.get [(js "algorithm", JsValue.str (js "sha256")), (js "hex", .str hex)]
      (js "algorithm") = some (.str (js "sha256")) := rfl
  have hhex : Record.get [(js "algorithm", JsValue.str (js "sha256")), (js "hex", .str hex)]
      (js "hex") = some (.str hex) := rfl
  simp only [digestValue, isDigest, hkeys, halgorithm, hhex, isText, h, decide_true, Bool.and_self]

/-- Every kind is in the contract. -/
theorem contractOf_name (kind : ProjectArchiveEntryKind) :
    contractOf (js kind.name) = some (some kind) := by
  cases kind <;> decide

/-- The object of a descriptor is accepted. -/
theorem validateEntry_value {entry : ProjectArchiveEntryDescriptor}
    (hcounts : entry.bytes < 2 ^ 53 ∧ entry.records < 2 ^ 53)
    (hhex : isSha256Hex entry.hex = true) (index : ℕ) : validateEntry entry.value index = [] := by
  obtain ⟨kind, bytes, records, hex⟩ := entry
  have hkeys : hasExactKeys [(js "kind", JsValue.str (js kind.name)), (js "path", .str (js kind.path)),
      (js "mediaType", .str (js kind.mediaType)), (js "bytes", .num (countNumber bytes)),
      (js "records", .num (countNumber records)), (js "digest", digestValue hex)]
      ["bytes", "digest", "kind", "mediaType", "path", "records"] = true :=
    hasExactKeys_of_perm ["kind", "path", "mediaType", "bytes", "records", "digest"] rfl
      (by decide) (by decide)
  have htext : ∀ text : JsString, isText (some (.str text)) (some text) = true :=
    fun text => decide_eq_true rfl
  rw [ProjectArchiveEntryDescriptor.value, validateEntry, complain_of_right hkeys]
  change (match contractOf (js kind.name) with | none => _ | some contract => _) = _
  rw [contractOf_name]
  change complain (isText (some (.str (js kind.path))) (some (js kind.path))) _ ++
    complain (isText (some (.str (js kind.mediaType))) (some (js kind.mediaType))) _ ++
    complain (isNonNegativeSafeInteger (some (.num (countNumber bytes)))) _ ++
    complain (isNonNegativeSafeInteger (some (.num (countNumber records)))) _ ++
    complain (isDigest (some (digestValue hex))) _ = []
  simp only [htext, isNonNegativeSafeInteger_countNumber hcounts.1,
    isNonNegativeSafeInteger_countNumber hcounts.2, isDigest_digestValue hhex,
    complain_of_right, List.append_nil]

/-- The texts of descriptors under a name. -/
theorem entryTexts_values (name : String) (text : ProjectArchiveEntryKind → String)
    (h : ∀ entry : ProjectArchiveEntryDescriptor,
      entryTexts [entry.value] name = [js (text entry.kind)])
    (entries : List ProjectArchiveEntryDescriptor) :
    entryTexts (entries.map ProjectArchiveEntryDescriptor.value) name =
      (entries.map ProjectArchiveEntryDescriptor.kind).map fun kind => js (text kind) := by
  induction entries with
  | nil => rfl
  | cons entry entries ih =>
    have happend : entryTexts (entry.value :: entries.map ProjectArchiveEntryDescriptor.value) name =
        entryTexts [entry.value] name ++
          entryTexts (entries.map ProjectArchiveEntryDescriptor.value) name :=
      List.filterMap_append (l := [entry.value])
    rw [List.map_cons, happend, h, ih]
    rfl

/-- The entries of a well-formed manifest are accepted. -/
theorem validateEntries_values {manifest : ProjectArchiveManifestV1} (h : manifest.IsWellFormed) :
    validateEntries
      (some (.arr (manifest.entries.map ProjectArchiveEntryDescriptor.value))) = [] := by
  have hkinds := entryTexts_values "kind" ProjectArchiveEntryKind.name
    (fun _ => rfl) manifest.entries
  have hpaths := entryTexts_values "path" ProjectArchiveEntryKind.path
    (fun _ => rfl) manifest.entries
  have hlength : manifest.entries.length = entryKinds.length := by
    rw [← h.kinds, List.length_map]
  have hentries : ((manifest.entries.map ProjectArchiveEntryDescriptor.value).zipIdx.flatMap
      fun e => validateEntry e.1 e.2) = [] := by
    rw [List.flatMap_eq_nil_iff]
    rintro ⟨value, index⟩ hmem
    obtain ⟨entry, hentry, rfl⟩ := List.mem_map.mp (List.fst_mem_of_mem_zipIdx hmem)
    exact validateEntry_value (h.safeCounts entry hentry) (h.digests entry hentry) index
  rw [h.kinds] at hkinds hpaths
  simp only [validateEntries, hentries, hkinds, hpaths, List.length_map, hlength, List.nil_append]
  decide

/-- The source of a well-formed manifest is accepted. -/
theorem validateSource_source {manifest : ProjectArchiveManifestV1} (h : manifest.IsWellFormed) :
    validateSource (some manifest.source) = [] := by
  have hkeys : hasExactKeys [(js "projectId", JsValue.str manifest.projectId),
      (js "projectName", .str manifest.projectName),
      (js "coreSchemaVersion", .num (countNumber manifest.coreSchemaVersion)),
      (js "commitModel", .str (js "CommitV2"))]
      ["commitModel", "coreSchemaVersion", "projectId", "projectName"] = true :=
    hasExactKeys_of_perm ["projectId", "projectName", "coreSchemaVersion", "commitModel"]
      rfl (by decide) (by decide)
  have hversion : isPositiveSafeInteger
      (some (.num (countNumber manifest.coreSchemaVersion))) = true :=
    integer_countNumber h.safeVersion (by exact_mod_cast h.coreSchemaVersion)
  have hid : isNonEmptyString (some (.str manifest.projectId)) = true := decide_eq_true h.projectId
  have hname : isNonEmptyString (some (.str manifest.projectName)) = true :=
    decide_eq_true h.projectName
  rw [ProjectArchiveManifestV1.source, validateSource, complain_of_right hkeys]
  change complain (isNonEmptyString (some (.str manifest.projectId))) _ ++
    complain (isNonEmptyString (some (.str manifest.projectName))) _ ++
    complain (isPositiveSafeInteger (some (.num (countNumber manifest.coreSchemaVersion)))) _ ++
    complain (isText (some (.str (js "CommitV2"))) (some (js "CommitV2"))) _ = []
  simp only [hid, hname, hversion, isText, decide_true, complain_of_right, List.append_nil]

/-- The policy of a restore is accepted. -/
theorem validateRestorePolicy_restorePolicy :
    validateRestorePolicy (some restorePolicy) = [] := by
  have hkeys : hasExactKeys [(js "createsNewProject", JsValue.bool true),
      (js "visibility", .str (js "private")),
      (js "authority", .str (js "server_resolved_target_namespace")),
      (js "restoresMemberships", .bool false), (js "restoresCredentials", .bool false),
      (js "restoresBilling", .bool false)]
      ["authority", "createsNewProject", "restoresBilling", "restoresCredentials",
        "restoresMemberships", "visibility"] = true :=
    hasExactKeys_of_perm ["createsNewProject", "visibility", "authority",
      "restoresMemberships", "restoresCredentials", "restoresBilling"] rfl (by decide) (by decide)
  rw [restorePolicy, validateRestorePolicy, complain_of_right hkeys]
  decide

/-- The object of a well-formed manifest has no errors. -/
theorem manifestErrors_value (readOther : JsString → Option ℤ)
    {manifest : ProjectArchiveManifestV1} (h : manifest.IsWellFormed) :
    manifestErrors readOther
      (manifest.payload ++ [(js "archiveDigest", digestValue manifest.archiveDigest)]) = [] := by
  have hkeys : hasExactKeys
      (manifest.payload ++ [(js "archiveDigest", digestValue manifest.archiveDigest)])
      ["archiveDigest", "entries", "exportedAt", "restorePolicy", "schema", "source",
        "version"] = true :=
    hasExactKeys_of_perm ["schema", "version", "exportedAt", "source", "restorePolicy",
      "entries", "archiveDigest"] rfl (by decide) (by decide)
  obtain ⟨instant, hrange, hinstant⟩ := h.exportedAt
  have hexported : isCanonicalInstant readOther (some (.str manifest.exportedAt)) = true := by
    simp only [hinstant, isCanonicalInstant, dateParse_toISOString readOther hrange,
      Option.any_some, decide_true]
  have hversion : (countNumber 1).strictEq (countNumber 1) = true := by
    simp only [JsNumber.strictEq, decide_true]
  obtain ⟨members, hmembers⟩ : ∃ members, members =
      manifest.payload ++ [(js "archiveDigest", digestValue manifest.archiveDigest)] := ⟨_, rfl⟩
  rw [← hmembers] at hkeys ⊢
  have hschema : Record.get members (js "schema") =
      some (.str (js "t3x.project-archive/v1")) := by rw [hmembers]; rfl
  have hversionMember : Record.get members (js "version") = some (.num (countNumber 1)) := by
    rw [hmembers]; rfl
  have hexportedMember : Record.get members (js "exportedAt") =
      some (.str manifest.exportedAt) := by rw [hmembers]; rfl
  have hsource : Record.get members (js "source") = some manifest.source := by rw [hmembers]; rfl
  have hpolicy : Record.get members (js "restorePolicy") = some restorePolicy := by
    rw [hmembers]; rfl
  have hentries : Record.get members (js "entries") =
      some (.arr (manifest.entries.map ProjectArchiveEntryDescriptor.value)) := by
    rw [hmembers]; rfl
  have hdigest : Record.get members (js "archiveDigest") =
      some (digestValue manifest.archiveDigest) := by rw [hmembers]; rfl
  simp only [manifestErrors, complain_of_right hkeys, hschema, hversionMember, hexportedMember,
    hsource, hpolicy, hentries, hdigest, isText, decide_true, hversion, hexported,
    isDigest_digestValue h.archiveDigest, validateSource_source h,
    validateRestorePolicy_restorePolicy, validateEntries_values h, complain_of_right,
    List.append_nil]

/-- A safe count is read from its number. -/
theorem countOf_countNumber {n : ℕ} (h : n < 2 ^ 53) : countOf (.num (countNumber n)) = n := by
  rw [countOf, JsValue.number, toRat_countNumber h, Rat.num_natCast, Int.toNat_natCast]

/-- A descriptor is read from its object. -/
theorem entryOf_value {entry : ProjectArchiveEntryDescriptor}
    (hcounts : entry.bytes < 2 ^ 53 ∧ entry.records < 2 ^ 53) : entryOf entry.value = entry := by
  obtain ⟨kind, bytes, records, hex⟩ := entry
  have hkind : (entryKinds.find? fun k => decide (js k.name = js kind.name)).getD
      .projectMetadata = kind := by
    cases kind <;> decide
  change ProjectArchiveEntryDescriptor.mk ((entryKinds.find? fun k =>
    decide (js k.name = js kind.name)).getD .projectMetadata) (countOf (.num (countNumber bytes)))
      (countOf (.num (countNumber records))) hex = _
  rw [hkind, countOf_countNumber hcounts.1, countOf_countNumber hcounts.2]

/-- A well-formed manifest is read from its object. -/
theorem manifestOf_value {manifest : ProjectArchiveManifestV1} (h : manifest.IsWellFormed) :
    manifestOf manifest.value = manifest := by
  have hentries : (manifest.entries.map ProjectArchiveEntryDescriptor.value).map entryOf =
      manifest.entries := by
    rw [List.map_map]
    exact (List.map_congr_left fun entry hentry => entryOf_value (h.safeCounts entry hentry)).trans
      (List.map_id _)
  obtain ⟨exportedAt, projectId, projectName, coreSchemaVersion, entries, archiveDigest⟩ := manifest
  change ProjectArchiveManifestV1.mk exportedAt projectId projectName
    (countOf (.num (countNumber coreSchemaVersion)))
    ((entries.map ProjectArchiveEntryDescriptor.value).map entryOf) archiveDigest = _
  rw [countOf_countNumber h.safeVersion, hentries]

/-- The object of a well-formed manifest is accepted, and read as the manifest. -/
theorem validateProjectArchiveManifest_value {sha256 : List UInt8 → JsString}
    {readOther : JsString → Option ℤ} {manifest : ProjectArchiveManifestV1}
    (h : manifest.IsWellFormed)
    (hdigest : manifest.archiveDigest = sha256 (encodeUtf8 (archiveDigestPayload manifest))) :
    validateProjectArchiveManifest sha256 readOther manifest.value = .ok manifest := by
  have herrors := manifestErrors_value readOther h
  have hread := manifestOf_value h
  rw [ProjectArchiveManifestV1.value] at hread ⊢
  simp only [validateProjectArchiveManifest, herrors, hread, ne_eq, not_true_eq_false, if_false,
    ← hdigest]

end T3x.Backup
