import T3x.Transition.Identity
import T3x.Js.Search
import T3x.Js.Shape

/-!
# The source inputs of an ESPHome configuration

A root source and the resources supplied with it are bound into one manifest. The
includes are walked depth first; what the walk meets is recorded as issues, and only
inputs without an issue are ready. What one source includes, the secrets it uses and its
own issues come of its text and are a parameter, as is the hash.
-/

namespace T3x.Esphome

open Js Transition

/-- The media type of a YAML source. -/
def yamlSourceMediaType : JsString := js "application/yaml"

/-- The version of the codec of YAML sources. -/
def yamlSourceCodecVersion : JsString := js "1"

/-- The format of a manifest. -/
def esphomeSourceInputManifestFormat : JsString := js "t3x.dev/esphome-source-input-manifest/v1"

/-- The media type of a manifest. -/
def esphomeSourceInputManifestMediaType : JsString :=
  js "application/vnd.t3x.esphome-source-input-manifest+json"

/-- The code of an issue. -/
inductive EspHomeSourceInputIssueCode where
  /-- A source includes one that is being walked. -/
  | includeCycle
  /-- A source includes one that was not supplied. -/
  | missingResource
  /-- A secret that a source uses is not available. -/
  | missingSecret
  /-- A source cannot be parsed. -/
  | sourceDependencyScanFailed
  /-- A file name depends on a substitution. -/
  | unsupportedDynamicInclude
  /-- A whole directory is included. -/
  | unsupportedIncludeDirectory
  /-- An include is not a portable relative path. -/
  | unsupportedIncludeShape
  /-- A package is remote. -/
  | unsupportedRemotePackage
  /-- A tag is unknown. -/
  | unsupportedTag
  /-- A supplied resource is not reached. -/
  | unusedResource
  deriving DecidableEq

/-- The text of a code. -/
def EspHomeSourceInputIssueCode.text : EspHomeSourceInputIssueCode → JsString
  | .includeCycle => js "INCLUDE_CYCLE"
  | .missingResource => js "MISSING_RESOURCE"
  | .missingSecret => js "MISSING_SECRET"
  | .sourceDependencyScanFailed => js "SOURCE_DEPENDENCY_SCAN_FAILED"
  | .unsupportedDynamicInclude => js "UNSUPPORTED_DYNAMIC_INCLUDE"
  | .unsupportedIncludeDirectory => js "UNSUPPORTED_INCLUDE_DIRECTORY"
  | .unsupportedIncludeShape => js "UNSUPPORTED_INCLUDE_SHAPE"
  | .unsupportedRemotePackage => js "UNSUPPORTED_REMOTE_PACKAGE"
  | .unsupportedTag => js "UNSUPPORTED_TAG"
  | .unusedResource => js "UNUSED_RESOURCE"

/-- Whether the scan of a source can report an issue with the code. -/
def EspHomeSourceInputIssueCode.ofScan : EspHomeSourceInputIssueCode → Bool
  | .includeCycle | .missingResource | .missingSecret | .unusedResource => false
  | _ => true

/-- An issue of the inputs. -/
structure EspHomeSourceInputIssue where
  /-- The code. -/
  code : EspHomeSourceInputIssueCode
  /-- The path of the source. -/
  sourcePath : JsString
  /-- What the source refers to. -/
  reference : Option JsString := none
  /-- The message. -/
  message : JsString
  deriving DecidableEq

/-- A resource that is named by its digest. -/
structure ResourceDescriptor where
  /-- Where the resource is found. -/
  uri : JsString
  /-- Its media type. -/
  mediaType : JsString
  /-- The digest of its bytes. -/
  digest : JsString
  deriving DecidableEq

/-- A resource descriptor as the value that it is. -/
def ResourceDescriptor.value (resource : ResourceDescriptor) : JsValue :=
  .obj [(js "uri", .str resource.uri), (js "mediaType", .str resource.mediaType),
    (js "digest", .str resource.digest)]

/-- A resource that is supplied with the root. -/
structure EspHomeSourceResourceInput where
  /-- The path under which it is included. -/
  path : JsString
  /-- The text. -/
  source : JsString
  /-- The descriptor of the text. -/
  descriptor : ResourceDescriptor
  deriving DecidableEq

/-- The input of `bindEspHomeSourceInputs`. -/
structure BindEspHomeSourceInputsInput where
  /-- The State that holds the root source. -/
  root : JsValue
  /-- The path of the root source. -/
  rootPath : JsString
  /-- The resources. -/
  resources : List EspHomeSourceResourceInput
  /-- The names of the secrets that can be resolved. -/
  availableSecretNames : List JsString
  /-- Where the manifest will be found. -/
  manifestUri : JsString
  deriving DecidableEq

/-- A source that the walk reads. -/
structure SourceFile where
  /-- The path. -/
  path : JsString
  /-- The text. -/
  source : JsString
  /-- The descriptor, which the root lacks. -/
  descriptor : Option ResourceDescriptor := none
  deriving DecidableEq

/-- What the scan of a source finds. -/
structure ScannedSource where
  /-- The references of the includes. -/
  includes : List JsString
  /-- The names of the secrets. -/
  secretReferences : List JsString
  /-- The issues of the source itself. -/
  issues : List EspHomeSourceInputIssue
  /-- The issues have the codes of a scan. -/
  codes : ∀ issue ∈ issues, issue.code.ofScan = true

/-- The supplied resources by their paths, with the root, which is none of them. -/
structure SourceFiles where
  /-- The root. -/
  root : SourceFile
  /-- `resourceByPath`. -/
  resourceByPath : Record SourceFile
  /-- A resource stands under its own path. -/
  named : ∀ path file, Record.get resourceByPath path = some file → file.path = path
  /-- The root is not among the resources. -/
  apart : Record.has resourceByPath root.path = false

/-! ## Checks of the input -/

/-- `comparePortable(left, right)`. -/
def comparePortable (left right : JsString) : Int := compareCodeUnits left right

/-- The digest that names the bytes of a text. -/
def sha256Utf8 (sha256 : List UInt8 → JsString) (value : JsString) : JsString :=
  js "sha256:" ++ sha256 (encodeUtf8 value)

/-- `assertNonEmpty(value, path)`. -/
def assertNonEmpty (value path : JsString) : Except ProtocolError Unit :=
  if trim value = [] then .error (schemaError (js "Expected a non-empty string") path) else .ok ()

/-- The code units of portable paths. -/
def isPortableUnit (u : UInt16) : Bool :=
  (unit 'A' ≤ u && u ≤ unit 'Z') || (unit 'a' ≤ u && u ≤ unit 'z') || isDigit u ||
    u == unit '.' || u == unit '_' || u == unit '/' || u == unit '-'

/-- Whether a text is a normalized portable relative path. -/
def isPortablePath (value : JsString) : Bool :=
  !value.isEmpty && value.all isPortableUnit && !startsWith value (js "/") &&
    !endsWith value (js "/") && !includes value (js "//") && !includes value (js "\\") &&
    !(split (unit '/') value).any fun segment =>
      segment == js "." || segment == js ".." || segment == []

/-- `assertPortablePath(value, path)`. -/
def assertPortablePath (value path : JsString) : Except ProtocolError Unit :=
  if isPortablePath value then .ok ()
  else .error (schemaError (js "Expected a normalized portable relative path") path)

/-- Whether a text is the name of a secret. -/
def isSecretName (value : JsString) : Bool :=
  match value with
  | [] => false
  | u :: rest =>
    let isStart (v : UInt16) : Bool :=
      (unit 'A' ≤ v && v ≤ unit 'Z') || (unit 'a' ≤ v && v ≤ unit 'z') || v == unit '_'
    isStart u && rest.all fun v => isStart v || isDigit v

/-- `assertSecretName(value, path)`. -/
def assertSecretName (value path : JsString) : Except ProtocolError Unit :=
  if isSecretName value then .ok ()
  else .error (schemaError (js "Expected a portable secret reference name") path)

/-- A code unit in lower case. Only portable paths are lowered, and these are ASCII. -/
def lowerUnit (u : UInt16) : UInt16 :=
  if unit 'A' ≤ u && u ≤ unit 'Z' then u + 32 else u

/-- `isSecretValueFile(path)`. -/
def isSecretValueFile (path : JsString) : Bool :=
  (split (unit '/') path).getLast?.map (List.map lowerUnit) = some (js "secrets.yaml")

section

variable (sha256 : List UInt8 → JsString)

/-- `createYamlSourceResourceDescriptor(uri, source)`. -/
def createYamlSourceResourceDescriptor (uri source : JsString) :
    Except ProtocolError ResourceDescriptor := do
  assertNonEmpty uri (js "$.uri")
  let _ ← canonicalizeProtocolValue (.str source)
  return ⟨uri, yamlSourceMediaType, sha256Utf8 sha256 source⟩

/-- `verifySourceResource(resource, index)`, with the path of the resource in the input. -/
def verifySourceResource (resource : EspHomeSourceResourceInput) (path : JsString) :
    Except ProtocolError Unit := do
  assertPortablePath resource.path (path ++ js ".path")
  if isSecretValueFile resource.path then
    throw (schemaError (js "Secret value files are not accepted as source resources")
      (path ++ js ".path"))
  let expected ← createYamlSourceResourceDescriptor sha256 resource.descriptor.uri resource.source
  if resource.descriptor.mediaType ≠ expected.mediaType ∨
      resource.descriptor.digest ≠ expected.digest then
    throw (schemaError (js "Resource descriptor does not bind the supplied exact source bytes")
      (path ++ js ".descriptor"))

/-- A resource as the walk reads it. -/
def EspHomeSourceResourceInput.file (resource : EspHomeSourceResourceInput) : SourceFile :=
  ⟨resource.path, resource.source, some resource.descriptor⟩

/-- Whether a path is the root's or that of a resource. -/
def SourceFiles.has (files : SourceFiles) (path : JsString) : Bool :=
  path == files.root.path || Record.has files.resourceByPath path

/-- The root without resources. -/
def SourceFiles.only (root : SourceFile) : SourceFiles where
  root := root
  resourceByPath := []
  named _ _ hfile := by cases hfile
  apart := rfl

/-- The sources with one more resource, whose path is new. -/
def SourceFiles.add (files : SourceFiles) (resource : EspHomeSourceResourceInput)
    (h : ¬files.has resource.path = true) : SourceFiles where
  root := files.root
  resourceByPath := Record.mapSet files.resourceByPath resource.path resource.file
  named path file hfile := by
    rw [Record.get_mapSet] at hfile
    split_ifs at hfile with hpath
    · rw [← Option.some.inj hfile, hpath]
      rfl
    · exact files.named path file hfile
  apart := by
    have hne : files.root.path ≠ resource.path := by
      rintro heq
      exact h (by simp [SourceFiles.has, heq])
    have hget := Record.has_eq_false.mp files.apart
    rw [Record.has_eq_false, Record.get_mapSet, if_neg hne, hget]

/-- The resources, from an index on, that are verified and added in turn. -/
def addResources : ℕ → SourceFiles → List EspHomeSourceResourceInput →
    Except ProtocolError SourceFiles
  | _, files, [] => return files
  | index, files, resource :: resources => do
    verifySourceResource sha256 resource (itemPath (js "$.resources") index)
    if h : files.has resource.path = true then
      throw (schemaError (js "Duplicate source resource path")
        (itemPath (js "$.resources") index ++ js ".path"))
    else addResources (index + 1) (files.add resource h) resources

end

/-- The names of secrets, from an index on, that are checked and added in turn. -/
def addSecretNames : ℕ → List JsString → List JsString → Except ProtocolError (List JsString)
  | _, availableSecrets, [] => return availableSecrets
  | index, availableSecrets, name :: names => do
    assertSecretName name (itemPath (js "$.availableSecretNames") index)
    if name ∈ availableSecrets then
      throw (schemaError (js "Duplicate available secret name")
        (itemPath (js "$.availableSecretNames") index))
    addSecretNames (index + 1) (availableSecrets ++ [name]) names

/-- `yamlSourceStateCodec.decode(value)`. -/
def decodeYamlSource (value : JsValue) : Except ProtocolError JsString := do
  match value with
  | .str source =>
    let _ ← canonicalizeProtocolValue value
    return source
  | _ => throw (schemaError (js "YAML source State value must be a string") (js "$.value"))

/-- The value that `createYamlSourceState(source)` parses. -/
def yamlSourceState (source : JsString) : JsValue :=
  .obj [(js "schema", .str stateSchema), (js "codec", .obj [(js "mediaType",
    .str yamlSourceMediaType), (js "version", .str yamlSourceCodecVersion)]),
    (js "value", .str source)]

/-- What the checks make of an input. -/
structure CheckedInputs where
  /-- The State of the root. -/
  rootState : JsValue
  /-- The sources. -/
  files : SourceFiles
  /-- The names of the secrets. -/
  availableSecrets : List JsString
  /-- Where the manifest will be found. -/
  manifestUri : JsString

/-- The checks of `bindEspHomeSourceInputs` before its walk. -/
def checkInputs (sha256 : List UInt8 → JsString) (input : BindEspHomeSourceInputsInput) :
    Except ProtocolError CheckedInputs := do
  let rootState ← parseState input.root
  let codec := rootState.member "codec"
  if codec.member "mediaType" ≠ .str yamlSourceMediaType ∨
      codec.member "version" ≠ .str yamlSourceCodecVersion then
    throw ⟨.unsupportedMediaType, js "ESPHome source inputs require State codec " ++
      yamlSourceMediaType ++ js "@" ++ yamlSourceCodecVersion, none⟩
  assertPortablePath input.rootPath (js "$.rootPath")
  if isSecretValueFile input.rootPath then
    throw (schemaError (js "Secret value files cannot be the root State") (js "$.rootPath"))
  assertNonEmpty input.manifestUri (js "$.manifestUri")
  let rootSource ← decodeYamlSource (rootState.member "value")
  let availableSecrets ← addSecretNames 0 [] input.availableSecretNames
  let root : SourceFile := { path := input.rootPath, source := rootSource }
  let files ← addResources sha256 0 (.only root) input.resources
  return { rootState, files, availableSecrets, manifestUri := input.manifestUri }

/-! ## The walk -/

/-- `resolveIncludePath(fromPath, reference)`. -/
def resolveIncludePath (fromPath reference : JsString) : Option JsString :=
  if isPortablePath reference then
    some (join (unit '/') ((split (unit '/') fromPath).dropLast ++ split (unit '/') reference))
  else none

/-- The sets and the issues of a walk. -/
structure WalkState where
  /-- The paths of the sources that have been walked. -/
  visited : List JsString := []
  /-- The paths of the sources whose walk is not over, innermost first. -/
  visiting : List JsString := []
  /-- The paths of the resources that are included. -/
  referencedResources : List JsString := []
  /-- The names of the secrets that are used. -/
  secretReferences : List JsString := []
  /-- The issues. -/
  issues : List EspHomeSourceInputIssue := []
  deriving DecidableEq

/-- `set.add(item)`. -/
def setAdd (set : List JsString) (item : JsString) : List JsString :=
  if item ∈ set then set else set ++ [item]

/-- The state with one more issue. -/
def WalkState.report (state : WalkState) (issue : EspHomeSourceInputIssue) : WalkState :=
  { state with issues := state.issues ++ [issue] }

/-- The issue of a source that is walked again before its walk is over. -/
def cycleAt (path : JsString) : EspHomeSourceInputIssue :=
  ⟨.includeCycle, path, some path, js "Include cycle detected at " ++ path⟩

/-- The issue of an include that leads back to a source whose walk is not over. -/
def cycleTo (path resolved : JsString) : EspHomeSourceInputIssue :=
  ⟨.includeCycle, path, some resolved,
    js "Include cycle detected from " ++ path ++ js " to " ++ resolved⟩

/-- The issue of an include whose reference is not portable. -/
def includeShape (path reference : JsString) : EspHomeSourceInputIssue :=
  ⟨.unsupportedIncludeShape, path, some reference,
    js "Include path is not a portable relative path in " ++ path⟩

/-- The issue of an include of a source that was not supplied. -/
def notSupplied (path resolved : JsString) : EspHomeSourceInputIssue :=
  ⟨.missingResource, path, some resolved,
    js "Required source resource " ++ resolved ++ js " was not supplied"⟩

section

variable (scanSource : SourceFile → ScannedSource) (resourceByPath : Record SourceFile)

/-- One reference of a source, with the walk of the sources that it includes. -/
def followInclude (walk : SourceFile → WalkState → Option WalkState) (file : SourceFile)
    (state : WalkState) (reference : JsString) : Option WalkState :=
  match resolveIncludePath file.path reference with
  | none => some (state.report (includeShape file.path reference))
  | some resolved =>
    match Record.get resourceByPath resolved with
    | none => some (state.report (notSupplied file.path resolved))
    | some dependency =>
      let referenced :=
        { state with referencedResources := setAdd state.referencedResources resolved }
      if resolved ∈ state.visiting then some (referenced.report (cycleTo file.path resolved))
      else walk dependency referenced

/-- The state when a source is entered: it is being walked, and its scan is recorded. -/
def enter (file : SourceFile) (state : WalkState) : WalkState :=
  { state with
    visiting := file.path :: state.visiting
    issues := state.issues ++ (scanSource file).issues
    secretReferences := (scanSource file).secretReferences.foldl setAdd state.secretReferences }

/-- The state when a source is left. -/
def leave (file : SourceFile) (state : WalkState) : WalkState :=
  { state with
    visiting := state.visiting.erase file.path
    visited := setAdd state.visited file.path }

/-- `walk(file)`, on fuel for the depth of the includes. -/
def walk : (fuel : ℕ) → SourceFile → WalkState → Option WalkState
  | 0, _, _ => none
  | fuel + 1, file, state =>
    if file.path ∈ state.visited then some state
    else if file.path ∈ state.visiting then some (state.report (cycleAt file.path))
    else
      ((scanSource file).includes.foldlM (followInclude resourceByPath (walk fuel) file)
        (enter scanSource file state)).map (leave file)

end

/-! ## The result -/

/-- `issueKey(issue)`. -/
def issueKey (issue : EspHomeSourceInputIssue) : JsString :=
  join 0 [issue.code.text, issue.sourcePath, issue.reference.getD [], issue.message]

/-- `new Map(issues.map(issue => [issueKey(issue), issue]))`. -/
def uniqueIssues (issues : List EspHomeSourceInputIssue) : Record EspHomeSourceInputIssue :=
  issues.foldl (fun map issue => Record.mapSet map (issueKey issue) issue) []

/-- `sortedIssues(issues)`. -/
def sortedIssues (issues : List EspHomeSourceInputIssue) : List EspHomeSourceInputIssue :=
  sortBy (fun left right => comparePortable (issueKey left) (issueKey right))
    ((uniqueIssues issues).map Prod.snd)

/-- The issue of a resource that no walked source includes. -/
def unusedIssue (rootPath resourcePath : JsString) : EspHomeSourceInputIssue :=
  ⟨.unusedResource, resourcePath, some resourcePath, js "Supplied source resource " ++
    resourcePath ++ js " is not reachable from " ++ rootPath⟩

/-- The issue of a secret that is not available. -/
def secretIssue (rootPath name : JsString) : EspHomeSourceInputIssue :=
  ⟨.missingSecret, rootPath, some name,
    js "Required secret reference " ++ name ++ js " is unavailable"⟩

/-- A source of ready inputs. -/
structure BoundFile where
  /-- The path. -/
  path : JsString
  /-- The exact text. -/
  source : JsString
  /-- The descriptor of the text. -/
  resource : ResourceDescriptor
  deriving DecidableEq

/-- The manifest of ready inputs; its other members are the same in all. -/
structure EspHomeSourceInputManifest where
  /-- The path of the root. -/
  rootPath : JsString
  /-- The descriptor of the State of the root. -/
  rootState : ObjectDescriptor
  /-- The files: path and resource. -/
  files : List (JsString × ResourceDescriptor)
  /-- The names of the secrets, all of them available. -/
  secretReferences : List JsString
  deriving DecidableEq

/-- A manifest as the value that it is. -/
def EspHomeSourceInputManifest.value (manifest : EspHomeSourceInputManifest) : JsValue :=
  .obj [(js "format", .str esphomeSourceInputManifestFormat),
    (js "root", .obj [(js "path", .str manifest.rootPath),
      (js "state", manifest.rootState.value)]),
    (js "files", .arr (manifest.files.map fun file =>
      .obj [(js "path", .str file.1), (js "resource", file.2.value)])),
    (js "secretReferences", .arr (manifest.secretReferences.map fun name =>
      .obj [(js "name", .str name), (js "availability", .str (js "available"))])),
    (js "resolution", .obj [(js "localIncludes", .str (js "complete")),
      (js "packageSemantics", .str (js "delegated_to_esphome")),
      (js "commandLineSubstitutions", .str (js "unsupported")),
      (js "secretValues", .str (js "transient_unhashed"))])]

/-- The result of `bindEspHomeSourceInputs`. -/
inductive EspHomeSourceInputResult where
  /-- Everything the root needs is there. -/
  | ready (manifest : EspHomeSourceInputManifest) (manifestResource : ResourceDescriptor)
    (files : List BoundFile)
  /-- Resources or secrets are missing, and there is no other issue. -/
  | incomplete (issues : List EspHomeSourceInputIssue)
  /-- There is an issue of another kind. -/
  | unsupported (issues : List EspHomeSourceInputIssue)
  deriving DecidableEq

section

variable (sha256 : List UInt8 → JsString)

/-- `manifestDescriptor(uri, manifest)`. -/
def manifestDescriptor (uri : JsString) (manifest : EspHomeSourceInputManifest) :
    Except ProtocolError ResourceDescriptor := do
  assertNonEmpty uri (js "$.manifestUri")
  let canonical ← canonicalizeProtocolValue manifest.value
  return ⟨uri, esphomeSourceInputManifestMediaType, sha256Utf8 sha256 canonical⟩

/-- A referenced resource among the files of ready inputs. -/
def boundFile (resourceByPath : Record SourceFile) (path : JsString) :
    Except ProtocolError BoundFile :=
  match Record.get resourceByPath path with
  | some ⟨_, source, some resource⟩ => .ok ⟨path, source, resource⟩
  | _ => .error (schemaError (js "Resolved source resource lacks a descriptor")
      (js "$.resources"))

/-- The ready inputs after a walk without issues. -/
def bindReady (checked : CheckedInputs) (state : WalkState) :
    Except ProtocolError EspHomeSourceInputResult := do
  let files ← (sortBy comparePortable state.referencedResources).mapM
    (boundFile checked.files.resourceByPath)
  let rootState ← describeProtocolObject sha256 checked.rootState
  let manifest : EspHomeSourceInputManifest :=
    { rootPath := checked.files.root.path
      rootState
      files := files.map fun file => (file.path, file.resource)
      secretReferences := sortBy comparePortable state.secretReferences }
  let manifestResource ← manifestDescriptor sha256 checked.manifestUri manifest
  return .ready manifest manifestResource files

/-- All issues after a walk: its own, those of unused resources and of missing secrets. -/
def allIssues (checked : CheckedInputs) (state : WalkState) : List EspHomeSourceInputIssue :=
  state.issues ++
    ((Record.keys checked.files.resourceByPath).filter
      (· ∉ state.referencedResources)).map (unusedIssue checked.files.root.path) ++
    (state.secretReferences.filter (· ∉ checked.availableSecrets)).map
      (secretIssue checked.files.root.path)

/-- What `bindEspHomeSourceInputs` returns after its walk. -/
def conclude (checked : CheckedInputs) (state : WalkState) :
    Except ProtocolError EspHomeSourceInputResult :=
  let orderedIssues := sortedIssues (allIssues checked state)
  if orderedIssues.any fun issue =>
      issue.code ≠ .missingResource && issue.code ≠ .missingSecret then
    .ok (.unsupported orderedIssues)
  else if orderedIssues.length > 0 then .ok (.incomplete orderedIssues)
  else bindReady sha256 checked state

/-- `bindEspHomeSourceInputs(input)`, on fuel for the depth of the includes. -/
def bindEspHomeSourceInputs (scanSource : SourceFile → ScannedSource) (fuel : ℕ)
    (input : BindEspHomeSourceInputsInput) :
    Option (Except ProtocolError EspHomeSourceInputResult) :=
  match checkInputs sha256 input with
  | .error e => some (.error e)
  | .ok checked =>
    (walk scanSource checked.files.resourceByPath fuel checked.files.root {}).map
      (conclude sha256 checked)

end

end T3x.Esphome
