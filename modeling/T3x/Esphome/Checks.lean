import T3x.Esphome.SourceInputs
import T3x.Transition.YopsStates

/-!
# Inputs that pass the checks

The checks read the resources and the names of the secrets one after the other, but what
passes does not depend on their order: every resource is verified, no path and no name is
repeated, and no resource stands at the path of the root.
-/

namespace T3x.Esphome

open Js Transition

section

variable (sha256 : List UInt8 → JsString)

/-- A resource that binds its own bytes. -/
structure Verified (resource : EspHomeSourceResourceInput) : Prop where
  /-- Its path is portable. -/
  portable : isPortablePath resource.path = true
  /-- It is no file of secret values. -/
  notSecret : isSecretValueFile resource.path = false
  /-- It says where it is found. -/
  located : trim resource.descriptor.uri ≠ []
  /-- Its text has no lone surrogates. -/
  text : isWellFormed resource.source = true
  /-- Its media type is that of YAML sources. -/
  mediaType : resource.descriptor.mediaType = yamlSourceMediaType
  /-- Its digest is that of its text. -/
  digest : resource.descriptor.digest = sha256Utf8 sha256 resource.source

/-- What an input must satisfy to pass the checks, with the text of its root. -/
structure Accepted (input : BindEspHomeSourceInputsInput) (rootSource : JsString) : Prop where
  /-- The root is a State. -/
  state : parseState input.root = .ok input.root
  /-- Its codec is that of YAML sources. -/
  codec : (input.root.member "codec").member "mediaType" = .str yamlSourceMediaType ∧
    (input.root.member "codec").member "version" = .str yamlSourceCodecVersion
  /-- Its path is portable. -/
  portable : isPortablePath input.rootPath = true
  /-- It is no file of secret values. -/
  notSecret : isSecretValueFile input.rootPath = false
  /-- The input says where the manifest will be found. -/
  located : trim input.manifestUri ≠ []
  /-- The value of the State is the text. -/
  source : decodeYamlSource (input.root.member "value") = .ok rootSource
  /-- The names of the secrets are such names. -/
  secretNames : ∀ name ∈ input.availableSecretNames, isSecretName name = true
  /-- No name of a secret is repeated. -/
  nodup_secretNames : input.availableSecretNames.Nodup
  /-- The resources are verified and apart from the root. -/
  resources : ∀ resource ∈ input.resources, Verified sha256 resource ∧
    resource.path ≠ input.rootPath
  /-- No path of a resource is repeated. -/
  nodup_paths : (input.resources.map EspHomeSourceResourceInput.path).Nodup

end

/-- A resource under its path. -/
def EspHomeSourceResourceInput.entry (resource : EspHomeSourceResourceInput) :
    JsString × SourceFile := (resource.path, resource.file)

/-- A State that is read is the one that was given. -/
theorem eq_of_parseState {value state : JsValue} (h : parseState value = .ok state) :
    state = value := by
  obtain ⟨_, -, h⟩ := bind_eq_ok_iff.mp h
  obtain ⟨_, -, h⟩ := bind_eq_ok_iff.mp h
  obtain ⟨_, -, h⟩ := bind_eq_ok_iff.mp h
  obtain ⟨_, -, h⟩ := bind_eq_ok_iff.mp h
  obtain ⟨_, -, h⟩ := bind_eq_ok_iff.mp h
  exact (Except.ok.inj h).symm

/-- Only blank texts are empty. -/
theorem assertNonEmpty_ok_iff {value path : JsString} :
    assertNonEmpty value path = .ok () ↔ trim value ≠ [] := by
  unfold assertNonEmpty
  split_ifs with h
  · exact iff_of_false (fun heq => by cases heq) (not_not_intro h)
  · exact iff_of_true rfl h

/-- What passes as a portable path is one. -/
theorem assertPortablePath_ok_iff {value path : JsString} :
    assertPortablePath value path = .ok () ↔ isPortablePath value = true := by
  unfold assertPortablePath
  split_ifs with h
  · exact iff_of_true rfl h
  · exact iff_of_false (fun heq => by cases heq) h

/-- What passes as the name of a secret is one. -/
theorem assertSecretName_ok_iff {value path : JsString} :
    assertSecretName value path = .ok () ↔ isSecretName value = true := by
  unfold assertSecretName
  split_ifs with h
  · exact iff_of_true rfl h
  · exact iff_of_false (fun heq => by cases heq) h

/-- A text is canonicalized exactly when it has no lone surrogates. -/
theorem exists_canonicalize_str_iff {value : JsString} :
    (∃ text, canonicalizeProtocolValue (.str value) = .ok text) ↔ isWellFormed value = true :=
  exists_canonicalJson_iff

section

variable {sha256 : List UInt8 → JsString}

/-- The descriptor of a source. -/
theorem createYamlSourceResourceDescriptor_ok_iff {uri source : JsString}
    {descriptor : ResourceDescriptor} :
    createYamlSourceResourceDescriptor sha256 uri source = .ok descriptor ↔
      trim uri ≠ [] ∧ isWellFormed source = true ∧
        descriptor = ⟨uri, yamlSourceMediaType, sha256Utf8 sha256 source⟩ := by
  constructor
  · intro h
    obtain ⟨_, huri, h⟩ := bind_eq_ok_iff.mp h
    obtain ⟨text, htext, h⟩ := bind_eq_ok_iff.mp h
    exact ⟨assertNonEmpty_ok_iff.mp huri, exists_canonicalize_str_iff.mp ⟨text, htext⟩,
      (Except.ok.inj h).symm⟩
  · rintro ⟨huri, hsource, rfl⟩
    obtain ⟨text, htext⟩ := exists_canonicalize_str_iff.mpr hsource
    exact bind_eq_ok_iff.mpr ⟨(), assertNonEmpty_ok_iff.mpr huri,
      bind_eq_ok_iff.mpr ⟨text, htext, rfl⟩⟩

/-- What passes as a resource is verified. -/
theorem verifySourceResource_ok_iff {resource : EspHomeSourceResourceInput} {path : JsString} :
    verifySourceResource sha256 resource path = .ok () ↔ Verified sha256 resource := by
  constructor
  · intro h
    obtain ⟨_, hportable, h⟩ := bind_eq_ok_iff.mp h
    obtain ⟨hsecret, h⟩ := refuse_eq_ok_iff.mp h
    obtain ⟨expected, hexpected, h⟩ := bind_eq_ok_iff.mp h
    obtain ⟨huri, hsource, rfl⟩ := createYamlSourceResourceDescriptor_ok_iff.mp hexpected
    have hnot := (throw_else_eq_ok_iff.mp h).1
    simp only [not_or, not_not] at hnot
    exact ⟨assertPortablePath_ok_iff.mp hportable, by simpa using hsecret,
      huri, hsource, hnot.1, hnot.2⟩
  · rintro ⟨hportable, hsecret, huri, hsource, hmedia, hdigest⟩
    refine bind_eq_ok_iff.mpr ⟨(), assertPortablePath_ok_iff.mpr hportable, ?_⟩
    refine refuse_eq_ok_iff.mpr ⟨by simp [hsecret], ?_⟩
    refine bind_eq_ok_iff.mpr ⟨_, createYamlSourceResourceDescriptor_ok_iff.mpr
      ⟨huri, hsource, rfl⟩, ?_⟩
    exact throw_else_eq_ok_iff.mpr ⟨by simp [hmedia, hdigest], rfl⟩

/-- Two lists of sources with one root and one list of resources are one. -/
theorem SourceFiles.eq_of {files files' : SourceFiles} (hroot : files.root = files'.root)
    (hresources : files.resourceByPath = files'.resourceByPath) : files = files' := by
  obtain ⟨root, resources, _, _⟩ := files
  obtain ⟨root', resources', _, _⟩ := files'
  simp only at hroot hresources
  subst hroot hresources
  rfl

/-- A path is new exactly when neither the root nor a resource stands there. -/
theorem SourceFiles.has_eq_false_iff {files : SourceFiles} {path : JsString} :
    files.has path = false ↔
      path ≠ files.root.path ∧ path ∉ files.resourceByPath.map Prod.fst := by
  simp only [SourceFiles.has, Bool.or_eq_false_iff, Record.has_eq_false_iff_not_mem, beq_eq_false_iff_ne, ne_eq]

/-- Adding a resource puts it at the end. -/
theorem SourceFiles.resourceByPath_add {files : SourceFiles}
    {resource : EspHomeSourceResourceInput} (h : ¬files.has resource.path = true) :
    (files.add resource h).resourceByPath = files.resourceByPath ++ [resource.entry] := by
  have hhas : Record.has files.resourceByPath resource.path = false := by
    simp only [SourceFiles.has, Bool.or_eq_true, not_or, Bool.not_eq_true] at h
    exact h.2
  unfold SourceFiles.add
  simp only [Record.mapSet, hhas]
  rfl

/-- The resources are added exactly when each is verified and all their paths are new. -/
theorem addResources_ok_iff {index : ℕ} {files files' : SourceFiles}
    {resources : List EspHomeSourceResourceInput} :
    addResources sha256 index files resources = .ok files' ↔
      (∀ resource ∈ resources, Verified sha256 resource ∧ files.has resource.path = false) ∧
      (resources.map EspHomeSourceResourceInput.path).Nodup ∧ files'.root = files.root ∧
      files'.resourceByPath = files.resourceByPath ++ resources.map
        EspHomeSourceResourceInput.entry := by
  induction resources generalizing index files with
  | nil =>
    simp only [List.not_mem_nil, false_implies, implies_true, List.map_nil, List.nodup_nil,
      List.append_nil, true_and]
    constructor
    · intro h
      obtain rfl := Except.ok.inj h
      exact ⟨rfl, rfl⟩
    · rintro ⟨hroot, hresources⟩
      exact congrArg Except.ok (SourceFiles.eq_of hroot hresources).symm
  | cons resource resources ih =>
    rw [List.forall_mem_cons, List.map_cons, List.nodup_cons]
    by_cases hhas : files.has resource.path = true
    · refine iff_of_false (fun h => ?_) (fun h => ?_)
      · obtain ⟨_, -, h⟩ := bind_eq_ok_iff.mp h
        rw [dif_pos hhas] at h
        cases h
      · rw [h.1.1.2] at hhas
        cases hhas
    · have hadd := SourceFiles.resourceByPath_add hhas
      -- The paths that are new after the resource are the others that were new before it.
      have hnew : ∀ path, (files.add resource hhas).has path = false ↔
          files.has path = false ∧ path ≠ resource.path := by
        intro path
        rw [SourceFiles.has_eq_false_iff, SourceFiles.has_eq_false_iff, hadd]
        simp only [SourceFiles.add, EspHomeSourceResourceInput.entry, List.map_append,
          List.map_cons, List.map_nil, List.mem_append, List.mem_singleton, not_or]
        tauto
      have hrest : addResources sha256 index files (resource :: resources) = .ok files' ↔
          Verified sha256 resource ∧
            addResources sha256 (index + 1) (files.add resource hhas) resources = .ok files' := by
        rw [← verifySourceResource_ok_iff]
        constructor
        · intro h
          obtain ⟨_, hverify, h⟩ := bind_eq_ok_iff.mp h
          rw [dif_neg hhas] at h
          exact ⟨hverify, h⟩
        · rintro ⟨hverify, h⟩
          refine bind_eq_ok_iff.mpr ⟨(), hverify, ?_⟩
          rw [dif_neg hhas]
          exact h
      rw [hrest, ih]
      simp only [hnew, hadd, List.map_cons, List.append_assoc, List.cons_append, List.nil_append,
        List.mem_map, not_exists, not_and]
      have hhas' : files.has resource.path = false := by simpa using hhas
      constructor
      · rintro ⟨hverified, hall, hnodup, hroot, hresources⟩
        exact ⟨⟨⟨hverified, hhas'⟩, fun r hr => ⟨(hall r hr).1, (hall r hr).2.1⟩⟩,
          ⟨fun r hr => (hall r hr).2.2, hnodup⟩, hroot, hresources⟩
      · rintro ⟨⟨⟨hverified, -⟩, hall⟩, ⟨hne, hnodup⟩, hroot, hresources⟩
        exact ⟨hverified, fun r hr => ⟨(hall r hr).1, (hall r hr).2, hne r hr⟩, hnodup, hroot,
          hresources⟩

end

/-- The names of secrets are added exactly when each is such a name and all of them are new. -/
theorem addSecretNames_ok_iff {index : ℕ} {availableSecrets names all : List JsString} :
    addSecretNames index availableSecrets names = .ok all ↔
      (∀ name ∈ names, isSecretName name = true ∧ name ∉ availableSecrets) ∧ names.Nodup ∧
        all = availableSecrets ++ names := by
  induction names generalizing index availableSecrets with
  | nil =>
    simp only [List.not_mem_nil, false_implies, implies_true, List.nodup_nil, List.append_nil,
      true_and]
    exact ⟨fun h => (Except.ok.inj h).symm, fun h => congrArg Except.ok h.symm⟩
  | cons name names ih =>
    have hrest : addSecretNames index availableSecrets (name :: names) = .ok all ↔
        isSecretName name = true ∧ name ∉ availableSecrets ∧
          addSecretNames (index + 1) (availableSecrets ++ [name]) names = .ok all := by
      constructor
      · intro h
        obtain ⟨_, hname, h⟩ := bind_eq_ok_iff.mp h
        obtain ⟨hnew, h⟩ := refuse_eq_ok_iff.mp h
        exact ⟨assertSecretName_ok_iff.mp hname, hnew, h⟩
      · rintro ⟨hname, hnew, h⟩
        exact bind_eq_ok_iff.mpr ⟨(), assertSecretName_ok_iff.mpr hname,
          refuse_eq_ok_iff.mpr ⟨hnew, h⟩⟩
    rw [hrest, ih, List.forall_mem_cons, List.nodup_cons]
    simp only [List.mem_append, List.mem_singleton, not_or, List.append_assoc, List.cons_append,
      List.nil_append]
    constructor
    · rintro ⟨hname, hnew, hall, hnodup, heq⟩
      exact ⟨⟨⟨hname, hnew⟩, fun n hn => ⟨(hall n hn).1, (hall n hn).2.1⟩⟩,
        ⟨fun hmem => (hall name hmem).2.2 rfl, hnodup⟩, heq⟩
    · rintro ⟨⟨⟨hname, hnew⟩, hall⟩, ⟨hnot, hnodup⟩, heq⟩
      refine ⟨hname, hnew, fun n hn => ⟨(hall n hn).1, (hall n hn).2, ?_⟩, hnodup, heq⟩
      rintro rfl
      exact hnot hn

/-- The State of a text without lone surrogates is a State. -/
theorem parseState_yamlSourceState {source : JsString} (h : isWellFormed source = true) :
    parseState (yamlSourceState source) = .ok (yamlSourceState source) := by
  have hcodec : stateCodecRef (.obj [(js "mediaType", .str yamlSourceMediaType),
      (js "version", .str yamlSourceCodecVersion)]) (js "$.codec") = .ok () := by decide
  have hvalue : JsValue.isUnicode (.str source) = true := h
  have hunicode : (yamlSourceState source).isUnicode = true := by
    refine JsValue.isUnicode_obj.mpr fun key v hv => ?_
    have hmem := Record.mem_of_get hv
    simp only [List.mem_cons, List.not_mem_nil, or_false, Prod.mk.injEq] at hmem
    rcases hmem with ⟨rfl, rfl⟩ | ⟨rfl, rfl⟩ | ⟨rfl, rfl⟩
    · exact ⟨by decide, by decide⟩
    · exact ⟨by decide, by decide⟩
    · exact ⟨by decide, hvalue⟩
  refine bind_eq_ok_iff.mpr ⟨(), assertProtocolDomain_of_isUnicode hunicode, ?_⟩
  exact bind_eq_ok_iff.mpr ⟨_, rfl, bind_eq_ok_iff.mpr ⟨(), if_pos rfl,
    bind_eq_ok_iff.mpr ⟨(), hcodec,
      bind_eq_ok_iff.mpr ⟨(), assertProtocolDomain_of_isUnicode hvalue, rfl⟩⟩⟩⟩

/-- The text of a State is decoded. -/
theorem decodeYamlSource_str {source : JsString} (h : isWellFormed source = true) :
    decodeYamlSource (.str source) = .ok source := by
  obtain ⟨text, htext⟩ := exists_canonicalize_str_iff.mpr h
  exact bind_eq_ok_iff.mpr ⟨text, htext, rfl⟩

/-- What the checks make of an input that passes them. -/
structure ChecksTo (input : BindEspHomeSourceInputsInput) (rootSource : JsString)
    (checked : CheckedInputs) : Prop where
  /-- The State of the root. -/
  state : checked.rootState = input.root
  /-- The root. -/
  root : checked.files.root = { path := input.rootPath, source := rootSource }
  /-- The resources in their order. -/
  resources : checked.files.resourceByPath = input.resources.map EspHomeSourceResourceInput.entry
  /-- The names of the secrets. -/
  secrets : checked.availableSecrets = input.availableSecretNames
  /-- Where the manifest will be found. -/
  manifestUri : checked.manifestUri = input.manifestUri

/-- An input passes the checks exactly when it is accepted. -/
theorem checkInputs_ok_iff {sha256 : List UInt8 → JsString} {input : BindEspHomeSourceInputsInput}
    {checked : CheckedInputs} : checkInputs sha256 input = .ok checked ↔
      ∃ rootSource, Accepted sha256 input rootSource ∧ ChecksTo input rootSource checked := by
  constructor
  · intro h
    obtain ⟨rootState, hstate, h⟩ := bind_eq_ok_iff.mp h
    obtain rfl := eq_of_parseState hstate
    obtain ⟨hcodec, h⟩ := refuse_eq_ok_iff.mp h
    obtain ⟨_, hportable, h⟩ := bind_eq_ok_iff.mp h
    obtain ⟨hsecret, h⟩ := refuse_eq_ok_iff.mp h
    obtain ⟨_, huri, h⟩ := bind_eq_ok_iff.mp h
    obtain ⟨rootSource, hsource, h⟩ := bind_eq_ok_iff.mp h
    obtain ⟨availableSecrets, hsecrets, h⟩ := bind_eq_ok_iff.mp h
    obtain ⟨files, hfiles, h⟩ := bind_eq_ok_iff.mp h
    obtain rfl := Except.ok.inj h
    obtain ⟨hnames, hnodup, rfl⟩ := addSecretNames_ok_iff.mp hsecrets
    obtain ⟨hverified, hpaths, hroot, hresources⟩ := addResources_ok_iff.mp hfiles
    simp only [not_or, not_not] at hcodec
    refine ⟨rootSource, ⟨hstate, hcodec, assertPortablePath_ok_iff.mp hportable,
      by simpa using hsecret, assertNonEmpty_ok_iff.mp huri, hsource,
      fun name hname => (hnames name hname).1, hnodup, fun resource hresource => ?_, hpaths⟩,
      rfl, hroot, hresources, rfl, rfl⟩
    exact ⟨(hverified resource hresource).1,
      (SourceFiles.has_eq_false_iff.mp (hverified resource hresource).2).1⟩
  · rintro ⟨rootSource, h, hstate, hroot, hresources, hsecrets, huri⟩
    obtain ⟨rootState, files, availableSecrets, manifestUri⟩ := checked
    simp only at hstate hroot hresources hsecrets huri
    subst hstate hsecrets huri
    refine bind_eq_ok_iff.mpr ⟨_, h.state, ?_⟩
    refine refuse_eq_ok_iff.mpr ⟨by simp [h.codec], ?_⟩
    refine bind_eq_ok_iff.mpr ⟨(), assertPortablePath_ok_iff.mpr h.portable, ?_⟩
    refine refuse_eq_ok_iff.mpr ⟨by simp [h.notSecret], ?_⟩
    refine bind_eq_ok_iff.mpr ⟨(), assertNonEmpty_ok_iff.mpr h.located, ?_⟩
    refine bind_eq_ok_iff.mpr ⟨rootSource, h.source, ?_⟩
    refine bind_eq_ok_iff.mpr ⟨_, addSecretNames_ok_iff.mpr
      ⟨fun name hname => ⟨h.secretNames name hname, List.not_mem_nil⟩, h.nodup_secretNames,
        rfl⟩, ?_⟩
    refine bind_eq_ok_iff.mpr ⟨files, addResources_ok_iff.mpr
      ⟨fun resource hresource => ⟨(h.resources resource hresource).1, ?_⟩, h.nodup_paths, hroot,
        hresources⟩, rfl⟩
    exact SourceFiles.has_eq_false_iff.mpr
      ⟨(h.resources resource hresource).2, List.not_mem_nil⟩

end T3x.Esphome
