import T3x.Esphome.Checks
import T3x.Esphome.IncludeWalk
import T3x.Esphome.Issues
import T3x.Js.Ascii

/-!
# Binding the source inputs

A root can be bound exactly when all that it includes is there, is read without an issue
and leads to no cycle, when every resource is used and every secret is available. The
graph of the includes counts an include of the root as one; the walk does not follow it.
The result does not depend on the order of the resources and of the secrets.
-/

namespace T3x.Esphome

open Js Transition Walks

/-! ## Fuel and order -/

/-- A fold that goes through goes through with steps that do at least as much. -/
theorem foldlM_mono {S T : Type} {f g : S → T → Option S}
    (hfg : ∀ state item next, f state item = some next → g state item = some next)
    {items : List T} {start last : S} (h : items.foldlM f start = some last) :
    items.foldlM g start = some last := by
  induction items generalizing start with
  | nil => exact h
  | cons item items ih =>
    rw [List.foldlM_cons] at h ⊢
    obtain ⟨next, hnext, hrest⟩ := Option.bind_eq_some_iff.mp h
    exact Option.bind_eq_some_iff.mpr ⟨next, hfg _ _ _ hnext, ih hrest⟩

section

variable {scanSource : SourceFile → ScannedSource}

/-- A walk that ends is not changed by more fuel. -/
theorem walk_mono {resourceByPath : Record SourceFile} {fuel more : ℕ} (hle : fuel ≤ more)
    {file : SourceFile} {state last : WalkState}
    (h : walk scanSource resourceByPath fuel file state = some last) :
    walk scanSource resourceByPath more file state = some last := by
  induction fuel generalizing more file state last with
  | zero => cases h
  | succ fuel ih =>
    obtain ⟨more, rfl⟩ := Nat.exists_eq_add_of_lt hle
    rw [show fuel + more + 1 = (fuel + more) + 1 from rfl]
    unfold walk at h ⊢
    split_ifs at h ⊢ with hvisited hvisiting
    · exact h
    · exact h
    · obtain ⟨next, hnext, rfl⟩ := Option.map_eq_some_iff.mp h
      refine Option.map_eq_some_iff.mpr ⟨next, foldlM_mono (fun state reference next hstep => ?_)
        hnext, rfl⟩
      unfold followInclude at hstep ⊢
      split at hstep
      · exact hstep
      · split at hstep
        · exact hstep
        · simp only at hstep ⊢
          split_ifs at hstep ⊢
          · exact hstep
          · exact ih (Nat.le_add_right _ _) hstep

/-- The walk reads the resources by their paths only. -/
theorem walk_congr {resourceByPath resourceByPath' : Record SourceFile}
    (h : ∀ path, Record.get resourceByPath path = Record.get resourceByPath' path) (fuel : ℕ) :
    walk scanSource resourceByPath fuel = walk scanSource resourceByPath' fuel := by
  induction fuel with
  | zero => rfl
  | succ fuel ih =>
    funext file state
    unfold walk
    rw [ih]
    have hfollow : followInclude resourceByPath (walk scanSource resourceByPath' fuel) file =
        followInclude resourceByPath' (walk scanSource resourceByPath' fuel) file := by
      funext state reference
      unfold followInclude
      simp only [h]
    rw [hfollow]

end

/-! ## What a root needs -/

section

variable (scanSource : SourceFile → ScannedSource) (files : SourceFiles)

/-- A source that the root needs: the root includes it, directly or through others. -/
def Needs (file : SourceFile) : Prop :=
  files.fileAt file.path = some file ∧
    Reaches (Includes scanSource files) files.root.path file.path

/-- The inputs have what the root needs, and nothing else. -/
structure Bindable (availableSecrets : List JsString) : Prop where
  /-- Every include of a source that is needed leads to a source. -/
  resolves : ∀ file, Needs scanSource files file → ∀ reference ∈ (scanSource file).includes,
    ∃ target, resolveIncludePath file.path reference = some target ∧
      (files.fileAt target).isSome = true
  /-- No cycle of includes is needed. -/
  acyclic : ¬LeadsToCycle (Includes scanSource files) files.root.path
  /-- No source that is needed has an issue. -/
  clean : ∀ file, Needs scanSource files file → (scanSource file).issues = []
  /-- Every resource is needed. -/
  used : ∀ path, Record.has files.resourceByPath path = true →
    Reaches (Includes scanSource files) files.root.path path
  /-- Every secret of a source that is needed is available. -/
  available : ∀ file, Needs scanSource files file →
    ∀ name ∈ (scanSource file).secretReferences, name ∈ availableSecrets

end

section

variable {scanSource : SourceFile → ScannedSource} {files : SourceFiles}

/-- What the walk follows is included. -/
theorem includes_of_follows {path target : JsString} (h : Follows scanSource files path target) :
    Includes scanSource files path target := (follows_iff.mp h).1

/-- A path that is reached from the root is that of a source. -/
theorem exists_fileAt_of_reaches {path : JsString}
    (h : Reaches (Includes scanSource files) files.root.path path) :
    ∃ file, files.fileAt path = some file ∧ file.path = path := by
  have hsome : (files.fileAt path).isSome = true := by
    rcases h.cases_tail with rfl | ⟨_, -, -, -, -, -, -, hsome⟩
    · rw [files.fileAt_root]
      rfl
    · exact hsome
  obtain ⟨file, hfile⟩ := Option.isSome_iff_exists.mp hsome
  exact ⟨file, hfile, SourceFiles.path_of_fileAt hfile⟩

/-- The walk finds a cycle exactly when it can follow the includes to one. -/
theorem Walked.hasCycle_iff {state : WalkState}
    (h : Walked scanSource files files.root {} state) :
    state.HasCycle ↔ LeadsToCycle (Follows scanSource files) files.root.path := by
  constructor
  · rintro ⟨issue, hissue, hcode⟩
    rcases h.explored.issues issue hissue with ⟨_, _, _, _, hown⟩ | ⟨-, hcycle⟩
    · exact absurd hcode (code_of_mem_ownIssues hown)
    · exact hcycle
  · exact h.explored.cyclic _ h.visited

/-- Without a cycle every source that the walk can follow to is recorded. -/
theorem Walked.recorded {state : WalkState} (h : Walked scanSource files files.root {} state)
    (hcycle : ¬state.HasCycle) {path : JsString}
    (hpath : Reaches (Follows scanSource files) files.root.path path) :
    ∀ file, files.fileAt path = some file → Recorded scanSource files file state := by
  refine h.explored.recorded path ?_
  induction hpath with
  | refl => exact h.visited
  | tail _ hfollows ih =>
    obtain ⟨file, hfile, hrest⟩ := hfollows
    obtain rfl := SourceFiles.path_of_fileAt hfile
    have hrecorded := h.explored.recorded _ ih file hfile
    exact (hrecorded.follows hfile ⟨file, hfile, hrest⟩).2.resolve_right hcycle

/-- An include without an issue leads to a resource. -/
theorem exists_resource_of_includeIssues {path reference : JsString}
    (h : includeIssues files path reference = []) :
    ∃ target, resolveIncludePath path reference = some target ∧
      Record.has files.resourceByPath target = true := by
  unfold includeIssues at h
  split at h
  · cases h
  · next target htarget =>
    split_ifs at h with hhas
    exact ⟨target, htarget, hhas⟩

/-- Where a root can be bound the walk follows every include. -/
theorem Bindable.follows {availableSecrets : List JsString}
    (h : Bindable scanSource files availableSecrets) {path target : JsString}
    (hpath : Reaches (Includes scanSource files) files.root.path path)
    (htarget : Includes scanSource files path target) :
    Follows scanSource files path target := by
  refine follows_iff.mpr ⟨htarget, ?_⟩
  rintro rfl
  exact h.acyclic (hpath.cyclic htarget).leadsToCycle

/-- Where a root can be bound the walk reaches every source that is needed. -/
theorem Bindable.reaches {availableSecrets : List JsString}
    (h : Bindable scanSource files availableSecrets) {path : JsString}
    (hpath : Reaches (Includes scanSource files) files.root.path path) :
    Reaches (Follows scanSource files) files.root.path path := by
  refine hpath.of_edges fun k l hk hedge => h.follows ?_ hedge
  exact Relation.ReflTransGen.mono (fun _ _ => includes_of_follows) _ _ hk

/-- Where a root can be bound no source that is needed has an issue of its own. -/
theorem Bindable.ownIssues {availableSecrets : List JsString}
    (h : Bindable scanSource files availableSecrets) {file : SourceFile}
    (hfile : Needs scanSource files file) : ownIssues scanSource files file = [] := by
  unfold Esphome.ownIssues
  rw [h.clean file hfile, List.nil_append, List.flatMap_eq_nil_iff]
  intro reference hreference
  obtain ⟨target, hresolve, hsome⟩ := h.resolves file hfile reference hreference
  obtain ⟨_, -, _, -, -, hhas⟩ :=
    h.follows hfile.2 ⟨file, hfile.1, reference, hreference, hresolve, hsome⟩
  unfold includeIssues
  rw [hresolve]
  exact if_pos hhas

/-! ## The issues of a walk -/

/-- The issues of what is unused or not available tell of no cycle. -/
theorem mem_issues_of_includeCycle {checked : CheckedInputs} {state : WalkState}
    {issue : EspHomeSourceInputIssue} (h : issue ∈ allIssues checked state)
    (hcode : issue.code = .includeCycle) : issue ∈ state.issues := by
  unfold allIssues at h
  rw [List.mem_append, List.mem_append] at h
  rcases h with (h | h) | h
  · exact h
  · obtain ⟨_, -, rfl⟩ := List.mem_map.mp h
    cases hcode
  · obtain ⟨_, -, rfl⟩ := List.mem_map.mp h
    cases hcode

/-- There are no issues exactly when the walk has none, every resource is included and every
secret is available. -/
theorem allIssues_eq_nil_iff_parts {checked : CheckedInputs} {state : WalkState} :
    allIssues checked state = [] ↔ state.issues = [] ∧
      (∀ path, Record.has checked.files.resourceByPath path = true →
        path ∈ state.referencedResources) ∧
      ∀ name ∈ state.secretReferences, name ∈ checked.availableSecrets := by
  unfold allIssues
  simp only [List.append_eq_nil_iff, List.map_eq_nil_iff, List.filter_eq_nil_iff, and_assoc,
    Record.mem_keys, decide_eq_true_eq, not_not]

/-- After the walk of the root there are no issues exactly when the inputs can be bound. -/
theorem allIssues_eq_nil_iff {checked : CheckedInputs} {state : WalkState}
    (h : Walked scanSource checked.files checked.files.root {} state) :
    allIssues checked state = [] ↔
      Bindable scanSource checked.files checked.availableSecrets := by
  rw [allIssues_eq_nil_iff_parts]
  constructor
  · rintro ⟨hissues, hused, havailable⟩
    have hcycle : ¬state.HasCycle := by
      rintro ⟨issue, hissue, -⟩
      rw [hissues] at hissue
      cases hissue
    -- What the walk reaches is recorded without an issue, so it includes resources only.
    have hnone : ∀ file, checked.files.fileAt file.path = some file →
        Reaches (Follows scanSource checked.files) checked.files.root.path file.path →
        Recorded scanSource checked.files file state ∧
          ownIssues scanSource checked.files file = [] := by
      intro file hfile hpath
      have hrecorded := h.recorded hcycle hpath file hfile
      refine ⟨hrecorded, List.eq_nil_iff_forall_not_mem.mpr fun issue hissue => ?_⟩
      have hmem := hrecorded.ownIssues hissue
      rw [hissues] at hmem
      cases hmem
    have hincludes : ∀ file, ownIssues scanSource checked.files file = [] →
        ∀ reference ∈ (scanSource file).includes, ∃ target,
          resolveIncludePath file.path reference = some target ∧
            Record.has checked.files.resourceByPath target = true := by
      intro file hown reference hreference
      unfold ownIssues at hown
      rw [List.append_eq_nil_iff, List.flatMap_eq_nil_iff] at hown
      exact exists_resource_of_includeIssues (hown.2 reference hreference)
    have hedges : ∀ path target,
        Reaches (Follows scanSource checked.files) checked.files.root.path path →
        Includes scanSource checked.files path target →
        Follows scanSource checked.files path target := by
      rintro path target hpath ⟨file, hfile, reference, hreference, hresolve, hsome⟩
      obtain rfl := SourceFiles.path_of_fileAt hfile
      obtain ⟨target', hresolve', hhas⟩ :=
        hincludes file (hnone file hfile hpath).2 reference hreference
      obtain rfl := Option.some.inj (hresolve'.symm.trans hresolve)
      exact ⟨file, hfile, reference, hreference, hresolve', hhas⟩
    have hneeds : ∀ file, Needs scanSource checked.files file →
        Reaches (Follows scanSource checked.files) checked.files.root.path file.path :=
      fun file hfile => hfile.2.of_edges hedges
    refine ⟨fun file hfile reference hreference => ?_, fun hleads => ?_, fun file hfile => ?_,
      fun path hpath => ?_, fun file hfile name hname => ?_⟩
    · obtain ⟨target, hresolve, hhas⟩ :=
        hincludes file (hnone file hfile.1 (hneeds file hfile)).2 reference hreference
      obtain ⟨resource, hresource⟩ := Record.has_eq_true.mp hhas
      refine ⟨target, hresolve, ?_⟩
      rw [SourceFiles.fileAt_of_get hresource]
      rfl
    · exact hcycle (h.hasCycle_iff.mpr (hleads.of_edges hedges))
    · have hown := (hnone file hfile.1 (hneeds file hfile)).2
      exact (List.append_eq_nil_iff.mp hown).1
    · obtain ⟨source, hsource, hfollows⟩ := h.explored.referenced path (hused path hpath)
      exact Relation.ReflTransGen.mono (fun _ _ => includes_of_follows) _ _
        (hsource.tail hfollows)
    · exact havailable name ((hnone file hfile.1 (hneeds file hfile)).1.secrets hname)
  · intro hbind
    have hcycle : ¬state.HasCycle := fun hfound =>
      hbind.acyclic ((h.hasCycle_iff.mp hfound).mono fun _ _ => includes_of_follows)
    have hneeds : ∀ path file, Reaches (Follows scanSource checked.files)
        checked.files.root.path path → checked.files.fileAt path = some file →
        Needs scanSource checked.files file := by
      intro path file hpath hfile
      obtain rfl := SourceFiles.path_of_fileAt hfile
      exact ⟨hfile, Relation.ReflTransGen.mono (fun _ _ => includes_of_follows) _ _ hpath⟩
    refine ⟨List.eq_nil_iff_forall_not_mem.mpr fun issue hissue => ?_, fun path hpath => ?_,
      fun name hname => ?_⟩
    · rcases h.explored.issues issue hissue with ⟨path, file, hpath, hfile, hown⟩ | ⟨hcode, -⟩
      · rw [hbind.ownIssues (hneeds path file hpath hfile)] at hown
        cases hown
      · exact hcycle ⟨issue, hissue, hcode⟩
    · rcases (hbind.used path hpath).cases_tail with rfl | ⟨source, hsource, hincludes⟩
      · rw [checked.files.apart] at hpath
        cases hpath
      · have hfollows := hbind.follows hsource hincludes
        obtain ⟨file, hfile, rfl⟩ := exists_fileAt_of_reaches hsource
        exact ((h.recorded hcycle (hbind.reaches hsource) file hfile).follows hfile hfollows).1
    · obtain ⟨path, file, hpath, hfile, hmem⟩ := h.explored.secrets name hname
      exact hbind.available file (hneeds path file hpath hfile) name hmem

/-- Where the inputs can be bound the secrets of the walk are those of the sources needed. -/
theorem mem_secretReferences_iff {checked : CheckedInputs} {state : WalkState}
    (h : Walked scanSource checked.files checked.files.root {} state)
    (hbind : Bindable scanSource checked.files checked.availableSecrets) {name : JsString} :
    name ∈ state.secretReferences ↔ ∃ file, Needs scanSource checked.files file ∧
      name ∈ (scanSource file).secretReferences := by
  have hcycle : ¬state.HasCycle := fun hfound =>
    hbind.acyclic ((h.hasCycle_iff.mp hfound).mono fun _ _ => includes_of_follows)
  constructor
  · intro hname
    obtain ⟨path, file, hpath, hfile, hmem⟩ := h.explored.secrets name hname
    obtain rfl := SourceFiles.path_of_fileAt hfile
    exact ⟨file, ⟨hfile, Relation.ReflTransGen.mono (fun _ _ => includes_of_follows) _ _ hpath⟩,
      hmem⟩
  · rintro ⟨file, hfile, hname⟩
    exact (h.recorded hcycle (hbind.reaches hfile.2) file hfile.1).secrets hname

/-! ## The result -/

section

variable {sha256 : List UInt8 → JsString}

/-- A walk that found a cycle makes the inputs unsupported, and so says their result. -/
theorem conclude_of_hasCycle {checked : CheckedInputs} {state : WalkState}
    (h : state.HasCycle) : ∃ issues, conclude sha256 checked state = .ok (.unsupported issues) ∧
      ∃ issue ∈ issues, issue.code = .includeCycle := by
  have hcycle : ∃ issue ∈ sortedIssues (allIssues checked state), issue.code = .includeCycle := by
    refine (exists_code_sortedIssues (p := (· = .includeCycle))).mpr ?_
    obtain ⟨issue, hissue, hcode⟩ := h
    refine ⟨issue, ?_, hcode⟩
    unfold allIssues
    simp [hissue]
  refine ⟨_, if_pos ?_, hcycle⟩
  obtain ⟨issue, hissue, hcode⟩ := hcycle
  exact List.any_eq_true.mpr ⟨issue, hissue, by simp [hcode]⟩

/-- A result that tells of a cycle comes of a walk that found one. -/
theorem hasCycle_of_conclude {checked : CheckedInputs} {state : WalkState}
    {issues : List EspHomeSourceInputIssue}
    (h : conclude sha256 checked state = .ok (.unsupported issues))
    {issue : EspHomeSourceInputIssue} (hissue : issue ∈ issues)
    (hcode : issue.code = .includeCycle) : state.HasCycle := by
  have hissues : issues = sortedIssues (allIssues checked state) := by
    unfold conclude at h
    simp only at h
    split_ifs at h
    · exact (EspHomeSourceInputResult.unsupported.inj (Except.ok.inj h)).symm
    · cases h
    · unfold bindReady at h
      obtain ⟨_, -, h⟩ := bind_eq_ok_iff.mp h
      obtain ⟨_, -, h⟩ := bind_eq_ok_iff.mp h
      obtain ⟨_, -, h⟩ := bind_eq_ok_iff.mp h
      cases h
  rw [hissues] at hissue
  exact ⟨issue, mem_issues_of_includeCycle (mem_of_mem_sortedIssues hissue) hcode, hcode⟩

/-- Without issues the inputs are bound. -/
theorem conclude_of_nil {checked : CheckedInputs} {state : WalkState}
    (h : allIssues checked state = []) :
    conclude sha256 checked state = bindReady sha256 checked state := by
  unfold conclude
  rw [sortedIssues_eq_nil_iff.mpr h]
  rfl

/-- Ready inputs come of a walk without issues. -/
theorem allIssues_eq_nil_of_conclude {checked : CheckedInputs} {state : WalkState}
    {manifest : EspHomeSourceInputManifest} {resource : ResourceDescriptor}
    {files : List BoundFile}
    (h : conclude sha256 checked state = .ok (.ready manifest resource files)) :
    allIssues checked state = [] := by
  unfold conclude at h
  simp only at h
  split_ifs at h with hunsupported hlength
  · cases h
  · cases h
  · exact sortedIssues_eq_nil_iff.mp (List.eq_nil_of_length_eq_zero (by omega))

end

end

/-! ## Ready inputs -/

/-- A resource as a source of ready inputs. -/
def EspHomeSourceResourceInput.bound (resource : EspHomeSourceResourceInput) : BoundFile :=
  ⟨resource.path, resource.source, resource.descriptor⟩

/-- An object whose names are distinct has no lone surrogates exactly when its names and its
values have none. -/
theorem isUnicode_obj_of_nodup {members : Record JsValue} (h : (members.map Prod.fst).Nodup) :
    (JsValue.obj members).isUnicode = true ↔
      ∀ entry ∈ members, isWellFormed entry.1 = true ∧ entry.2.isUnicode = true := by
  rw [JsValue.isUnicode_obj]
  constructor
  · rintro hall ⟨key, value⟩ hmem
    exact hall key value (Record.get_eq_some_of_mem h hmem)
  · exact fun hall key value hget => hall _ (Record.mem_of_get hget)

/-- The code units of portable paths are ASCII. -/
theorem lt_of_isPortableUnit {u : UInt16} (h : isPortableUnit u = true) : u.toNat < 0x80 := by
  have hupper : (unit 'Z').toNat = 90 := rfl
  have hlower : (unit 'z').toNat = 122 := rfl
  have hnine : (57 : UInt16).toNat = 57 := rfl
  simp only [isPortableUnit, isDigit, Bool.or_eq_true, Bool.and_eq_true, decide_eq_true_eq,
    beq_iff_eq, UInt16.le_iff_toNat_le] at h
  rcases h with (((((⟨-, h⟩ | ⟨-, h⟩) | ⟨-, h⟩) | rfl) | rfl) | rfl) | rfl
  · omega
  · omega
  · omega
  all_goals decide

/-- A portable path has no lone surrogates. -/
theorem isWellFormed_of_isPortablePath {path : JsString} (h : isPortablePath path = true) :
    isWellFormed path = true := by
  have hall : path.all isPortableUnit = true := by
    simp only [isPortablePath, Bool.and_eq_true] at h
    exact h.1.1.1.1.1.2
  refine isWellFormed_of_plain fun u hu => not_surrogate_of_lt ?_
  have hunit := List.all_eq_true.mp hall u hu
  exact lt_of_isPortableUnit hunit

/-- The name of a secret has no lone surrogates. -/
theorem isWellFormed_of_isSecretName {name : JsString} (h : isSecretName name = true) :
    isWellFormed name = true := by
  cases name with
  | nil => cases h
  | cons u rest =>
    simp only [isSecretName, Bool.and_eq_true, List.all_eq_true] at h
    refine isWellFormed_of_plain fun v hv => not_surrogate_of_lt ?_
    rcases List.mem_cons.mp hv with rfl | hv
    · refine lt_of_isPortableUnit ?_
      have hstart := h.1
      simp only [isPortableUnit, Bool.or_eq_true] at hstart ⊢
      tauto
    · refine lt_of_isPortableUnit ?_
      have hrest := h.2 v hv
      simp only [isPortableUnit, Bool.or_eq_true] at hrest ⊢
      tauto

section

variable {sha256 : List UInt8 → JsString}

/-- The value of a verified descriptor has no lone surrogates exactly when its place has none. -/
theorem isUnicode_descriptor_iff (hhash : ∀ input, IsHashText (sha256 input))
    {resource : EspHomeSourceResourceInput} (h : Verified sha256 resource) :
    resource.descriptor.value.isUnicode = true ↔
      isWellFormed resource.descriptor.uri = true := by
  have hmedia : isWellFormed yamlSourceMediaType = true := by decide
  have hdigest := isWellFormed_digest (hhash (encodeUtf8 resource.source))
  have hnames : ([js "uri", js "mediaType", js "digest"]).Nodup := by decide
  refine (isUnicode_obj_of_nodup ?_).trans ?_
  · exact hnames
  simp only [List.forall_mem_cons, h.mediaType, h.digest]
  constructor
  · exact fun hall => hall.1.2
  · intro huri
    exact ⟨⟨by decide, huri⟩, ⟨by decide, hmedia⟩, ⟨by decide, hdigest⟩,
      fun _ hmem => (List.not_mem_nil hmem).elim⟩

/-- A manifest of verified resources has no lone surrogates exactly when the places of the
resources have none. -/
theorem isUnicode_manifest_iff (hhash : ∀ input, IsHashText (sha256 input))
    (manifest : EspHomeSourceInputManifest) (resources : List EspHomeSourceResourceInput)
    (hroot : isWellFormed manifest.rootPath = true)
    (hstate : manifest.rootState.value.isUnicode = true)
    (hfiles : manifest.files = resources.map fun resource =>
      (resource.path, resource.descriptor))
    (hverified : ∀ resource ∈ resources, Verified sha256 resource)
    (hsecrets : ∀ name ∈ manifest.secretReferences, isWellFormed name = true) :
    manifest.value.isUnicode = true ↔
      ∀ resource ∈ resources, isWellFormed resource.descriptor.uri = true := by
  have hrootValue : (JsValue.obj [(js "path", .str manifest.rootPath),
      (js "state", manifest.rootState.value)]).isUnicode = true := by
    have hnames : ([js "path", js "state"]).Nodup := by decide
    refine (isUnicode_obj_of_nodup ?_).mpr ?_
    · exact hnames
    simp only [List.forall_mem_cons]
    exact ⟨⟨by decide, hroot⟩, ⟨by decide, hstate⟩, fun _ hmem => (List.not_mem_nil hmem).elim⟩
  have hsecretValues : (JsValue.arr (manifest.secretReferences.map fun name =>
      .obj [(js "name", .str name), (js "availability", .str (js "available"))])).isUnicode =
        true := by
    rw [JsValue.isUnicode_arr]
    intro value hvalue
    obtain ⟨name, hname, rfl⟩ := List.mem_map.mp hvalue
    have hnames : ([js "name", js "availability"]).Nodup := by decide
    refine (isUnicode_obj_of_nodup ?_).mpr ?_
    · exact hnames
    simp only [List.forall_mem_cons]
    exact ⟨⟨by decide, hsecrets name hname⟩, ⟨by decide, by decide⟩,
      fun _ hmem => (List.not_mem_nil hmem).elim⟩
  have hfileValues : (JsValue.arr (manifest.files.map fun file =>
      .obj [(js "path", .str file.1), (js "resource", file.2.value)])).isUnicode = true ↔
        ∀ resource ∈ resources, isWellFormed resource.descriptor.uri = true := by
    rw [JsValue.isUnicode_arr, hfiles, List.map_map, List.forall_mem_map]
    refine forall₂_congr fun resource hresource => ?_
    have hresource := hverified resource hresource
    have hnames : ([js "path", js "resource"]).Nodup := by decide
    rw [Function.comp_apply, ← isUnicode_descriptor_iff hhash hresource]
    refine (isUnicode_obj_of_nodup ?_).trans ?_
    · exact hnames
    simp only [List.forall_mem_cons]
    constructor
    · exact fun hall => hall.2.1.2
    · exact fun hvalue => ⟨⟨by decide, isWellFormed_of_isPortablePath hresource.portable⟩,
        ⟨by decide, hvalue⟩, fun _ hmem => (List.not_mem_nil hmem).elim⟩
  have hnames : ([js "format", js "root", js "files", js "secretReferences",
    js "resolution"]).Nodup := by decide
  rw [← hfileValues]
  refine (isUnicode_obj_of_nodup ?_).trans ?_
  · exact hnames
  simp only [List.forall_mem_cons]
  constructor
  · exact fun hall => hall.2.2.1.2
  · exact fun hvalue => ⟨⟨by decide, by decide⟩, ⟨by decide, hrootValue⟩, ⟨by decide, hvalue⟩,
      ⟨by decide, hsecretValues⟩, ⟨by decide, by decide⟩,
      fun _ hmem => (List.not_mem_nil hmem).elim⟩

/-- Lists of distinct texts with the same members are sorted alike. -/
theorem sortBy_comparePortable_eq {names names' : List JsString} (h : names.Perm names') :
    sortBy comparePortable names = sortBy comparePortable names' := by
  have hc := isStringOrder_compareCodeUnits
  refine List.Perm.eq_of_pairwise ?_ (sortBy_pairwise hc id names) (sortBy_pairwise hc id names')
    (((sortBy_perm _ _).trans h).trans (sortBy_perm _ _).symm)
  intro a b _ _ hab hba
  have hswap := hc.swap a b
  exact (hc.eq_zero a b).mp (by simp only [id] at hab hba; omega)

/-- Resources sorted by path have their paths sorted. -/
theorem map_path_sortBy (resources : List EspHomeSourceResourceInput) :
    (sortBy (fun a b => comparePortable a.path b.path) resources).map
        EspHomeSourceResourceInput.path =
      sortBy comparePortable (resources.map EspHomeSourceResourceInput.path) := by
  have hc := isStringOrder_compareCodeUnits
  refine List.Perm.eq_of_pairwise ?_
    (List.pairwise_map.mpr (sortBy_pairwise hc EspHomeSourceResourceInput.path resources))
    (sortBy_pairwise hc id _) (((sortBy_perm _ _).map _).trans (sortBy_perm _ _).symm)
  intro a b _ _ hab hba
  have hswap := hc.swap a b
  exact (hc.eq_zero a b).mp (by simp only [id] at hab hba; omega)

end

/-! ## The bound inputs -/

/-- A text under which nothing stands twice is read where it stands. -/
theorem get_entries_of_mem {resources : List EspHomeSourceResourceInput}
    (hnodup : (resources.map EspHomeSourceResourceInput.path).Nodup)
    {resource : EspHomeSourceResourceInput} (h : resource ∈ resources) :
    Record.get (resources.map EspHomeSourceResourceInput.entry) resource.path =
      some resource.file := by
  refine Record.get_eq_some_of_mem ?_ (List.mem_map.mpr ⟨resource, h, rfl⟩)
  rw [List.map_map]
  exact hnodup

section

variable {sha256 : List UInt8 → JsString} {scanSource : SourceFile → ScannedSource}
  {input : BindEspHomeSourceInputsInput} {rootSource : JsString} {checked : CheckedInputs}

/-- A path is that of a resource exactly when a resource of the input has it. -/
theorem ChecksTo.has_iff (h : ChecksTo input rootSource checked) {path : JsString} :
    Record.has checked.files.resourceByPath path = true ↔
      path ∈ input.resources.map EspHomeSourceResourceInput.path := by
  rw [← Bool.not_eq_false, Record.has_eq_false_iff_not_mem, not_not, h.resources, List.map_map]
  rfl

/-- The root of the sources stands at the path of the input. -/
theorem ChecksTo.rootPath (h : ChecksTo input rootSource checked) :
    checked.files.root.path = input.rootPath := by
  rw [h.root]

/-- The resources of inputs that are bound, sorted by path. -/
def sortedResources (input : BindEspHomeSourceInputsInput) : List EspHomeSourceResourceInput :=
  sortBy (fun a b => comparePortable a.path b.path) input.resources

/-- The files of inputs that are bound: the resources, sorted by path. -/
def boundFiles (input : BindEspHomeSourceInputsInput) : List BoundFile :=
  (sortedResources input).map EspHomeSourceResourceInput.bound

/-- Where the inputs can be bound, all that remains to be done is to describe a manifest, which
has no lone surrogates exactly when the places of the resources have none. -/
theorem bindReady_eq (hhash : ∀ bytes, IsHashText (sha256 bytes))
    (haccepted : Accepted sha256 input rootSource) (hchecks : ChecksTo input rootSource checked)
    {state : WalkState} (hwalked : Walked scanSource checked.files checked.files.root {} state)
    (hbind : Bindable scanSource checked.files checked.availableSecrets) :
    ∃ manifest : EspHomeSourceInputManifest,
      bindReady sha256 checked state =
        (manifestDescriptor sha256 input.manifestUri manifest).map (fun resource =>
          .ready manifest resource (boundFiles input)) ∧
      manifest.secretReferences = sortBy comparePortable state.secretReferences ∧
      (manifest.value.isUnicode = true ↔
        ∀ resource ∈ input.resources, isWellFormed resource.descriptor.uri = true) := by
  obtain ⟨-, hused, havailable⟩ :=
    allIssues_eq_nil_iff_parts.mp ((allIssues_eq_nil_iff hwalked).mpr hbind)
  have hmem : ∀ resource, resource ∈ sortedResources input ↔ resource ∈ input.resources :=
    fun _ => (sortBy_perm _ _).mem_iff
  -- The included resources are the resources of the input.
  have hperm : state.referencedResources.Perm
      (input.resources.map EspHomeSourceResourceInput.path) := by
    rw [List.perm_ext_iff_of_nodup hwalked.explored.nodup_referenced haccepted.nodup_paths]
    intro path
    rw [← hchecks.has_iff]
    constructor
    · intro hpath
      obtain ⟨_, -, _, -, _, -, -, hhas⟩ := hwalked.explored.referenced path hpath
      exact hhas
    · exact hused path
  have hfiles : (sortBy comparePortable state.referencedResources).mapM
      (boundFile checked.files.resourceByPath) = .ok (boundFiles input) := by
    unfold boundFiles
    rw [sortBy_comparePortable_eq hperm, ← map_path_sortBy, mapM_eq_ok_iff,
      List.forall₂_map_left_iff, List.forall₂_map_right_iff]
    refine List.forall₂_same.mpr ?_
    intro resource hresource
    have hget := get_entries_of_mem haccepted.nodup_paths ((hmem resource).mp hresource)
    unfold boundFile
    rw [hchecks.resources, hget]
    rfl
  have hparse : parseState checked.rootState = .ok checked.rootState := by
    rw [hchecks.state]
    exact haccepted.state
  obtain ⟨descriptor, bytes, hdescribe, -, hkind, hschema, hdigest⟩ :=
    exists_describe sha256 hparse
  have hstate : descriptor.value.isUnicode = true := by
    refine isUnicode_descriptor ?_ hdigest (hhash _)
    rw [hschema, hkind]
    rfl
  have hroot : isWellFormed checked.files.root.path = true := by
    rw [hchecks.rootPath]
    exact isWellFormed_of_isPortablePath haccepted.portable
  let manifest : EspHomeSourceInputManifest :=
    { rootPath := checked.files.root.path
      rootState := descriptor
      files := (boundFiles input).map fun file => (file.path, file.resource)
      secretReferences := sortBy comparePortable state.secretReferences }
  refine ⟨manifest, ?_, rfl, ?_⟩
  · unfold bindReady
    rw [hfiles, ← hchecks.manifestUri]
    simp only [bind, Except.bind, hdescribe]
    cases manifestDescriptor sha256 checked.manifestUri manifest <;> rfl
  · rw [isUnicode_manifest_iff hhash manifest (sortedResources input) hroot hstate
      (List.map_map ..) (fun resource hresource =>
        (haccepted.resources resource ((hmem resource).mp hresource)).1)]
    · simp only [hmem]
    · intro name hname
      have havail := havailable name ((sortBy_perm _ _).mem_iff.mp hname)
      rw [hchecks.secrets] at havail
      exact isWellFormed_of_isSecretName (haccepted.secretNames name havail)

/-- A manifest is described exactly when it has no lone surrogates. -/
theorem exists_manifestDescriptor_iff {uri : JsString} {manifest : EspHomeSourceInputManifest}
    (huri : trim uri ≠ []) : (∃ resource, manifestDescriptor sha256 uri manifest = .ok resource) ↔
      manifest.value.isUnicode = true := by
  refine Iff.trans ?_ (@exists_canonicalJson_iff manifest.value (js "$"))
  constructor
  · rintro ⟨resource, h⟩
    obtain ⟨_, -, h⟩ := bind_eq_ok_iff.mp h
    obtain ⟨text, htext, -⟩ := bind_eq_ok_iff.mp h
    exact ⟨text, htext⟩
  · rintro ⟨text, htext⟩
    exact ⟨_, bind_eq_ok_iff.mpr ⟨(), assertNonEmpty_ok_iff.mpr huri,
      bind_eq_ok_iff.mpr ⟨text, htext, rfl⟩⟩⟩

variable (scanSource input checked) in
/-- A result says exactly whether the inputs can be bound. -/
structure BindsExactly (result : Except ProtocolError EspHomeSourceInputResult) : Prop where
  /-- Ready are the inputs that can be bound and whose places have no lone surrogates. -/
  ready : (∃ manifest resource files, result = .ok (.ready manifest resource files)) ↔
    Bindable scanSource checked.files checked.availableSecrets ∧
      ∀ resource ∈ input.resources, isWellFormed resource.descriptor.uri = true
  /-- A cycle is told exactly when the walk can follow the includes to one. -/
  cycle : (∃ issues, result = .ok (.unsupported issues) ∧
      ∃ issue ∈ issues, issue.code = .includeCycle) ↔
    LeadsToCycle (Follows scanSource checked.files) checked.files.root.path
  /-- The files are the resources sorted by path, and the secrets those of the sources needed. -/
  contents : ∀ manifest resource files, result = .ok (.ready manifest resource files) →
    files = boundFiles input ∧
      manifest.secretReferences.Pairwise (fun a b => comparePortable a b < 0) ∧
      ∀ name, name ∈ manifest.secretReferences ↔ ∃ file,
        Needs scanSource checked.files file ∧ name ∈ (scanSource file).secretReferences

/-- Distinct texts are in strictly ascending order when sorted. -/
theorem pairwise_sortBy_of_nodup {names : List JsString} (h : names.Nodup) :
    (sortBy comparePortable names).Pairwise fun a b => comparePortable a b < 0 := by
  have hc := isStringOrder_compareCodeUnits
  have hnodup : (sortBy comparePortable names).Nodup := (sortBy_perm _ _).nodup_iff.mpr h
  refine List.Pairwise.imp₂ (fun a b hle hne => ?_) (sortBy_pairwise hc id names) hnodup
  have hzero : compareCodeUnits a b ≠ 0 := fun heq => hne ((hc.eq_zero a b).mp heq)
  simp only [id] at hle
  change compareCodeUnits a b < 0
  omega

/-- The result of a walk of the root is exact. -/
theorem bindsExactly_conclude (hhash : ∀ bytes, IsHashText (sha256 bytes))
    (haccepted : Accepted sha256 input rootSource) (hchecks : ChecksTo input rootSource checked)
    {state : WalkState} (hwalked : Walked scanSource checked.files checked.files.root {} state) :
    BindsExactly scanSource input checked (conclude sha256 checked state) := by
  refine ⟨⟨?_, ?_⟩, ⟨?_, ?_⟩, ?_⟩
  · rintro ⟨manifest, resource, files, hready⟩
    have hnil := allIssues_eq_nil_of_conclude hready
    have hbind := (allIssues_eq_nil_iff hwalked).mp hnil
    obtain ⟨manifest', heq, -, hunicode⟩ := bindReady_eq hhash haccepted hchecks hwalked hbind
    rw [conclude_of_nil hnil, heq] at hready
    obtain ⟨resource', hdescribe, -⟩ := map_eq_ok_iff.mp hready
    exact ⟨hbind, hunicode.mp ((exists_manifestDescriptor_iff haccepted.located).mp
      ⟨resource', hdescribe⟩)⟩
  · rintro ⟨hbind, huris⟩
    obtain ⟨manifest, heq, -, hunicode⟩ := bindReady_eq hhash haccepted hchecks hwalked hbind
    obtain ⟨resource, hresource⟩ : ∃ resource,
        manifestDescriptor sha256 input.manifestUri manifest = .ok resource :=
      (exists_manifestDescriptor_iff haccepted.located).mpr (hunicode.mpr huris)
    refine ⟨manifest, resource, boundFiles input, ?_⟩
    rw [conclude_of_nil ((allIssues_eq_nil_iff hwalked).mpr hbind), heq, hresource]
    rfl
  · rintro ⟨issues, hresult, issue, hissue, hcode⟩
    exact hwalked.hasCycle_iff.mp (hasCycle_of_conclude hresult hissue hcode)
  · exact fun hcycle => conclude_of_hasCycle (hwalked.hasCycle_iff.mpr hcycle)
  · intro manifest resource files hready
    have hnil := allIssues_eq_nil_of_conclude hready
    have hbind := (allIssues_eq_nil_iff hwalked).mp hnil
    obtain ⟨manifest', heq, hsecrets, -⟩ := bindReady_eq hhash haccepted hchecks hwalked hbind
    rw [conclude_of_nil hnil, heq] at hready
    obtain ⟨resource', -, hready⟩ := map_eq_ok_iff.mp hready
    obtain ⟨rfl, -, rfl⟩ := EspHomeSourceInputResult.ready.inj hready
    refine ⟨rfl, ?_, fun name => ?_⟩
    · rw [hsecrets]
      exact pairwise_sortBy_of_nodup hwalked.explored.nodup_secrets
    · rw [hsecrets, (sortBy_perm _ _).mem_iff, mem_secretReferences_iff hwalked hbind]

end

/-! ## All inputs -/

section

variable {sha256 : List UInt8 → JsString} {scanSource : SourceFile → ScannedSource}
  {input : BindEspHomeSourceInputsInput} {rootSource : JsString} {checked : CheckedInputs}

/-- The binding of inputs that pass the checks. -/
theorem bindEspHomeSourceInputs_eq (hchecked : checkInputs sha256 input = .ok checked)
    (fuel : ℕ) : bindEspHomeSourceInputs sha256 scanSource fuel input =
      (walk scanSource checked.files.resourceByPath fuel checked.files.root {}).map
        (conclude sha256 checked) := by
  unfold bindEspHomeSourceInputs
  rw [hchecked]

/-- Accepted inputs pass the checks. -/
theorem exists_checkInputs (haccepted : Accepted sha256 input rootSource) :
    ∃ checked, checkInputs sha256 input = .ok checked ∧ ChecksTo input rootSource checked := by
  let files : SourceFiles :=
    { root := { path := input.rootPath, source := rootSource }
      resourceByPath := input.resources.map EspHomeSourceResourceInput.entry
      named := by
        intro path file hfile
        obtain ⟨resource, -, heq⟩ := List.mem_map.mp (Record.mem_of_get hfile)
        obtain ⟨rfl, rfl⟩ := Prod.mk.inj heq
        rfl
      apart := by
        rw [Record.has_eq_false_iff_not_mem, List.map_map]
        intro hmem
        obtain ⟨resource, hresource, hpath⟩ := List.mem_map.mp hmem
        exact (haccepted.resources resource hresource).2 hpath }
  have hchecks : ChecksTo input rootSource
      ⟨input.root, files, input.availableSecretNames, input.manifestUri⟩ :=
    ⟨rfl, rfl, rfl, rfl, rfl⟩
  exact ⟨_, checkInputs_ok_iff.mpr ⟨rootSource, haccepted, hchecks⟩, hchecks⟩

/-- A hash that does not tell texts apart. -/
def zeroHash (_ : List UInt8) : JsString := List.replicate 64 (unit '0')

/-- The scan of sources of which the first includes the others. -/
def scanFirst (file : SourceFile) : ScannedSource :=
  if file.path = js "c.yaml" then ⟨[js "b.yaml", js "a.yaml"], [js "key"], [], by simp⟩
  else ⟨[], [], [], by simp⟩

/-- A resource with a text, under a path. -/
def resourceAt (path : JsString) : EspHomeSourceResourceInput :=
  ⟨path, js "text", ⟨js "memory:" ++ path, yamlSourceMediaType, sha256Utf8 zeroHash (js "text")⟩⟩

/-- A root with two resources. -/
def twoResources : BindEspHomeSourceInputsInput where
  root := yamlSourceState (js "root")
  rootPath := js "c.yaml"
  resources := [resourceAt (js "b.yaml"), resourceAt (js "a.yaml")]
  availableSecretNames := [js "key", js "other"]
  manifestUri := js "memory:manifest"

/-- The root with two resources is accepted. -/
theorem accepted_twoResources : Accepted zeroHash twoResources (js "root") where
  state := parseState_yamlSourceState (by decide)
  codec := by decide
  portable := by decide
  notSecret := by decide
  located := by decide
  source := decodeYamlSource_str (by decide)
  secretNames := by
    intro name hname
    simp only [twoResources, List.mem_cons, List.not_mem_nil, or_false] at hname
    rcases hname with rfl | rfl <;> decide
  nodup_secretNames := by decide
  resources := by
    intro resource hresource
    simp only [twoResources, List.mem_cons, List.not_mem_nil, or_false] at hresource
    rcases hresource with rfl | rfl
    · exact ⟨⟨by decide, by decide, by decide, by decide, rfl, rfl⟩, by decide⟩
    · exact ⟨⟨by decide, by decide, by decide, by decide, rfl, rfl⟩, by decide⟩
  nodup_paths := by decide

/-- The issues after a walk are sorted alike for resources and secrets in another order. -/
theorem sortedIssues_allIssues_congr {checked' : CheckedInputs} (state : WalkState)
    (hroot : checked.files.root = checked'.files.root)
    (hget : ∀ path, Record.get checked.files.resourceByPath path =
      Record.get checked'.files.resourceByPath path)
    (hsecrets : ∀ name, name ∈ checked.availableSecrets ↔ name ∈ checked'.availableSecrets) :
    sortedIssues (allIssues checked state) = sortedIssues (allIssues checked' state) := by
  have hkeys : (Record.keys checked.files.resourceByPath).Perm
      (Record.keys checked'.files.resourceByPath) := by
    rw [List.perm_ext_iff_of_nodup (Record.keys_nodup _) (Record.keys_nodup _)]
    intro path
    rw [Record.mem_keys, Record.mem_keys, Record.has, Record.has, hget]
  unfold allIssues
  simp only [hsecrets, hroot]
  refine sortedIssues_perm ((hkeys.filter _).map _) ?_
  rw [List.map_map]
  exact List.Nodup.map (fun _ _ => issueKey_unusedIssue_injective)
    ((Record.keys_nodup _).filter _)

/-- What is concluded from a walk does not depend on the order of the resources and secrets. -/
theorem conclude_congr {checked' : CheckedInputs} (hstate : checked.rootState = checked'.rootState)
    (hroot : checked.files.root = checked'.files.root)
    (hget : ∀ path, Record.get checked.files.resourceByPath path =
      Record.get checked'.files.resourceByPath path)
    (hsecrets : ∀ name, name ∈ checked.availableSecrets ↔ name ∈ checked'.availableSecrets)
    (huri : checked.manifestUri = checked'.manifestUri) :
    conclude sha256 checked = conclude sha256 checked' := by
  funext state
  have hfile : boundFile checked.files.resourceByPath =
      boundFile checked'.files.resourceByPath := by
    funext path
    unfold boundFile
    rw [hget]
  have hready : bindReady sha256 checked state = bindReady sha256 checked' state := by
    unfold bindReady
    rw [hfile, hstate, hroot, huri]
  unfold conclude
  rw [sortedIssues_allIssues_congr state hroot hget hsecrets, hready]

/-- The result does not depend on the order of the resources and of the names of the secrets. -/
theorem bindEspHomeSourceInputs_perm {resources : List EspHomeSourceResourceInput}
    {availableSecretNames : List JsString} (hchecked : checkInputs sha256 input = .ok checked)
    (hresources : input.resources.Perm resources)
    (hnames : input.availableSecretNames.Perm availableSecretNames) (fuel : ℕ) :
    bindEspHomeSourceInputs sha256 scanSource fuel
        { input with resources, availableSecretNames } =
      bindEspHomeSourceInputs sha256 scanSource fuel input := by
  obtain ⟨rootSource, h, hchecks⟩ := checkInputs_ok_iff.mp hchecked
  have haccepted : Accepted sha256 { input with resources, availableSecretNames } rootSource :=
    { state := h.state
      codec := h.codec
      portable := h.portable
      notSecret := h.notSecret
      located := h.located
      source := h.source
      secretNames := fun name hname => h.secretNames name (hnames.mem_iff.mpr hname)
      nodup_secretNames := hnames.nodup_iff.mp h.nodup_secretNames
      resources := fun resource hresource =>
        h.resources resource (hresources.mem_iff.mpr hresource)
      nodup_paths := (hresources.map _).nodup_iff.mp h.nodup_paths }
  obtain ⟨checked', hchecked', hchecks'⟩ := exists_checkInputs haccepted
  have hnodup : ((input.resources.map EspHomeSourceResourceInput.entry).map Prod.fst).Nodup := by
    rw [List.map_map]
    exact h.nodup_paths
  have hget : ∀ path, Record.get checked'.files.resourceByPath path =
      Record.get checked.files.resourceByPath path := by
    intro path
    rw [hchecks.resources, hchecks'.resources]
    exact Record.get_perm hnodup (hresources.map _) path
  have hroot : checked'.files.root = checked.files.root := by rw [hchecks.root, hchecks'.root]
  have hsecrets : ∀ name, name ∈ checked'.availableSecrets ↔ name ∈ checked.availableSecrets := by
    intro name
    rw [hchecks.secrets, hchecks'.secrets]
    exact hnames.mem_iff.symm
  rw [bindEspHomeSourceInputs_eq hchecked, bindEspHomeSourceInputs_eq hchecked', hroot,
    walk_congr hget, conclude_congr (by rw [hchecks.state, hchecks'.state]) hroot hget hsecrets
      (by rw [hchecks.manifestUri, hchecks'.manifestUri])]

/-- The two resources and the secrets can be given in the other order. -/
theorem bindEspHomeSourceInputs_perm_twoResources :
    bindEspHomeSourceInputs zeroHash scanFirst 3
        { twoResources with
          resources := [resourceAt (js "a.yaml"), resourceAt (js "b.yaml")]
          availableSecretNames := [js "other", js "key"] } =
      bindEspHomeSourceInputs zeroHash scanFirst 3 twoResources := by
  obtain ⟨checked, hchecked, -⟩ := exists_checkInputs accepted_twoResources
  exact bindEspHomeSourceInputs_perm hchecked (List.Perm.swap _ _ _) (List.Perm.swap _ _ _) 3

end

end T3x.Esphome
