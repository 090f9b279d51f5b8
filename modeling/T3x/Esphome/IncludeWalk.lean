import T3x.Esphome.SourceInputs
import T3x.Walks

/-!
# The walk of the includes

The includes are edges between paths. The walk keeps that a source it has left is
recorded with all that its scan finds, that every issue is one of a source that is
reached or tells of a cycle, and that a source that leads to a cycle has left an issue
of one. With fuel for every source the walk ends.
-/

namespace T3x.Esphome

open Js Transition Walks

/-! ## Folds that stop -/

/-- What every step of a fold keeps, with the items that are done, holds at its end. -/
theorem exists_foldlM {S T : Type} {f : S → T → Option S} {Keeps : List T → S → Prop}
    {items : List T} {start : S} (hstart : Keeps [] start)
    (hstep : ∀ done item state, item ∈ items → Keeps done state →
      ∃ state', f state item = some state' ∧ Keeps (done ++ [item]) state') :
    ∃ state, items.foldlM f start = some state ∧ Keeps items state := by
  suffices h : ∀ done rest state, done ++ rest = items → Keeps done state →
      ∃ state', rest.foldlM f state = some state' ∧ Keeps items state' from
    h [] items start rfl hstart
  intro done rest
  induction rest generalizing done with
  | nil =>
    intro state hitems hkeeps
    rw [List.append_nil] at hitems
    exact ⟨state, rfl, hitems ▸ hkeeps⟩
  | cons item rest ih =>
    intro state hitems hkeeps
    obtain ⟨state', hf, hkeeps'⟩ := hstep done item state (by simp [← hitems]) hkeeps
    obtain ⟨last, hlast, hall⟩ := ih (done ++ [item]) state' (by simpa using hitems) hkeeps'
    refine ⟨last, ?_, hall⟩
    rw [List.foldlM_cons, hf]
    exact hlast

/-! ## Sets of texts -/

/-- The members of a set with one more. -/
@[simp] theorem mem_setAdd {set : List JsString} {item x : JsString} :
    x ∈ setAdd set item ↔ x ∈ set ∨ x = item := by
  unfold setAdd
  split_ifs with h
  · refine ⟨.inl, fun hx => hx.elim id ?_⟩
    rintro rfl
    exact h
  · simp

/-- A set stays without repetition. -/
theorem nodup_setAdd {set : List JsString} (h : set.Nodup) (item : JsString) :
    (setAdd set item).Nodup := by
  unfold setAdd
  split_ifs with hmem
  · exact h
  · rw [List.nodup_append]
    refine ⟨h, List.nodup_singleton _, ?_⟩
    rintro a ha b hb rfl
    exact hmem (List.mem_singleton.mp hb ▸ ha)

/-- The members of a set to which items are added. -/
theorem mem_foldl_setAdd {items set : List JsString} {x : JsString} :
    x ∈ items.foldl setAdd set ↔ x ∈ set ∨ x ∈ items := by
  induction items generalizing set with
  | nil => simp
  | cons item items ih =>
    rw [List.foldl_cons, ih, mem_setAdd, List.mem_cons, or_assoc]

/-- A set to which items are added stays without repetition. -/
theorem nodup_foldl_setAdd {items set : List JsString} (h : set.Nodup) :
    (items.foldl setAdd set).Nodup := by
  induction items generalizing set with
  | nil => exact h
  | cons item items ih => exact ih (nodup_setAdd h item)

/-! ## The graph of the includes -/

/-- The source at a path. -/
def SourceFiles.fileAt (files : SourceFiles) (path : JsString) : Option SourceFile :=
  if path = files.root.path then some files.root else Record.get files.resourceByPath path

/-- The paths of the sources. -/
def SourceFiles.paths (files : SourceFiles) : List JsString :=
  files.root.path :: Record.keys files.resourceByPath

/-- A source stands at its own path. -/
theorem SourceFiles.path_of_fileAt {files : SourceFiles} {path : JsString} {file : SourceFile}
    (h : files.fileAt path = some file) : file.path = path := by
  unfold fileAt at h
  split_ifs at h with hroot
  · rw [← Option.some.inj h, hroot]
  · exact files.named path file h

/-- The root stands at its path. -/
theorem SourceFiles.fileAt_root (files : SourceFiles) :
    files.fileAt files.root.path = some files.root := if_pos rfl

/-- A resource stands at its path. -/
theorem SourceFiles.fileAt_of_get {files : SourceFiles} {path : JsString} {file : SourceFile}
    (h : Record.get files.resourceByPath path = some file) : files.fileAt path = some file := by
  have hne : path ≠ files.root.path := by
    rintro rfl
    rw [Record.has_eq_false.mp files.apart] at h
    cases h
  rw [fileAt, if_neg hne, h]

/-- A path with a source is among the paths. -/
theorem SourceFiles.mem_paths {files : SourceFiles} {path : JsString} :
    path ∈ files.paths ↔ (files.fileAt path).isSome = true := by
  unfold paths fileAt
  rw [List.mem_cons, Record.mem_keys]
  split_ifs with h
  · simp [h]
  · simp [h, Record.has]

section

variable (scanSource : SourceFile → ScannedSource) (files : SourceFiles)

/-- A source includes one that is there: the root or a resource. -/
def Includes (path target : JsString) : Prop :=
  ∃ file, files.fileAt path = some file ∧ ∃ reference ∈ (scanSource file).includes,
    resolveIncludePath path reference = some target ∧ (files.fileAt target).isSome = true

/-- A source includes a resource: the includes that the walk follows. -/
def Follows (path target : JsString) : Prop :=
  ∃ file, files.fileAt path = some file ∧ ∃ reference ∈ (scanSource file).includes,
    resolveIncludePath path reference = some target ∧
      Record.has files.resourceByPath target = true

/-- The issue of an include of a source, if there is one. -/
def includeIssues (path reference : JsString) : List EspHomeSourceInputIssue :=
  match resolveIncludePath path reference with
  | none => [includeShape path reference]
  | some target =>
    if Record.has files.resourceByPath target then [] else [notSupplied path target]

/-- The issues of a source apart from cycles. -/
def ownIssues (file : SourceFile) : List EspHomeSourceInputIssue :=
  (scanSource file).issues ++ (scanSource file).includes.flatMap (includeIssues files file.path)

end

section

variable {scanSource : SourceFile → ScannedSource} {files : SourceFiles}

/-- The walk follows the includes but those of the root. -/
theorem follows_iff {path target : JsString} :
    Follows scanSource files path target ↔
      Includes scanSource files path target ∧ target ≠ files.root.path := by
  have hiff : Record.has files.resourceByPath target = true ↔
      (files.fileAt target).isSome = true ∧ target ≠ files.root.path := by
    constructor
    · intro h
      obtain ⟨file, hfile⟩ := Record.has_eq_true.mp h
      refine ⟨by rw [SourceFiles.fileAt_of_get hfile]; rfl, ?_⟩
      rintro rfl
      rw [files.apart] at h
      cases h
    · rintro ⟨h, hne⟩
      rw [SourceFiles.fileAt, if_neg hne] at h
      exact h
  unfold Follows Includes
  simp only [hiff]
  constructor
  · rintro ⟨file, hfile, reference, hreference, hresolve, hsome, hne⟩
    exact ⟨⟨file, hfile, reference, hreference, hresolve, hsome⟩, hne⟩
  · rintro ⟨⟨file, hfile, reference, hreference, hresolve, hsome⟩, hne⟩
    exact ⟨file, hfile, reference, hreference, hresolve, hsome, hne⟩

/-- No issue of a source apart from cycles tells of a cycle. -/
theorem code_of_mem_ownIssues {file : SourceFile} {issue : EspHomeSourceInputIssue}
    (h : issue ∈ ownIssues scanSource files file) : issue.code ≠ .includeCycle := by
  unfold ownIssues at h
  rcases List.mem_append.mp h with h | h
  · have hcode := (scanSource file).codes issue h
    rintro heq
    rw [heq] at hcode
    cases hcode
  · obtain ⟨reference, -, h⟩ := List.mem_flatMap.mp h
    unfold includeIssues at h
    split at h
    · rw [List.mem_singleton.mp h]
      exact fun heq => by cases heq
    · split_ifs at h
      · cases h
      · rw [List.mem_singleton.mp h]
        exact fun heq => by cases heq

end

/-! ## What the walk keeps -/

/-- An issue tells of a cycle. -/
def WalkState.HasCycle (state : WalkState) : Prop :=
  ∃ issue ∈ state.issues, issue.code = .includeCycle

/-- A state knows all that an earlier one knew. -/
structure Extends (state state' : WalkState) : Prop where
  /-- The sources that were left. -/
  visited : state.visited ⊆ state'.visited
  /-- The resources that are included. -/
  referenced : state.referencedResources ⊆ state'.referencedResources
  /-- The secrets. -/
  secrets : state.secretReferences ⊆ state'.secretReferences
  /-- The issues. -/
  issues : state.issues ⊆ state'.issues

/-- A state knows all that it knew. -/
theorem Extends.refl (state : WalkState) : Extends state state :=
  ⟨fun _ h => h, fun _ h => h, fun _ h => h, fun _ h => h⟩

/-- What is known stays known. -/
theorem Extends.trans {a b c : WalkState} (hab : Extends a b) (hbc : Extends b c) : Extends a c :=
  ⟨fun _ h => hbc.visited (hab.visited h), fun _ h => hbc.referenced (hab.referenced h),
    fun _ h => hbc.secrets (hab.secrets h), fun _ h => hbc.issues (hab.issues h)⟩

/-- A cycle that was found stays found. -/
theorem Extends.hasCycle {state state' : WalkState} (h : Extends state state')
    (hcycle : state.HasCycle) : state'.HasCycle := by
  obtain ⟨issue, hissue, hcode⟩ := hcycle
  exact ⟨issue, h.issues hissue, hcode⟩

/-- One more issue. -/
theorem extends_report (state : WalkState) (issue : EspHomeSourceInputIssue) :
    Extends state (state.report issue) :=
  ⟨fun _ h => h, fun _ h => h, fun _ h => h, List.subset_append_left _ _⟩

section

variable (scanSource : SourceFile → ScannedSource) (files : SourceFiles)

/-- An include has been followed: its issue is reported, or its target is known to be included
and has been walked, unless a cycle was found. -/
structure Handled (path reference : JsString) (state : WalkState) : Prop where
  /-- The issue of the include. -/
  issues : includeIssues files path reference ⊆ state.issues
  /-- The target of the include. -/
  target : ∀ target, resolveIncludePath path reference = some target →
    Record.has files.resourceByPath target = true →
      target ∈ state.referencedResources ∧ (target ∈ state.visited ∨ state.HasCycle)

/-- A source is recorded: its scan, and every include of it. -/
structure Recorded (file : SourceFile) (state : WalkState) : Prop where
  /-- The issues of the scan. -/
  issues : (scanSource file).issues ⊆ state.issues
  /-- The secrets of the scan. -/
  secrets : (scanSource file).secretReferences ⊆ state.secretReferences
  /-- The includes. -/
  includes : ∀ reference ∈ (scanSource file).includes, Handled files file.path reference state

/-- What every state of the walk satisfies. -/
structure Explored (state : WalkState) : Prop where
  /-- The sources that were left are recorded. -/
  recorded : ∀ path ∈ state.visited, ∀ file, files.fileAt path = some file →
    Recorded scanSource files file state
  /-- A source that was left and leads to a cycle has left an issue of one. -/
  cyclic : ∀ path ∈ state.visited, LeadsToCycle (Follows scanSource files) path → state.HasCycle
  /-- The issues are those of sources that are reached, or tell of a cycle that is reached. -/
  issues : ∀ issue ∈ state.issues,
    (∃ path file, Reaches (Follows scanSource files) files.root.path path ∧
      files.fileAt path = some file ∧ issue ∈ ownIssues scanSource files file) ∨
    issue.code = .includeCycle ∧ LeadsToCycle (Follows scanSource files) files.root.path
  /-- The resources that are included are included by sources that are reached. -/
  referenced : ∀ target ∈ state.referencedResources, ∃ path,
    Reaches (Follows scanSource files) files.root.path path ∧
      Follows scanSource files path target
  /-- The secrets are those of sources that are reached. -/
  secrets : ∀ name ∈ state.secretReferences, ∃ path file,
    Reaches (Follows scanSource files) files.root.path path ∧
      files.fileAt path = some file ∧ name ∈ (scanSource file).secretReferences
  /-- No resource is repeated. -/
  nodup_referenced : state.referencedResources.Nodup
  /-- No secret is repeated. -/
  nodup_secrets : state.secretReferences.Nodup

/-- A source that can be entered. -/
structure Enterable (fuel : ℕ) (file : SourceFile) (state : WalkState) : Prop where
  /-- The source stands at its path. -/
  placed : files.fileAt file.path = some file
  /-- The source is reached. -/
  reached : Reaches (Follows scanSource files) files.root.path file.path
  /-- The source is not being walked. -/
  fresh : file.path ∉ state.visiting
  /-- The sources that are being walked lead to it. -/
  stack : ∀ path ∈ state.visiting, Reaches (Follows scanSource files) path file.path
  /-- They are sources. -/
  known : ∀ path ∈ state.visiting, path ∈ files.paths
  /-- No source is being walked twice. -/
  nodup : state.visiting.Nodup
  /-- The fuel covers the sources that are not being walked. -/
  enough : files.paths.length ≤ fuel + state.visiting.length

/-- What a walk of a source makes of a state. -/
structure Walked (file : SourceFile) (state state' : WalkState) : Prop where
  /-- The state is one of the walk. -/
  explored : Explored scanSource files state'
  /-- Nothing is forgotten. -/
  extends_ : Extends state state'
  /-- The same sources are being walked. -/
  visiting : state'.visiting = state.visiting
  /-- The source has been walked. -/
  visited : file.path ∈ state'.visited

end

section

variable {scanSource : SourceFile → ScannedSource} {files : SourceFiles}

/-- A followed include stays followed. -/
theorem Handled.mono {path reference : JsString} {state state' : WalkState}
    (h : Handled files path reference state) (hext : Extends state state') :
    Handled files path reference state' where
  issues _ hissue := hext.issues (h.issues hissue)
  target target hresolve hhas := by
    obtain ⟨hreferenced, hvisited⟩ := h.target target hresolve hhas
    exact ⟨hext.referenced hreferenced, hvisited.imp (hext.visited ·) hext.hasCycle⟩

/-- A recorded source stays recorded. -/
theorem Recorded.mono {file : SourceFile} {state state' : WalkState}
    (h : Recorded scanSource files file state) (hext : Extends state state') :
    Recorded scanSource files file state' :=
  ⟨fun _ hissue => hext.issues (h.issues hissue), fun _ hname => hext.secrets (h.secrets hname),
    fun reference hreference => (h.includes reference hreference).mono hext⟩

/-- The issues of a recorded source are reported. -/
theorem Recorded.ownIssues {file : SourceFile} {state : WalkState}
    (h : Recorded scanSource files file state) :
    ownIssues scanSource files file ⊆ state.issues := by
  intro issue hissue
  unfold Esphome.ownIssues at hissue
  rcases List.mem_append.mp hissue with hissue | hissue
  · exact h.issues hissue
  · obtain ⟨reference, hreference, hissue⟩ := List.mem_flatMap.mp hissue
    exact (h.includes reference hreference).issues hissue

/-- The resources that a recorded source includes. -/
theorem Recorded.follows {file : SourceFile} {state : WalkState} {target : JsString}
    (h : Recorded scanSource files file state) (hfile : files.fileAt file.path = some file)
    (hfollows : Follows scanSource files file.path target) :
    target ∈ state.referencedResources ∧ (target ∈ state.visited ∨ state.HasCycle) := by
  obtain ⟨file', hfile', reference, hreference, hresolve, hhas⟩ := hfollows
  obtain rfl := Option.some.inj (hfile.symm.trans hfile')
  exact (h.includes reference hreference).target target hresolve hhas

/-- The start of the walk. -/
theorem explored_start : Explored scanSource files {} where
  recorded _ h := by cases h
  cyclic _ h := by cases h
  issues _ h := by cases h
  referenced _ h := by cases h
  secrets _ h := by cases h
  nodup_referenced := List.nodup_nil
  nodup_secrets := List.nodup_nil

/-! ## Steps of the walk -/

/-- An issue of a source that is reached, or of a cycle that is reached, can be reported. -/
theorem Explored.report {state : WalkState} (h : Explored scanSource files state)
    {issue : EspHomeSourceInputIssue}
    (hissue : (∃ path file, Reaches (Follows scanSource files) files.root.path path ∧
      files.fileAt path = some file ∧ issue ∈ ownIssues scanSource files file) ∨
      issue.code = .includeCycle ∧ LeadsToCycle (Follows scanSource files) files.root.path) :
    Explored scanSource files (state.report issue) where
  recorded path hpath file hfile := (h.recorded path hpath file hfile).mono (extends_report _ _)
  cyclic path hpath hcycle := (extends_report _ _).hasCycle (h.cyclic path hpath hcycle)
  issues other hother := by
    rcases List.mem_append.mp hother with hother | hother
    · exact h.issues other hother
    · rw [List.mem_singleton.mp hother]
      exact hissue
  referenced := h.referenced
  secrets := h.secrets
  nodup_referenced := h.nodup_referenced
  nodup_secrets := h.nodup_secrets

/-- The state with one more included resource. -/
theorem extends_reference (state : WalkState) (target : JsString) :
    Extends state
      { state with referencedResources := setAdd state.referencedResources target } :=
  ⟨fun _ h => h, fun _ h => mem_setAdd.mpr (.inl h), fun _ h => h, fun _ h => h⟩

/-- A resource that a source includes that is reached can be added. -/
theorem Explored.reference {state : WalkState} (h : Explored scanSource files state)
    {path target : JsString} (hpath : Reaches (Follows scanSource files) files.root.path path)
    (htarget : Follows scanSource files path target) :
    Explored scanSource files
      { state with referencedResources := setAdd state.referencedResources target } where
  recorded path hpath file hfile := (h.recorded path hpath file hfile).mono (extends_reference _ _)
  cyclic := h.cyclic
  issues := h.issues
  referenced other hother := by
    rcases mem_setAdd.mp hother with hother | rfl
    · exact h.referenced other hother
    · exact ⟨path, hpath, htarget⟩
  secrets := h.secrets
  nodup_referenced := nodup_setAdd h.nodup_referenced target
  nodup_secrets := h.nodup_secrets

/-- Entering a source adds what its scan finds. -/
theorem extends_enter (file : SourceFile) (state : WalkState) :
    Extends state (enter scanSource file state) :=
  ⟨fun _ h => h, fun _ h => h, fun _ h => mem_foldl_setAdd.mpr (.inl h),
    List.subset_append_left _ _⟩

/-- A source that is reached can be entered. -/
theorem Explored.enter {file : SourceFile} {state : WalkState}
    (h : Explored scanSource files state) (hplaced : files.fileAt file.path = some file)
    (hreached : Reaches (Follows scanSource files) files.root.path file.path) :
    Explored scanSource files (enter scanSource file state) where
  recorded path hpath file hfile := (h.recorded path hpath file hfile).mono (extends_enter _ _)
  cyclic path hpath hcycle := (extends_enter _ _).hasCycle (h.cyclic path hpath hcycle)
  issues issue hissue := by
    rcases List.mem_append.mp hissue with hissue | hissue
    · exact h.issues issue hissue
    · exact .inl ⟨file.path, file, hreached, hplaced, List.mem_append_left _ hissue⟩
  referenced := h.referenced
  secrets name hname := by
    rcases mem_foldl_setAdd.mp hname with hname | hname
    · exact h.secrets name hname
    · exact ⟨file.path, file, hreached, hplaced, hname⟩
  nodup_referenced := h.nodup_referenced
  nodup_secrets := nodup_foldl_setAdd h.nodup_secrets

variable (scanSource files) in
/-- The state between two includes of a source, some of which have been followed. -/
structure Following (file : SourceFile) (outer : WalkState) (done : List JsString)
    (state : WalkState) : Prop where
  /-- The state is one of the walk. -/
  explored : Explored scanSource files state
  /-- Nothing is forgotten. -/
  extends_ : Extends outer state
  /-- The source is being walked. -/
  visiting : state.visiting = file.path :: outer.visiting
  /-- The issues of its scan. -/
  issues : (scanSource file).issues ⊆ state.issues
  /-- The secrets of its scan. -/
  secrets : (scanSource file).secretReferences ⊆ state.secretReferences
  /-- The includes that have been followed. -/
  handled : ∀ reference ∈ done, Handled files file.path reference state

/-- Following one more include. -/
theorem Following.step {file : SourceFile} {outer state state' : WalkState}
    {done : List JsString} {reference : JsString}
    (h : Following scanSource files file outer done state)
    (hexplored : Explored scanSource files state') (hext : Extends state state')
    (hvisiting : state'.visiting = state.visiting)
    (hhandled : Handled files file.path reference state') :
    Following scanSource files file outer (done ++ [reference]) state' where
  explored := hexplored
  extends_ := h.extends_.trans hext
  visiting := hvisiting.trans h.visiting
  issues _ hissue := hext.issues (h.issues hissue)
  secrets _ hname := hext.secrets (h.secrets hname)
  handled other hother := by
    rcases List.mem_append.mp hother with hother | hother
    · exact (h.handled other hother).mono hext
    · rw [List.mem_singleton.mp hother]
      exact hhandled

/-- A source that was entered and whose includes have all been followed can be left. -/
theorem Following.leave {file : SourceFile} {outer state : WalkState}
    (h : Following scanSource files file outer (scanSource file).includes state)
    (hplaced : files.fileAt file.path = some file) :
    Walked scanSource files file outer (leave file state) := by
  have hext : Extends state (Esphome.leave file state) :=
    ⟨fun _ hp => mem_setAdd.mpr (.inl hp), fun _ hp => hp, fun _ hp => hp, fun _ hp => hp⟩
  have hrecorded : Recorded scanSource files file state := ⟨h.issues, h.secrets, h.handled⟩
  refine ⟨?_, h.extends_.trans hext, ?_, mem_setAdd.mpr (.inr rfl)⟩
  · refine ⟨fun path hpath file' hfile' => ?_, fun path hpath hcycle => ?_, h.explored.issues,
      h.explored.referenced, h.explored.secrets, h.explored.nodup_referenced,
      h.explored.nodup_secrets⟩
    · rcases mem_setAdd.mp hpath with hpath | rfl
      · exact (h.explored.recorded path hpath file' hfile').mono hext
      · obtain rfl := Option.some.inj (hplaced.symm.trans hfile')
        exact hrecorded.mono hext
    · rcases mem_setAdd.mp hpath with hpath | rfl
      · exact hext.hasCycle (h.explored.cyclic path hpath hcycle)
      -- A successor of the source leads to the cycle, and it was left before the source.
      · obtain ⟨target, hfollows, htarget⟩ := leadsToCycle_iff.mp hcycle
        obtain ⟨-, hvisited | hfound⟩ := hrecorded.follows hplaced hfollows
        · exact hext.hasCycle (h.explored.cyclic target hvisited htarget)
        · exact hext.hasCycle hfound
  · change state.visiting.erase file.path = outer.visiting
    rw [h.visiting, List.erase_cons_head]

/-- One include of a source that is being walked, given the walk of what it leads to. -/
theorem Following.followInclude {fuel : ℕ} {file : SourceFile} {outer state : WalkState}
    {done : List JsString} {reference : JsString}
    {walk : SourceFile → WalkState → Option WalkState}
    (hwalk : ∀ file state, Enterable scanSource files fuel file state →
      Explored scanSource files state →
      ∃ state', walk file state = some state' ∧ Walked scanSource files file state state')
    (henter : Enterable scanSource files (fuel + 1) file outer)
    (hreference : reference ∈ (scanSource file).includes)
    (h : Following scanSource files file outer done state) :
    ∃ state', followInclude files.resourceByPath walk file state reference = some state' ∧
      Following scanSource files file outer (done ++ [reference]) state' := by
  have hissue : ∀ issue ∈ includeIssues files file.path reference,
      issue ∈ ownIssues scanSource files file := fun issue hissue =>
    List.mem_append_right _ (List.mem_flatMap.mpr ⟨reference, hreference, hissue⟩)
  -- An include that is not followed leaves its issue, which is all that it asks for.
  have hreport : ∀ issue, includeIssues files file.path reference = [issue] →
      (∀ target, resolveIncludePath file.path reference = some target →
        Record.has files.resourceByPath target = false) →
      Following scanSource files file outer (done ++ [reference]) (state.report issue) := by
    intro issue hissues hnone
    refine h.step (h.explored.report ?_) (extends_report _ _) rfl ⟨?_, ?_⟩
    · exact .inl ⟨file.path, file, henter.reached, henter.placed, hissue _ (by simp [hissues])⟩
    · rw [hissues]
      exact List.subset_append_right _ _
    · intro target hresolve hhas
      rw [hnone target hresolve] at hhas
      cases hhas
  unfold Esphome.followInclude
  cases hresolve : resolveIncludePath file.path reference with
  | none =>
    refine ⟨_, rfl, hreport _ (by simp [includeIssues, hresolve]) ?_⟩
    intro target htarget
    rw [hresolve] at htarget
    cases htarget
  | some target =>
    cases hget : Record.get files.resourceByPath target with
    | none =>
      have hhas := Record.has_eq_false.mpr hget
      have hissues : includeIssues files file.path reference = [notSupplied file.path target] := by
        simp [includeIssues, hresolve, hhas]
      refine ⟨state.report (notSupplied file.path target), by simp only [hget], hreport _ hissues ?_⟩
      intro other hother
      rw [hresolve] at hother
      rw [← Option.some.inj hother, hhas]
    | some dependency =>
      have hhas := Record.has_eq_true.mpr ⟨dependency, hget⟩
      have hpath : dependency.path = target := files.named target dependency hget
      have hfollows : Follows scanSource files file.path target :=
        ⟨file, henter.placed, reference, hreference, hresolve, hhas⟩
      have hnone : includeIssues files file.path reference = [] := by
        simp [includeIssues, hresolve, hhas]
      have hexplored := h.explored.reference henter.reached hfollows
      have hext := extends_reference state target
      simp only [hget]
      by_cases hvisiting : target ∈ state.visiting
      · -- The target is being walked, so it leads to the source: the include closes a cycle.
        rw [if_pos hvisiting]
        have hback : Reaches (Follows scanSource files) target file.path := by
          rw [h.visiting, List.mem_cons] at hvisiting
          rcases hvisiting with rfl | hmem
          · exact Reaches.refl _
          · exact henter.stack target hmem
        have hcycle : LeadsToCycle (Follows scanSource files) files.root.path :=
          (hback.cyclic hfollows).leadsToCycle.of_walk (henter.reached.tail hfollows)
        refine ⟨_, rfl, h.step (hexplored.report (.inr ⟨rfl, hcycle⟩))
          (hext.trans (extends_report _ _)) rfl ⟨by simp [hnone], ?_⟩⟩
        intro other hother _
        obtain rfl := Option.some.inj (hresolve.symm.trans hother)
        exact ⟨mem_setAdd.mpr (.inr rfl), .inr ⟨_, List.mem_append_right _
          (List.mem_singleton.mpr rfl), rfl⟩⟩
      · rw [if_neg hvisiting]
        have hfresh : dependency.path ∉ file.path :: outer.visiting := by
          rw [hpath, ← h.visiting]
          exact hvisiting
        have henter' : Enterable scanSource files fuel dependency
            { state with referencedResources := setAdd state.referencedResources target } := by
          refine ⟨?_, ?_, ?_, ?_, ?_, ?_, ?_⟩
          · rw [hpath]
            exact SourceFiles.fileAt_of_get hget
          · rw [hpath]
            exact henter.reached.tail hfollows
          · rw [hpath]
            exact hvisiting
          · rw [hpath]
            change ∀ path ∈ state.visiting, _
            rw [h.visiting]
            intro path hmem
            rcases List.mem_cons.mp hmem with rfl | hmem
            · exact (Reaches.refl _).tail hfollows
            · exact (henter.stack path hmem).tail hfollows
          · change ∀ path ∈ state.visiting, _
            rw [h.visiting]
            intro path hmem
            rcases List.mem_cons.mp hmem with rfl | hmem
            · rw [SourceFiles.mem_paths, henter.placed]
              rfl
            · exact henter.known path hmem
          · change state.visiting.Nodup
            rw [h.visiting]
            exact List.nodup_cons.mpr ⟨henter.fresh, henter.nodup⟩
          · change _ ≤ fuel + state.visiting.length
            rw [h.visiting, List.length_cons]
            have henough := henter.enough
            omega
        obtain ⟨state', hstate', hwalked⟩ := hwalk _ _ henter' hexplored
        refine ⟨state', hstate', h.step hwalked.explored (hext.trans hwalked.extends_)
          hwalked.visiting ⟨by simp [hnone], ?_⟩⟩
        intro other hother _
        obtain rfl := Option.some.inj (hresolve.symm.trans hother)
        refine ⟨hwalked.extends_.referenced (mem_setAdd.mpr (.inr rfl)), .inl ?_⟩
        rw [← hpath]
        exact hwalked.visited

/-- The walk of a source that can be entered ends, and records the source. -/
theorem exists_walk (fuel : ℕ) (file : SourceFile) (state : WalkState)
    (henter : Enterable scanSource files fuel file state)
    (hexplored : Explored scanSource files state) :
    ∃ state', walk scanSource files.resourceByPath fuel file state = some state' ∧
      Walked scanSource files file state state' := by
  induction fuel generalizing file state with
  | zero =>
    -- All sources would be walked, the one that is entered among them.
    have hsub : (file.path :: state.visiting).Subperm files.paths := by
      refine (List.nodup_cons.mpr ⟨henter.fresh, henter.nodup⟩).subperm fun path hpath => ?_
      rcases List.mem_cons.mp hpath with rfl | hpath
      · rw [SourceFiles.mem_paths, henter.placed]
        rfl
      · exact henter.known path hpath
    have hlength := hsub.length_le
    have henough := henter.enough
    rw [List.length_cons] at hlength
    omega
  | succ fuel ih =>
    unfold walk
    by_cases hvisited : file.path ∈ state.visited
    · exact ⟨state, if_pos hvisited, hexplored, .refl _, rfl, hvisited⟩
    · rw [if_neg hvisited, if_neg henter.fresh]
      have hstart : Following scanSource files file state [] (enter scanSource file state) :=
        ⟨hexplored.enter henter.placed henter.reached, extends_enter file state, rfl,
          List.subset_append_right _ _, fun _ h => mem_foldl_setAdd.mpr (.inr h),
          fun _ h => by cases h⟩
      obtain ⟨last, hlast, hfollowing⟩ := exists_foldlM hstart
        fun done reference state' hreference hdone =>
          hdone.followInclude ih henter hreference
      exact ⟨leave file last, by rw [hlast]; rfl, hfollowing.leave henter.placed⟩

/-- The walk of the root ends in a state that records it. -/
theorem exists_walk_root {fuel : ℕ}
    (hfuel : (Record.keys files.resourceByPath).length < fuel) :
    ∃ state, walk scanSource files.resourceByPath fuel files.root {} = some state ∧
      Walked scanSource files files.root {} state := by
  refine exists_walk fuel files.root {} ⟨files.fileAt_root, Reaches.refl _, List.not_mem_nil,
    fun _ h => (List.not_mem_nil h).elim, fun _ h => (List.not_mem_nil h).elim,
    List.nodup_nil, ?_⟩ explored_start
  simp only [SourceFiles.paths, List.length_cons, List.length_nil]
  omega

end

end T3x.Esphome
