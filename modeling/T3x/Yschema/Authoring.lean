import T3x.Yops.Frame
import T3x.Yschema.Normalize
import T3x.Yschema.Object

/-!
# Editing a schema by operations

Operations on a schema may name paths below `nodes`, `relationTypes` and `rules`
only. They are applied to the schema as the object it is, and the document that
they give is read as a schema again. Every accepted list of operations leaves the
other members of the schema as they were, unless one of them renames or folds a
member of the root onto one of these.
-/

namespace T3x.Yschema

open Js T3x.Run T3x.Yops

/-- `WorkspaceSchemaYOpsErrorCode`. -/
inductive WorkspaceSchemaYOpsErrorCode where
  | invalidCommand
  | pathOutOfBounds
  | invalidOperation
  | applyFailed
  | invalidResult
  deriving DecidableEq

/-- `WorkspaceSchemaYOpsError`. -/
structure WorkspaceSchemaYOpsError where
  /-- The code. -/
  code : WorkspaceSchemaYOpsErrorCode
  /-- The message. -/
  message : JsString
  /-- The index of the operation, if the error is about one. -/
  operationIndex : Option ℕ

/-- What the editing functions throw: an error of their own, or what reading the base throws. -/
inductive AuthoringFailure where
  | yops (e : WorkspaceSchemaYOpsError)
  | thrown (message : JsString)

/-- `EDITABLE_ROOTS`. -/
def editableRoots : List String := ["nodes", "relationTypes", "rules"]

/-- The operations whose one path is `path`, in the order in which they are tested for. -/
def pathOperations : List String :=
  ["define", "drop", "rename", "set", "unset", "populate", "append", "nest", "split", "fold",
    "merge", "sort", "unique", "pick", "omit"]

/-- `operationPaths`. -/
def operationPaths (operation : JsValue) : List JsString :=
  let path (name field : String) : JsString := ((operation.member name).member field).text
  if operation.hasMember "move" then [path "move" "from", path "move" "to"]
  else if operation.hasMember "clone" then [path "clone" "from", path "clone" "to"]
  else
    match pathOperations.find? operation.hasMember with
    | some name => [path name "path"]
    | none => [path "assert" "path"]

/-- Whether a path begins with a key of the editable roots. -/
def isEditablePath (path : JsString) : Bool :=
  match parsePath path with
  | .key root :: _ => editableRoots.any fun name => decide (js name = root)
  | _ => false

section

-- the message of the first issue that the schema library finds in a value
variable (issueMessage : JsValue → JsString)

/-- One operation of `validateOperations`. What the schema library gives back is a
clone of what it was given. -/
def validateOperation (operation : JsValue) (index : ℕ) :
    Except WorkspaceSchemaYOpsError JsValue :=
  if yOpSchema operation = false then
    .error ⟨.invalidOperation, js "Schema YOps operation " ++ natToString index ++
      js " is invalid: " ++ issueMessage operation, some index⟩
  else if operation.hasMember "source" then
    .error ⟨.invalidOperation, js "Schema YOps provenance must be bound by the server", some index⟩
  else
    match (operationPaths operation).find? fun path => !isEditablePath path with
    | some path =>
      .error ⟨.pathOutOfBounds, about "Schema YOps path \"" path
        "\" is outside nodes, relationTypes, and rules", some index⟩
    | none => .ok (deepClone operation)

/-- `validateOperations`. -/
def validateOperations (operations : List JsValue) :
    Except WorkspaceSchemaYOpsError (List JsValue) :=
  operations.zipIdx.mapM fun entry => validateOperation issueMessage entry.1 entry.2

/-- `AppliedWorkspaceSchemaYOps`. -/
structure AppliedWorkspaceSchemaYOps where
  /-- The schema. -/
  schema : YSchema
  /-- Its digest. -/
  schemaHash : JsString
  /-- The operations. -/
  operations : List JsValue

/-- `sha256CompositionValue(value)`; `sha256` gives the hexadecimal digits of the hash of a
text. -/
def sha256CompositionValue (sha256 : JsString → JsString) (value : JsValue) : JsString :=
  js "sha256:" ++ sha256 (Yops.canonicalJson value)

variable (regExpError : JsString → Option JsString) (sha256 : JsString → JsString)

/-- `applyWorkspaceSchemaYOps`. -/
def applyWorkspaceSchemaYOps (baseInput : JsValue) (operationsInput : List JsValue) :
    Except AuthoringFailure AppliedWorkspaceSchemaYOps := do
  let base ← (normalizeYSchemaObject regExpError (deepClone baseInput)).mapError .thrown
  let operations ← (validateOperations issueMessage operationsInput).mapError .yops
  let applied := applyYOps issueMessage base.toObject operations
  if applied.ok = false then
    throw (.yops ⟨.applyFailed, (applied.error.map YopsError.message).getD
      (js "Schema YOps apply failed"),
      applied.error.map YopsError.opIndex⟩)
  match normalizeYSchemaObject regExpError applied.doc with
  | .ok schema =>
    return {
      schema
      schemaHash := sha256CompositionValue sha256 schema.toObject
      operations }
  | .error message => throw (.yops ⟨.invalidResult, message, none⟩)

end

/-! ## What reading a schema keeps -/

/-- The members of a schema that say what it is and how it is enforced. -/
def identityFields : List String := ["yschema", "name", "version", "description", "strict"]

/-- The schemas agree on what they are and how they are enforced. -/
def SameIdentity (schema schema' : YSchema) : Prop :=
  ∀ field ∈ identityFields,
    Record.get schema'.members (js field) = Record.get schema.members (js field)

/-- A text that may be there is read as it is. -/
theorem map_asOptionalString {value : Option JsValue} {context : JsString} {text : Option JsString}
    (h : asOptionalString value context = .ok text) : text.map JsValue.str = value := by
  unfold asOptionalString at h
  split at h
  · obtain rfl := Except.ok.inj h
    rfl
  · obtain rfl := Except.ok.inj h
    rfl
  · cases h

/-- A name is read as it is. -/
theorem str_asName {value : Option JsValue} {context name : JsString}
    (h : asName value context = .ok name) : value = some (.str name) := by
  unfold asName at h
  split at h
  · rw [← Except.ok.inj h]
  · cases h

/-- A version is read as it is. -/
theorem normalizeVersion_eq {value version : Option JsValue}
    (h : normalizeVersion value = .ok version) : version = value := by
  unfold normalizeVersion at h
  split at h
  · exact (Except.ok.inj h).symm
  · exact (Except.ok.inj h).symm
  · exact (Except.ok.inj h).symm
  · cases h

/-- A truth value that may be there is read as it is. -/
theorem map_asOptionalBoolean {value : Option JsValue} {context : JsString} {flag : Option Bool}
    (h : asOptionalBoolean value context = .ok flag) : flag.map JsValue.bool = value := by
  unfold asOptionalBoolean at h
  split at h
  · obtain rfl := Except.ok.inj h
    rfl
  · obtain rfl := Except.ok.inj h
    rfl
  · cases h

/-- How a schema is enforced stands under `strict`. -/
theorem get_members_strict (schema : YSchema) :
    Record.get schema.members (js "strict") = schema.strict.map .bool := by
  cases h : schema.strict <;> simp +decide [YSchema.members, Record.get_append, Record.get, h]

/-- The members that say what a schema is are read as they are, but for `strict`, which is
false where it is not there. -/
theorem Describes.get_identity {regExpError : JsString → Option JsString} {raw : Record JsValue}
    {schema : YSchema} (h : Describes regExpError raw schema) {field : String}
    (hfield : field ∈ identityFields) :
    Record.get schema.members (js field) =
      if field = "strict" then some ((Record.get raw (js field)).getD (.bool false))
      else Record.get raw (js field) := by
  obtain ⟨strict, hstrict, hstrictEq⟩ := h.strict
  have hflag := map_asOptionalBoolean hstrict
  have hversion := normalizeVersion_eq h.version
  have hdescription := map_asOptionalString h.description
  have hname := str_asName h.name
  have hmark := h.mark
  simp only [identityFields, List.mem_cons, List.not_mem_nil, or_false] at hfield
  rcases hfield with rfl | rfl | rfl | rfl | rfl
  · rw [if_neg (by decide), hmark]
    simp +decide [YSchema.members, Record.get]
  · rw [if_neg (by decide), hname]
    simp +decide [YSchema.members, Record.get]
  · rw [if_neg (by decide), ← hversion]
    simp +decide [YSchema.members, Record.get_append, Record.get]
  · rw [if_neg (by decide), ← hdescription]
    simp +decide [YSchema.members, Record.get_append, Record.get]
  · rw [if_pos rfl, ← hflag, get_members_strict, hstrictEq]
    cases strict <;> rfl

/-- Schemas that are read from mappings which agree on these members agree on them. -/
theorem sameIdentity_of_describes {regExpError : JsString → Option JsString}
    {raw raw' : Record JsValue} {schema schema' : YSchema} (h : Describes regExpError raw schema)
    (h' : Describes regExpError raw' schema')
    (hget : ∀ field ∈ identityFields, Record.get raw' (js field) =
      Record.get schema.members (js field)) : SameIdentity schema schema' := by
  intro field hfield
  rw [h'.get_identity hfield, hget field hfield, h.get_identity hfield]
  split_ifs
  · rfl
  · rfl

/-! ## Runs of editing operations -/

/-- The names of the members that editing leaves alone. -/
def identityNames : List JsString := identityFields.map js

/-- An operation that editing lets through. -/
structure Editing (rawOp : JsValue) : Prop where
  /-- The schema of operations takes it. -/
  shape : yOpSchema rawOp = true
  /-- Its paths begin with editable roots. -/
  paths : ∀ path ∈ operationPaths rawOp, isEditablePath path = true

/-- The operation renames or folds no member of the root onto one that editing leaves alone. -/
def SparesIdentity (rawOp doc : JsValue) : Prop :=
  ∀ op opName fields, rawOp = .obj op → resolveOpName op = some opName →
    Record.get op opName = some (.obj fields) → Spares identityNames opName fields doc

/-- A path that editing lets through begins with a key that is none of these names. -/
theorem rooted_of_isEditablePath {path : JsString} (h : isEditablePath path = true) :
    Rooted identityNames (parsePath path) := by
  unfold isEditablePath at h
  split at h
  · next root rest hpath =>
    obtain ⟨name, hname, hroot⟩ := List.any_eq_true.mp h
    obtain rfl := of_decide_eq_true hroot
    have hall : ∀ name ∈ editableRoots, js name ∉ identityNames := by decide
    exact ⟨js name, rest, hpath, hall name hname⟩
  · cases h

section

variable {op payload : Record JsValue} {spec : OpSpec} {source : Shape}

/-- Which of the operations a mapping is. -/
theorem hasMember_of_fits (h : Fits source op spec payload) {name : String}
    (hname : js name ≠ js "source") :
    (JsValue.obj op).hasMember name = decide (js name = js spec.name) := by
  rw [Bool.eq_iff_iff, decide_eq_true_iff]
  constructor
  · intro hhas
    rcases h.keys (js name) (Record.mem_keys.mpr hhas) with heq | heq
    · exact heq
    · exact absurd heq hname
  · intro heq
    rw [JsValue.hasMember, heq]
    exact Record.has_eq_true.mpr ⟨_, h.body⟩

/-- The paths that are tested are those that the specification names. -/
theorem operationPaths_of_fits (h : Fits source op spec payload) :
    operationPaths (.obj op) = spec.pathFields.toList.map (textField payload) := by
  have hfind : pathOperations.find? (JsValue.obj op).hasMember =
      pathOperations.find? fun name => decide (js name = js spec.name) := by
    have hne : ∀ name ∈ pathOperations, js name ≠ js "source" := by decide
    refine List.find?_congr fun name hname => ?_
    exact hasMember_of_fits h (hne name hname)
  have hpath : ∀ field, (((JsValue.obj op).member spec.name).member field).text =
      textField payload field := by
    intro field
    simp only [JsValue.member, h.body, Option.getD_some, textField]
  have hknown := h.known
  unfold operationPaths
  rw [hfind, hasMember_of_fits h (by decide), hasMember_of_fits h (by decide)]
  simp only [operations, List.mem_cons, List.not_mem_nil, or_false] at hknown
  rcases hknown with rfl | rfl | rfl | rfl | rfl | rfl | rfl | rfl | rfl | rfl | rfl | rfl | rfl |
    rfl | rfl | rfl | rfl | rfl
  all_goals
    simp only [pathOp, transferOp] at hpath
    simp +decide [pathOperations, pathOp, transferOp, PathFields.toList, hpath]

/-- An operation that editing lets through stays off the other members of the root. -/
theorem staysOff_of_editing (h : Fits source op spec payload) (hedit : Editing (.obj op))
    (hstrict : ∀ path ∈ pathTexts spec payload, (tryParsePath path).isOk) :
    StaysOff identityNames spec payload := by
  intro field hfield
  have hpath : textField payload field ∈ operationPaths (.obj op) := by
    rw [operationPaths_of_fits h]
    exact List.mem_map_of_mem hfield
  have hrooted := rooted_of_isEditablePath (hedit.paths _ hpath)
  refine ⟨hrooted, hstrict _ (List.mem_filterMap.mpr ⟨field, hfield, ?_⟩)⟩
  have hne : textField payload field ≠ [] := by
    intro heq
    rw [heq] at hrooted
    obtain ⟨root, rest, hparse, -⟩ := hrooted
    cases hparse
  unfold textField at hne ⊢
  cases hget : Record.get payload (js field) with
  | none => simp [hget, JsValue.text] at hne
  | some value =>
    cases value with
    | str path =>
      simp only [hget, Option.getD_some, JsValue.text] at hne ⊢
      rw [if_neg hne]
    | _ => simp [hget, JsValue.text] at hne

end

section

variable {issueMessage : JsValue → JsString} {rawOp doc next : JsValue} {ops : List JsValue}

/-- None of the names begins with a quote. -/
theorem head?_identityNames : ∀ name ∈ identityNames, name.head? ≠ some (unit '"') := by decide

/-- One editing operation that spares the other members of the root keeps them. -/
theorem keeps_of_editing (hedit : Editing rawOp) (hspares : SparesIdentity rawOp doc)
    (h : applyStep issueMessage rawOp doc = some next) : Keeps identityNames doc next := by
  obtain ⟨op, spec, payload, rfl, hfits⟩ := unionSchema_iff.mp hedit.shape
  obtain ⟨hstrict, handler, hhandler, hnext⟩ := hfits.handler_of_applyStep h
  exact keeps_handler head?_identityNames hfits.known hhandler
    (staysOff_of_editing hfits hedit hstrict) (hspares op _ payload rfl hfits.name hfits.body)
    next hnext

/-- A run of editing operations that all spare the other members of the root keeps them. -/
theorem keeps_of_run (hedit : ∀ rawOp ∈ ops, Editing rawOp)
    (hspares : ∀ before rawOp after reached, ops = before ++ rawOp :: after →
      run (applyStep issueMessage) doc before = some reached → SparesIdentity rawOp reached)
    (h : run (applyStep issueMessage) doc ops = some next) : Keeps identityNames doc next := by
  induction ops generalizing doc with
  | nil =>
    obtain rfl := Option.some.inj h
    exact Keeps.refl
  | cons rawOp ops ih =>
    rw [run_cons] at h
    obtain ⟨reached, hreached, hrest⟩ := Option.bind_eq_some_iff.mp h
    have hfirst := keeps_of_editing (hedit rawOp List.mem_cons_self)
      (hspares [] rawOp ops doc rfl rfl) hreached
    refine hfirst.trans (ih (fun op hop => hedit op (List.mem_cons_of_mem _ hop)) ?_ hrest)
    intro before op after last heq hrun
    refine hspares (rawOp :: before) op after last (by rw [heq]; rfl) ?_
    rw [run_cons, hreached]
    exact hrun

end

/-! ## The boundary -/

section

variable {issueMessage : JsValue → JsString} {regExpError : JsString → Option JsString}
  {sha256 : JsString → JsString} {baseInput : JsValue} {base : YSchema} {ops : List JsValue}
  {applied : AppliedWorkspaceSchemaYOps}

/-- An operation that is validated is let through, and given back as it is. -/
theorem validateOperation_spec {rawOp operation : JsValue} {index : ℕ}
    (h : validateOperation issueMessage rawOp index = .ok operation) :
    operation = rawOp ∧ Editing rawOp := by
  unfold validateOperation at h
  split_ifs at h with hshape hsource
  split at h
  · cases h
  · next hfind =>
    rw [deepClone_eq] at h
    refine ⟨(Except.ok.inj h).symm, Bool.eq_true_of_not_eq_false hshape, fun path hpath => ?_⟩
    simpa using List.find?_eq_none.mp hfind path hpath

/-- Operations that are validated are let through, and given back as they are. -/
theorem validateOperations_spec {operations : List JsValue}
    (h : validateOperations issueMessage ops = .ok operations) :
    operations = ops ∧ ∀ rawOp ∈ ops, Editing rawOp := by
  unfold validateOperations at h
  generalize 0 = start at h
  induction ops generalizing start operations with
  | nil => exact ⟨(Except.ok.inj h).symm, fun _ hmem => absurd hmem List.not_mem_nil⟩
  | cons rawOp ops ih =>
    rw [List.zipIdx_cons, List.mapM_cons] at h
    obtain ⟨operation, hfirst, h⟩ := bind_eq_ok_iff.mp h
    obtain ⟨operations', hrest, h⟩ := bind_eq_ok_iff.mp h
    obtain rfl := Except.ok.inj h
    obtain ⟨rfl, hedit⟩ := validateOperation_spec hfirst
    obtain ⟨rfl, hedits⟩ := ih _ hrest
    exact ⟨rfl, List.forall_mem_cons.mpr ⟨hedit, hedits⟩⟩

/-- What is returned is read from the document that the operations lead to. -/
theorem run_of_applyWorkspaceSchemaYOps
    (hbase : normalizeYSchemaObject regExpError baseInput = .ok base)
    (h : applyWorkspaceSchemaYOps issueMessage regExpError sha256 baseInput ops = .ok applied) :
    (∀ rawOp ∈ ops, Editing rawOp) ∧ ∃ doc,
      run (applyStep issueMessage) base.toObject ops = some doc ∧
        normalizeYSchemaObject regExpError doc = .ok applied.schema := by
  unfold applyWorkspaceSchemaYOps at h
  obtain ⟨base', hbase', happly⟩ := bind_eq_ok_iff.mp h
  rw [deepClone_eq, hbase] at hbase'
  obtain rfl := Except.ok.inj hbase'
  obtain ⟨operations, hoperations, hrest⟩ := bind_eq_ok_iff.mp happly
  have hvalid : validateOperations issueMessage ops = .ok operations := by
    cases hv : validateOperations issueMessage ops with
    | error e =>
      rw [hv] at hoperations
      cases hoperations
    | ok operations' =>
      rw [hv] at hoperations
      exact congrArg _ (Except.ok.inj hoperations)
  obtain ⟨hops, hedit⟩ := validateOperations_spec hvalid
  rw [hops] at hrest
  obtain ⟨hok, hread⟩ := refuse_eq_ok_iff.mp hrest
  refine ⟨hedit, _, run_of_applyYOps (Bool.eq_true_of_not_eq_false hok), ?_⟩
  split at hread
  · next schema hschema =>
    obtain rfl := Except.ok.inj hread
    exact hschema
  · cases hread

/-- The schema that an accepted list of operations gives agrees with the base on what it is
and how it is enforced, if no operation of the list renames or folds a member of the root
onto a member that editing leaves alone. -/
theorem sameIdentity_of_applyWorkspaceSchemaYOps
    (hbase : normalizeYSchemaObject regExpError baseInput = .ok base)
    (h : applyWorkspaceSchemaYOps issueMessage regExpError sha256 baseInput ops = .ok applied)
    (hspares : ∀ before rawOp after doc, ops = before ++ rawOp :: after →
      run (applyStep issueMessage) base.toObject before = some doc → SparesIdentity rawOp doc) :
    SameIdentity base applied.schema := by
  obtain ⟨hedit, doc, hrun, hschema⟩ := run_of_applyWorkspaceSchemaYOps hbase h
  obtain ⟨raw, rfl, hdescribes⟩ := normalizeYSchemaObject_eq_ok_iff.mp hbase
  obtain ⟨raw', rfl, hdescribes'⟩ := normalizeYSchemaObject_eq_ok_iff.mp hschema
  obtain ⟨root', hroot', hget⟩ := keeps_of_run hedit hspares hrun base.members rfl
  obtain rfl := JsValue.obj.inj hroot'
  refine sameIdentity_of_describes hdescribes hdescribes' fun field hfield => ?_
  exact hget (js field) (List.mem_map_of_mem hfield)

end

/-- Setting a member of the root renames and folds none. -/
theorem sameIdentity_of_set_rules :
    let base : YSchema := { name := js "brief", strict := some true, nodes := [], rules := some [] }
    let rawOp := JsValue.obj [(js "set", .obj [(js "path", .str (js "rules")),
      (js "value", .arr [.obj [(js "id", .str (js "first"))]])])]
    ∃ applied, applyWorkspaceSchemaYOps (fun _ => []) (fun _ => none) id base.toObject [rawOp] =
      .ok applied ∧ SameIdentity base applied.schema := by
  intro base rawOp
  have hbase : normalizeYSchemaObject (fun _ => none) base.toObject = .ok base := rfl
  have hok : (applyWorkspaceSchemaYOps (fun _ => []) (fun _ => none) id base.toObject
      [rawOp]).isOk = true := by decide
  cases happly : applyWorkspaceSchemaYOps (fun _ => []) (fun _ => none) id base.toObject
      [rawOp] with
  | error e =>
    rw [happly] at hok
    cases hok
  | ok applied =>
    refine ⟨applied, rfl, sameIdentity_of_applyWorkspaceSchemaYOps hbase happly ?_⟩
    intro before op after doc heq _ members opName fields hop hname _
    have hset : op = rawOp := by
      rcases before with - | ⟨first, before⟩
      · exact (List.cons.inj heq).1.symm
      · simp at heq
    rw [hset] at hop
    obtain rfl := JsValue.obj.inj hop
    obtain rfl : js "set" = opName := Option.some.inj hname
    exact ⟨fun h => absurd h (by decide), fun h => absurd h (by decide)⟩

/-- Folding a member of the root changes how the schema is enforced. -/
theorem applyWorkspaceSchemaYOps_changes_policy :
    let input := JsValue.obj [(js "yschema", .str (js "0.1")), (js "name", .str (js "brief")),
      (js "strict", .bool true), (js "nodes", .obj [])]
    let setTypes := JsValue.obj [(js "set", .obj [(js "path", .str (js "relationTypes")),
      (js "value", .obj [(js "strict", .bool false)])])]
    let foldTypes := JsValue.obj [(js "fold", .obj [(js "path", .str (js "relationTypes"))])]
    ∃ base applied, normalizeYSchemaObject (fun _ => none) input = .ok base ∧
      applyWorkspaceSchemaYOps (fun _ => []) (fun _ => none) id input [setTypes, foldTypes] =
        .ok applied ∧ ¬ SameIdentity base applied.schema := by
  intro input setTypes foldTypes
  have hstrict : ((normalizeYSchemaObject (fun _ => none) input).map YSchema.strict).toOption =
      some (some true) := by decide
  have hstrict' : ((applyWorkspaceSchemaYOps (fun _ => []) (fun _ => none) id input
      [setTypes, foldTypes]).map fun applied => applied.schema.strict).toOption =
      some (some false) := by decide
  cases hbase : normalizeYSchemaObject (fun _ => none) input with
  | error message =>
    rw [hbase] at hstrict
    cases hstrict
  | ok base =>
    cases happly : applyWorkspaceSchemaYOps (fun _ => []) (fun _ => none) id input
        [setTypes, foldTypes] with
    | error e =>
      rw [happly] at hstrict'
      cases hstrict'
    | ok applied =>
      rw [hbase] at hstrict
      rw [happly] at hstrict'
      refine ⟨base, applied, rfl, rfl, fun hsame => ?_⟩
      have hbefore : base.strict = some true := Option.some.inj hstrict
      have hafter : applied.schema.strict = some false := Option.some.inj hstrict'
      have hget := hsame "strict" (by decide)
      rw [get_members_strict, get_members_strict, hbefore, hafter] at hget
      simp at hget

end T3x.Yschema
