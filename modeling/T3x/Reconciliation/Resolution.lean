import T3x.Reconciliation.Pointers

/-!
# Preparing and resolving a reconciliation

A preparation lists the conflicts of a reconciliation with the values that the
three documents have at their pointers. A resolution chooses a value for every
conflict, and the choices are written into the merged document one after
another.
-/

namespace T3x.Reconciliation

open Js ThreeWay T3x.Transition

/-! ## Preparation -/

/-- The schema snapshots that a preparation carries along: how they are compared,
written as a document and parsed again. -/
structure SchemaSnapshots where
  /-- A snapshot of a schema definition. -/
  Snapshot : Type
  /-- `schemaIdentity(snapshot)`. -/
  schemaIdentity : Snapshot → JsValue
  /-- `snapshot.status === 'bound'`. -/
  bound : Snapshot → Bool
  /-- The snapshot as a document. -/
  toDocument : Snapshot → JsValue
  /-- `WorkspaceSchemaDefinitionSnapshotSchema.parse(value)`. -/
  parse : JsValue → Except JsString Snapshot
  /-- A snapshot written as a document parses back. -/
  parse_toDocument : ∀ snapshot, parse (toDocument snapshot) = .ok snapshot

/-- Whether a conflict is about the content or about the schema. -/
inductive Scope where
  | content
  | schema
  deriving DecidableEq

/-- The text of a scope. -/
def Scope.text : Scope → JsString
  | .content => js "content"
  | .schema => js "schema"

/-- The kinds of conflicts. -/
inductive ConflictKind where
  | value
  | type
  | collection
  | deleteModify
  | schema
  deriving DecidableEq

/-- The text of a kind. -/
def ConflictKind.text : ConflictKind → JsString
  | .value => js "value"
  | .type => js "type"
  | .collection => js "collection"
  | .deleteModify => js "delete_modify"
  | .schema => js "schema"

/-- `WorkspaceReconciliationConflict`. -/
structure Conflict where
  /-- The digest of the other fields. -/
  id : JsString
  /-- The pointer of the conflict. -/
  path : JsString
  /-- What the conflict is about. -/
  scope : Scope
  /-- Its kind. -/
  kind : ConflictKind
  /-- The value in the base. -/
  base : ReconciliationValue
  /-- The value in our document. -/
  ours : ReconciliationValue
  /-- The value in their document. -/
  theirs : ReconciliationValue

/-- A compared value as JSON: an absent value is left out. -/
def ReconciliationValue.toJson (v : ReconciliationValue) : JsValue :=
  .obj ([(js "source", .str v.source.text), (js "present", .bool v.present)] ++
    match v.value with
    | some value => [(js "value", value)]
    | none => [])

/-- The fields of a conflict that its id digests. -/
def conflictFacts (path : JsString) (scope : Scope) (kind : ConflictKind)
    (base ours theirs : ReconciliationValue) : JsValue :=
  .obj [(js "path", .str path), (js "scope", .str scope.text), (js "base", base.toJson),
    (js "ours", ours.toJson), (js "theirs", theirs.toJson), (js "kind", .str kind.text)]

/-- The text that is digested for a value. -/
def digestText (value : JsValue) : Except ProtocolError JsString :=
  canonicalizeProtocolValue value.jsonClone

/-- `digest(value)`. -/
def digest (sha256 : JsString → JsString) (value : JsValue) : Except ProtocolError JsString :=
  match digestText value with
  | .error e => .error e
  | .ok text => .ok (js "sha256:" ++ sha256 text)

/-- A conflict with the id that its fields give. -/
def conflictOf (sha256 : JsString → JsString) (path : JsString) (scope : Scope)
    (kind : ConflictKind) (base ours theirs : ReconciliationValue) :
    Except ProtocolError Conflict :=
  match digest sha256 (conflictFacts path scope kind base ours theirs) with
  | .error e => .error e
  | .ok id => .ok ⟨id, path, scope, kind, base, ours, theirs⟩

/-- `typeof value`, with `null` a type of its own. -/
def typeName : JsValue → JsString
  | .null => js "null"
  | .bool _ => js "boolean"
  | .num _ => js "number"
  | .str _ => js "string"
  | .arr _ => js "object"
  | .obj _ => js "object"

/-- Whether a value is an array. -/
def isArray : Option JsValue → Bool
  | some (.arr _) => true
  | _ => false

/-- `conflictKind(base, ours, theirs)`. -/
def conflictKind (base ours theirs : ReconciliationValue) : ConflictKind :=
  if !base.present || !ours.present || !theirs.present then .deleteModify
  else if isArray base.value || isArray ours.value || isArray theirs.value then .collection
  else if 1 < [base.value.map typeName, ours.value.map typeName, theirs.value.map typeName].dedup.length
  then .type
  else .value

/-- The input of a preparation. -/
structure PreparationInput (schemas : SchemaSnapshots) where
  /-- The revision of the workspace. -/
  workspaceRevision : JsNumber
  /-- The name of the branch. -/
  refName : JsString
  /-- The head that the draft is based on. -/
  baseHead : Option JsString
  /-- The current head of the branch. -/
  currentRefHead : Option JsString
  /-- The base document. -/
  base : JsValue
  /-- The draft's document. -/
  ours : JsValue
  /-- The branch's document. -/
  theirs : JsValue
  /-- The base schema. -/
  schemaBase : schemas.Snapshot
  /-- The draft's schema. -/
  schemaOurs : schemas.Snapshot
  /-- The branch's schema. -/
  schemaTheirs : schemas.Snapshot

/-- `WorkspaceReconciliationPreparation`, without the fields of its input. -/
structure Preparation (schemas : SchemaSnapshots) where
  /-- The input. -/
  input : PreparationInput schemas
  /-- The merged document. -/
  merged : Option JsValue
  /-- The merged schema. -/
  schemaMerged : schemas.Snapshot
  /-- The conflicts. -/
  conflicts : List Conflict
  /-- The digest of the other fields. -/
  preparationDigest : JsString

section Prepare

variable {schemas : SchemaSnapshots} (sha256 : JsString → JsString)

/-- `sameSchema(left, right)`. -/
def sameSchema (left right : schemas.Snapshot) : Bool :=
  JsValue.sameDoc id (schemas.schemaIdentity left) (schemas.schemaIdentity right)

/-- A schema snapshot as a compared value. -/
def schemaValue (source : Source) (snapshot : schemas.Snapshot) : ReconciliationValue :=
  ⟨source, schemas.bound snapshot, some (schemas.toDocument snapshot)⟩

/-- `reconcileWorkspaceSchemas({ base, ours, theirs })`. -/
def reconcileWorkspaceSchemas (base ours theirs : schemas.Snapshot) :
    Except ProtocolError (schemas.Snapshot × Option Conflict) :=
  match settle sameSchema base ours theirs with
  | some merged => .ok (merged, none)
  | none =>
    match conflictOf sha256 (js "/schema") .schema .schema (schemaValue .base base)
      (schemaValue .workspaceDraft ours) (schemaValue .branch theirs) with
    | .error e => .error e
    | .ok conflict => .ok (ours, some conflict)

/-- The conflicts at the reported paths. -/
def contentConflicts (base ours theirs : JsValue) :
    List JsString → Except ProtocolError (List Conflict)
  | [] => .ok []
  | path :: paths =>
    let baseValue := pointerValue base path .base
    let oursValue := pointerValue ours path .workspaceDraft
    let theirsValue := pointerValue theirs path .branch
    match conflictOf sha256 path .content (conflictKind baseValue oursValue theirsValue)
      baseValue oursValue theirsValue with
    | .error e => .error e
    | .ok conflict =>
      match contentConflicts base ours theirs paths with
      | .error e => .error e
      | .ok conflicts => .ok (conflict :: conflicts)

/-- A conflict as JSON. -/
def Conflict.toJson (c : Conflict) : JsValue :=
  .obj [(js "id", .str c.id), (js "kind", .str c.kind.text), (js "path", .str c.path),
    (js "scope", .str c.scope.text), (js "base", c.base.toJson), (js "ours", c.ours.toJson),
    (js "theirs", c.theirs.toJson)]

/-- A text or `null` as JSON. -/
def nullableText : Option JsString → JsValue
  | some s => .str s
  | none => .null

/-- The fields that the digest of a preparation covers. -/
def preparationPayload (input : PreparationInput schemas) (merged : Option JsValue)
    (schemaMerged : schemas.Snapshot) (conflicts : List Conflict) : JsValue :=
  .obj ([(js "schema", .str (js "t3x.application/workspace-reconciliation-preparation/v1")),
      (js "workspaceRevision", .num input.workspaceRevision), (js "refName", .str input.refName),
      (js "baseHead", nullableText input.baseHead),
      (js "currentRefHead", nullableText input.currentRefHead), (js "base", input.base),
      (js "ours", input.ours), (js "theirs", input.theirs)] ++
    (match merged with
      | some merged => [(js "merged", merged)]
      | none => []) ++
    [(js "schemaBase", schemas.toDocument input.schemaBase),
      (js "schemaOurs", schemas.toDocument input.schemaOurs),
      (js "schemaTheirs", schemas.toDocument input.schemaTheirs),
      (js "schemaMerged", schemas.toDocument schemaMerged),
      (js "conflicts", .arr (conflicts.map Conflict.toJson))])

/-- `preparationFromDocuments(input)`. -/
def preparationFromDocuments (input : PreparationInput schemas) :
    Except ProtocolError (Preparation schemas) :=
  let result := reconcileDocuments input.base input.ours input.theirs
  match contentConflicts sha256 input.base input.ours input.theirs result.conflicts with
  | .error e => .error e
  | .ok contents =>
    match reconcileWorkspaceSchemas sha256 input.schemaBase input.schemaOurs
      input.schemaTheirs with
    | .error e => .error e
    | .ok (schemaMerged, schemaConflict) =>
      let conflicts := contents ++ schemaConflict.toList
      match digest sha256 (preparationPayload input result.current schemaMerged conflicts) with
      | .error e => .error e
      | .ok preparationDigest =>
        .ok ⟨input, result.current, schemaMerged, conflicts, preparationDigest⟩

end Prepare

/-! ## Resolution -/

/-- What a resolution chooses. -/
inductive Choice where
  | base
  | ours
  | theirs
  | custom (value : JsValue)

/-- `WorkspaceReconciliationResolution`. -/
structure Resolution where
  /-- The id of the conflict. -/
  conflictId : JsString
  /-- The choice. -/
  choice : Choice

/-- The errors of a resolution. -/
inductive ResolutionError where
  /-- A `DraftAuthoringConflictError`. -/
  | conflict (message : JsString)
  /-- A `TypeError`. -/
  | type (message : JsString)
  /-- A value that is no schema snapshot. -/
  | schema (message : JsString)

/-- The value that a choice selects for a conflict. -/
def Conflict.selected (c : Conflict) : Choice → ReconciliationValue
  | .base => c.base
  | .ours => c.ours
  | .theirs => c.theirs
  | .custom value => ⟨.resolution, true, some value⟩

/-- The resolutions by the ids of their conflicts. -/
def resolutionsById :
    List Resolution → Record Resolution → Except ResolutionError (Record Resolution)
  | [], byId => .ok byId
  | resolution :: rest, byId =>
    if Record.has byId resolution.conflictId then
      .error (.conflict (js "Conflict " ++ resolution.conflictId ++
        js " has more than one resolution"))
    else resolutionsById rest (Record.mapSet byId resolution.conflictId resolution)

section Resolve

variable {schemas : SchemaSnapshots} (localeCompare : JsString → JsString → Int)

/-- Write the resolution of one conflict. -/
def resolveConflict (byId : Record Resolution) (c : Conflict) (document : Option JsValue)
    (schema : schemas.Snapshot) :
    Except ResolutionError (Option JsValue × schemas.Snapshot) :=
  match Record.get byId c.id with
  | none => .error (.type (js "resolution is undefined"))
  | some resolution =>
    let selected := c.selected resolution.choice
    match c.scope with
    | .schema =>
      match selected.value with
      | none => .error (.schema (js "Required"))
      | some value =>
        match schemas.parse value with
        | .error e => .error (.schema e)
        | .ok schema => .ok (document, schema)
    | .content =>
      match replacePointer localeCompare document c.path selected with
      | .error e => .error (.type e)
      | .ok document => .ok (some document, schema)

/-- Write the resolutions of the conflicts, in their order. -/
def resolveConflicts (byId : Record Resolution) :
    List Conflict → Option JsValue → schemas.Snapshot →
      Except ResolutionError (Option JsValue × schemas.Snapshot)
  | [], document, schema => .ok (document, schema)
  | c :: rest, document, schema =>
    match resolveConflict localeCompare byId c document schema with
    | .error e => .error e
    | .ok (document, schema) => resolveConflicts byId rest document schema

/-- `resolvePreparation(preparation, resolutions)`. -/
def resolvePreparation (preparation : Preparation schemas) (resolutions : List Resolution) :
    Except ResolutionError (Option JsValue × schemas.Snapshot) :=
  match resolutionsById resolutions [] with
  | .error e => .error e
  | .ok byId =>
    let expected := preparation.conflicts.map Conflict.id
    let unknown := (Record.keys byId).filter fun id => !expected.contains id
    if unknown ≠ [] then
      .error (.conflict (js "Unknown reconciliation conflicts: " ++
        (js ", ").intercalate unknown))
    else
      let missing := preparation.conflicts.filter fun c => !Record.has byId c.id
      if missing ≠ [] then
        .error (.conflict (js "Every conflict requires a resolution: " ++
          (js ", ").intercalate (missing.map Conflict.path)))
      else
        resolveConflicts localeCompare byId preparation.conflicts preparation.merged
          preparation.schemaMerged

end Resolve

end T3x.Reconciliation
