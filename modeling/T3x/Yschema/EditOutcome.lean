import T3x.Yschema.EditBase

/-!
# What becomes of a command

A command clones what a record inherits, or it is refused, or it gives operations. These are
an assertion of what stands at a path and a write or a removal there, so they apply if what
is asserted stands there, and what is read of the document they give decides whether the edit
is the one that was asked for.
-/

namespace T3x.Yschema

open Js T3x.Run T3x.Yops

variable {issueMessage : JsValue → JsString} {regExpError : JsString → Option JsString}
  {sha256 : JsString → JsString} {baseInput : JsValue} {base : YSchema}
  {command : WorkspaceSchemaEditCommand}

/-! ## Operations that are let through -/

/-- An operation that is applied is taken by the schema of operations. -/
theorem shape_of_applyStep {rawOp doc next : JsValue}
    (h : applyStep issueMessage rawOp doc = some next) : yOpSchema rawOp = true := by
  rw [applyStep, applyOp_eq_checkUpFront] at h
  cases hcheck : checkUpFront issueMessage rawOp 0 with
  | error e =>
    rw [hcheck] at h
    cases h
  | ok call => exact ((checkUpFront_ok_iff issueMessage 0).mp ⟨call, hcheck⟩).1

/-- The operations of a run are taken by the schema of operations. -/
theorem shape_of_run {ops : List JsValue} {doc next : JsValue}
    (h : run (applyStep issueMessage) doc ops = some next) : ∀ op ∈ ops, yOpSchema op = true := by
  induction ops generalizing doc with
  | nil => exact fun _ hop => absurd hop List.not_mem_nil
  | cons op ops ih =>
    obtain ⟨reached, hreached, hrest⟩ := Option.bind_eq_some_iff.mp h
    exact List.forall_mem_cons.mpr ⟨shape_of_applyStep hreached, ih hrest⟩

/-- The operations that a command compiles to. -/
inductive EditOp (path : JsString) : JsValue → Prop
  | assertAbsent : EditOp path (assertAbsent path)
  | assertEquals (value : JsValue) : EditOp path (assertEquals path value)
  | setValue (value : JsValue) : EditOp path (setValue path value)
  | unsetKey : EditOp path (unsetKey path)

/-- Such an operation is let through where its path begins with an editable root. -/
theorem validateOperation_of_editOp {path : JsString} {op : JsValue} (h : EditOp path op)
    (hshape : yOpSchema op = true) (hpath : isEditablePath path = true) (index : ℕ) :
    validateOperation issueMessage op index = .ok op := by
  have hsource : op.hasMember "source" = false := by cases h <;> rfl
  have hpaths : operationPaths op = [path] := by cases h <;> rfl
  unfold validateOperation
  rw [hpaths, hshape, hsource]
  simp [hpath]

/-- The operations apply, and a schema that is read of the document they give is the edit that
the command asks for. -/
def AppliesExactly (issueMessage : JsValue → JsString) (regExpError : JsString → Option JsString)
    (sha256 : JsString → JsString) (baseInput : JsValue) (base : YSchema)
    (command : WorkspaceSchemaEditCommand) (ops : List JsValue) : Prop :=
  match applyWorkspaceSchemaYOps issueMessage regExpError sha256 baseInput ops with
  | .ok applied => IsEdit regExpError base command applied.schema
  | .error (.yops e) => e.code = .invalidResult
  | .error (.thrown _) => False

/-- The command is refused as an invalid one, or it is compiled, and the operations apply
exactly. -/
def CompilesExactly (issueMessage : JsValue → JsString) (regExpError : JsString → Option JsString)
    (sha256 : JsString → JsString) (baseInput : JsValue) (base : YSchema)
    (command : WorkspaceSchemaEditCommand) : Prop :=
  match compileWorkspaceSchemaEditCommand regExpError baseInput command with
  | .ok ops => AppliesExactly issueMessage regExpError sha256 baseInput base command ops
  | .error (.yops e) => e.code = .invalidCommand
  | .error (.thrown _) => False

/-- Operations at a path of an editable root that run on the base apply, and what is read of the
document they give is what counts. -/
theorem appliesExactly_of_run {ops : List JsValue} {path : JsString} {doc : JsValue}
    (hbase : normalizeYSchemaObject regExpError baseInput = .ok base)
    (hops : ∀ op ∈ ops, EditOp path op) (hpath : isEditablePath path = true)
    (hrun : run (applyStep issueMessage) base.value ops = some doc)
    (hread : ∀ schema, normalizeYSchemaObject regExpError doc = .ok schema →
      IsEdit regExpError base command schema) :
    AppliesExactly issueMessage regExpError sha256 baseInput base command ops := by
  have hvalid : validateOperations issueMessage ops = .ok ops := by
    have hshapes := shape_of_run hrun
    unfold validateOperations
    rw [mapM_eq_ok_iff]
    generalize 0 = start
    clear hrun
    induction ops generalizing start with
    | nil => exact List.Forall₂.nil
    | cons op ops ih =>
      obtain ⟨hop, hops⟩ := List.forall_mem_cons.mp hops
      obtain ⟨hshape, hshapes⟩ := List.forall_mem_cons.mp hshapes
      rw [List.zipIdx_cons]
      exact List.Forall₂.cons (validateOperation_of_editOp hop hshape hpath start)
        (ih hops hshapes _)
  obtain ⟨more, hmore⟩ := applyYOps_of_run hrun
  unfold AppliesExactly applyWorkspaceSchemaYOps
  rw [deepClone_eq, hbase, hvalid]
  simp only [Except.mapError, bind, Except.bind, YSchema.toObject_eq, hmore]
  cases hschema : normalizeYSchemaObject regExpError doc with
  | ok schema => exact hread schema hschema
  | error message => rfl

/-! ## Outcomes -/

/-- What may become of a command: it clones what a record inherits, it is refused, or it gives
operations at a path of an editable root that run on the base and edit it as it asks for. -/
inductive Outcome (regExpError : JsString → Option JsString) (base : YSchema)
    (command : WorkspaceSchemaEditCommand) : Except AuthoringFailure (List JsValue) → Prop
  | inherited (h : ReadsInherited base command) :
    Outcome regExpError base command cloneInherited
  | refused (h : ¬ ReadsInherited base command) (message : JsString) :
    Outcome regExpError base command (commandError message)
  | edits (h : ¬ ReadsInherited base command) {path : JsString} {ops : List JsValue}
    {doc : JsValue} (hops : ∀ op ∈ ops, EditOp path op) (hpath : isEditablePath path = true)
    (hrun : ∀ issueMessage, run (applyStep issueMessage) base.value ops = some doc)
    (hread : ∀ schema, normalizeYSchemaObject regExpError doc = .ok schema →
      IsEdit regExpError base command schema) :
    Outcome regExpError base command (.ok ops)

/-- The segments of a path of an editable root. -/
def Editable (segments : List PathSegment) : Prop :=
  ∃ root ∈ editableRoots, ∃ rest, segments = .key (js root) :: rest

/-- A path of an editable root is let through. -/
theorem isEditablePath_of_editable {path : JsString} {segments : List PathSegment}
    (hparse : tryParsePath path = .ok segments) (h : Editable segments) :
    isEditablePath path = true := by
  obtain ⟨root, hroot, rest, rfl⟩ := h
  unfold isEditablePath
  rw [parsePath_of_tryParsePath hparse]
  exact List.any_eq_true.mpr ⟨root, hroot, decide_eq_true rfl⟩

/-- What becomes of an assertion and a write. -/
theorem outcome_assertThenSet {path : JsString} {segments : List PathSegment}
    {before : Option (Option JsValue)} {after next : JsValue}
    (hinherits : before = some none ↔ ReadsInherited base command) (hne : path ≠ [])
    (hparse : tryParsePath path = .ok segments) (heditable : Editable segments)
    (hbefore : resolvePathSegments base.value segments = before.join)
    (hset : setRecursive after segments base.value = .ok next)
    (hread : ∀ schema, normalizeYSchemaObject regExpError next = .ok schema →
      IsEdit regExpError base command schema) :
    Outcome regExpError base command (assertThenSet path before after) := by
  have hpath := isEditablePath_of_editable hparse heditable
  have hresolve : resolvePath base.value path = before.join := by
    rw [resolvePath, parsePath_of_tryParsePath hparse, hbefore]
  have hstep : ∀ issueMessage, applyStep issueMessage (setValue path after) base.value =
      some next := by
    intro issueMessage
    rw [applyStep_setValue hne hparse, setAtPath, parsePath_of_tryParsePath hparse,
      setAtPathSegments, deepClone_eq, deepClone_eq, hset]
    rfl
  rcases before with _ | _ | value
  · refine .edits (fun h => by cases hinherits.mpr h) ?_ hpath
      (fun issueMessage => ?_) hread
    · exact List.forall_mem_cons.mpr ⟨.assertAbsent, List.forall_mem_singleton.mpr (.setValue _)⟩
    · simp [run, applyStep_assertAbsent hne hparse hresolve, hstep]
  · exact .inherited (hinherits.mp rfl)
  · refine .edits (fun h => by cases hinherits.mpr h) ?_ hpath
      (fun issueMessage => ?_) hread
    · exact List.forall_mem_cons.mpr ⟨.assertEquals _, List.forall_mem_singleton.mpr (.setValue _)⟩
    · simp [run, applyStep_assertEquals hne hparse hresolve, hstep]

/-- What becomes of an assertion and a removal. -/
theorem outcome_assertThenUnset {path : JsString} {init : List PathSegment} {key : JsString}
    {before : Option JsValue} {next : JsValue}
    (hinherits : before = none ↔ ReadsInherited base command) (hne : path ≠ [])
    (hparse : tryParsePath path = .ok (init ++ [.key key])) (heditable : Editable (init ++ [.key key]))
    (hbefore : before.isSome → resolvePathSegments base.value (init ++ [.key key]) = before)
    (hdelete : before.isSome → deleteRecursive (init ++ [.key key]) base.value = some next)
    (hread : ∀ schema, normalizeYSchemaObject regExpError next = .ok schema →
      IsEdit regExpError base command schema) :
    Outcome regExpError base command (assertThenUnset path before) := by
  have hpath := isEditablePath_of_editable hparse heditable
  cases before with
  | none => exact .inherited (hinherits.mp rfl)
  | some value =>
    have hsegments := parsePath_of_tryParsePath hparse
    have hresolve : resolvePath base.value path = some value := by
      rw [resolvePath, hsegments, hbefore rfl]
    have hstep : ∀ issueMessage, applyStep issueMessage (unsetKey path) base.value =
        some next := by
      intro issueMessage
      have hdeleteAt : deleteAtPath base.value path = some next := by
        rw [deleteAtPath, hsegments, deleteAtPathSegments_eq_some_iff]
        exact ⟨by simp, by rw [hbefore rfl]; rfl, hdelete rfl⟩
      rw [applyStep_unsetKey hne hparse, unsetHandler_of_delete hsegments hdeleteAt]
      rfl
    refine .edits (fun h => by cases hinherits.mpr h) ?_ hpath
      (fun issueMessage => ?_) hread
    · exact List.forall_mem_cons.mpr ⟨.assertEquals _, List.forall_mem_singleton.mpr .unsetKey⟩
    · simp [run, applyStep_assertEquals hne hparse hresolve, hstep]

/-! ## Nodes -/

/-- What a member access gives, if it is an own member. -/
theorem join_memberValue {V : Type} (value : V → JsValue) (record : Record V) (key : JsString) :
    (memberValue value record key).join = (Record.get record key).map value := by
  unfold memberValue readMember
  cases Record.get record key with
  | some v => rfl
  | none => split_ifs <;> rfl

/-- What a member access gives, if it is an inherited member. -/
theorem memberValue_eq_inherited_iff {V : Type} (value : V → JsValue) (record : Record V)
    (key : JsString) :
    memberValue value record key = some none ↔ readMember record key = some none := by
  unfold memberValue
  rcases readMember record key with - | (- | v) <;> simp

/-- A child of a node is looked up in its declared children. -/
theorem findNode_concat {keys : List JsString} (hne : keys ≠ []) (last : JsString) :
    findNode base (keys ++ [last]) =
      match findNode base keys with
      | some (some (.mk _ (some (.declared nodes)))) => readMember nodes last
      | _ => none := by
  have hfrom : ∀ keys current, resolveNodeFrom current (keys ++ [last]) =
      match resolveNodeFrom current keys with
      | some (some (.mk _ (some (.declared nodes)))) => readMember nodes last
      | _ => none := by
    intro keys
    induction keys with
    | nil =>
      intro current
      match current with
      | none | some none | some (some (.mk _ none)) | some (some (.mk _ (some .any))) => rfl
      | some (some (.mk _ (some (.declared nodes)))) => rfl
    | cons key keys ih =>
      intro current
      match current with
      | none | some none | some (some (.mk _ none)) | some (some (.mk _ (some .any))) => rfl
      | some (some (.mk _ (some (.declared nodes)))) => exact ih _
  obtain ⟨key, keys, rfl⟩ := List.exists_cons_of_ne_nil hne
  exact hfrom keys _

/-- The nodes stand under their name. -/
theorem select_nodes (base : YSchema) :
    (PathSegment.key (js "nodes")).select base.value = some (nodesValue base.nodes) :=
  get_present base.nodup_fields "nodes" (some (nodesValue base.nodes))
    (by simp [YSchema.fields, nodesValue])

/-- At the path of a node that is found is the node. -/
theorem resolve_nodeSegments {keys : List JsString} {node : NodeSchema}
    (h : findNode base keys = some (some node)) :
    resolvePathSegments base.value (nodeSegments keys) = some node.value := by
  cases keys with
  | nil => cases h
  | cons key keys =>
    rw [nodeSegments, resolvePathSegments_cons, select_nodes]
    exact resolve_belowNodes h

/-- A node that is found is read. -/
theorem isRead_of_findNode (hbase : IsBase regExpError base) {keys : List JsString}
    {node : NodeSchema} (h : findNode base keys = some (some node)) : node.IsRead regExpError := by
  cases keys with
  | nil => cases h
  | cons key keys => exact isRead_of_resolveNodeFrom hbase.nodes h

/-- Where the node at a path is replaced, what the new part is read as is put there. -/
theorem read_replaced (hbase : IsBase regExpError base) {keys : List JsString}
    {node : NodeSchema} {new : JsValue} {schema : YSchema}
    (h : findNode base keys = some (some node))
    (hread : normalizeYSchemaObject regExpError (replaceAt new (nodeSegments keys) base.value) =
      .ok schema) :
    ∃ updated context, normalizeNode regExpError new context = .ok updated ∧
      schema = { base with nodes := putNodeAt updated keys base.nodes } := by
  cases keys with
  | nil => cases h
  | cons key keys =>
    obtain ⟨raw, hraw, hnodes⟩ := read_replaceAt new hbase.nodes h
    rw [nodeSegments, replaceAt_cons (select_nodes base), hraw] at hread
    obtain ⟨hmembers, hschema⟩ := read_nodes hbase hread
    obtain ⟨updated, context, hupdated, heq⟩ := hnodes _ _ _ hmembers
    exact ⟨updated, context, hupdated, heq ▸ hschema⟩

/-- A path of machine-safe keys, taken apart. -/
theorem keys_of_isPath {nodePath : JsString} (h : isPath nodePath = true) :
    split (unit '/') nodePath ≠ [] ∧ ∀ key ∈ split (unit '/') nodePath, isKey key = true :=
  ⟨split_ne_nil _ _, List.all_eq_true.mp h⟩

/-- The path of a node is one of an editable root. -/
theorem editable_nodeSegments (keys : List JsString) : Editable (nodeSegments keys) :=
  ⟨"nodes", by simp [editableRoots], _, rfl⟩

/-- What becomes of the replacement of a node. -/
theorem outcome_replaceNode (hbase : IsBase regExpError base) {keys : List JsString}
    {node : NodeSchema} {new : JsValue} (hkeys : ∀ key ∈ keys, isKey key = true)
    (h : findNode base keys = some (some node)) (hinherits : ¬ ReadsInherited base command)
    (hread : ∀ updated context, normalizeNode regExpError new context = .ok updated →
      IsEdit regExpError base command
        { base with nodes := putNodeAt updated keys base.nodes }) :
    Outcome regExpError base command
      (assertThenSet (nodeYOpsPath keys) (some (some node.toObject)) new) := by
  have hne : keys ≠ [] := by
    rintro rfl
    cases h
  have hresolve := resolve_nodeSegments h
  have hobject : isObject node.value = true := by rw [node.value_eq]; rfl
  refine outcome_assertThenSet (iff_of_false (by simp) hinherits) (nodeYOpsPath_ne_nil keys)
    (tryParsePath_nodeYOpsPath hne hkeys) (editable_nodeSegments keys) ?_
    (setRecursive_eq_replaceAt hresolve hobject) fun schema hschema => ?_
  · rw [hresolve, NodeSchema.toObject_eq]
    rfl
  · obtain ⟨updated, context, hupdated, rfl⟩ := read_replaced hbase h hschema
    exact hread updated context hupdated

/-- A path that is no path of nodes is refused. -/
theorem outcome_parseNodePath {nodePath : JsString}
    {compile : List JsString → Except AuthoringFailure (List JsValue)}
    (hinherits : ReadsInherited base command → isPath nodePath = true)
    (h : isPath nodePath = true →
      Outcome regExpError base command (compile (split (unit '/') nodePath))) :
    Outcome regExpError base command (parseNodePath nodePath >>= compile) := by
  unfold parseNodePath
  split_ifs with hpath
  · exact h hpath
  · exact .refused (fun hreads => hpath (hinherits hreads)) _

end T3x.Yschema
