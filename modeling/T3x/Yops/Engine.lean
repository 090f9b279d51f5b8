import T3x.Yops.Spec

/-!
# The engine

An operation passes the shape, registry, field, schema and path checks, then its
handler runs. The first operation that fails ends the run, and the result is the
document that the run began with.
-/

namespace T3x.Yops

open Js

/-- `YOpsWarning`. -/
structure YopsWarning where
  /-- The message. -/
  message : JsString
  /-- The index of the operation. -/
  opIndex : ℕ
  /-- The name of the operation. -/
  op : JsString
  /-- The deprecated field. -/
  field : String
  /-- The version that deprecated it. -/
  deprecatedIn : String
  /-- The field to use instead. -/
  replacementField : Option String
  deriving DecidableEq

/-- `YOpsResult`. -/
structure YopsResult where
  /-- Every operation was applied. -/
  ok : Bool
  /-- The document. -/
  doc : JsValue
  /-- How many operations were applied. -/
  applied : ℕ
  /-- The error of a failed run. -/
  error : Option YopsError
  /-- The warnings. -/
  warnings : List YopsWarning
  deriving DecidableEq

/-! ## Field validation -/

/-- `values.join(', ')`. -/
def joinWords (words : List String) : JsString := (js ", ").intercalate (words.map js)

/-- `validateFields`: required fields, unknown fields, then enumerated values. -/
def validateFields (opName : JsString) (fields : Record JsValue) (spec : OpSpec) (index : ℕ) :
    Except YopsError Unit :=
  match spec.fields.find? fun f => f.required && !Record.has fields (js f.name) with
  | some f =>
    .error ⟨"INVALID_OP", opName ++ js (": missing required field \"" ++ f.name ++ "\""), index⟩
  | none =>
    match (Record.keys fields).find? fun key => !spec.fields.any fun f => decide (js f.name = key) with
    | some key => .error ⟨"INVALID_OP", opName ++ about ": unknown field \"" key "\"", index⟩
    | none =>
      match spec.fields.find? fun f =>
          f.enum.any fun values => (Record.get fields (js f.name)).any fun value =>
            !Shape.word values value with
      | some f =>
        .error ⟨"INVALID_OP", opName ++ js (": field \"" ++ f.name ++ "\" must be one of [") ++
          joinWords (f.enum.getD []) ++ js "]", index⟩
      | none => .ok ()

/-- `deprecatedFieldWarnings`. -/
def deprecatedFieldWarnings (opName : JsString) (fields : Record JsValue) (spec : OpSpec)
    (index : ℕ) : List YopsWarning :=
  spec.fields.filterMap fun f =>
    match f.deprecatedIn with
    | some version =>
      if Record.has fields (js f.name) then
        some
          { message := opName ++ js ("." ++ f.name ++ " is deprecated since " ++ version ++
              (f.replacementField.elim "" fun field => "; use " ++ field ++ " instead") ++ ".")
            opIndex := index
            op := opName
            field := f.name
            deprecatedIn := version
            replacementField := f.replacementField }
      else none
    | none => none

/-! ## The checks before the handler -/

/-- `value === null ? 'null' : typeof value`. -/
def typeOf : JsValue → JsString
  | .null => js "null"
  | .bool _ => js "boolean"
  | .num _ => js "number"
  | .str _ => js "string"
  | .arr _ => js "object"
  | .obj _ => js "object"

/-- An operation that passed the first checks, with what they found. -/
structure OpCall where
  /-- The name of the operation. -/
  opName : JsString
  /-- Its fields. -/
  fields : Record JsValue
  /-- Its specification. -/
  spec : OpSpec
  /-- Its handler. -/
  handler : OpHandler

/-- What steps 1 and 2 report of an operation that is no mapping or has no key. -/
def outerMessage (rawOp : JsValue) (index : ℕ) : JsString :=
  js "Op at index " ++ natToString index ++
    match rawOp with
    | .obj _ => js " has no operation key"
    | _ => js " must be a mapping, got " ++ typeOf rawOp

/-- Steps 1 to 5: outer shape, operation key, registry, payload shape, fields. -/
def resolveCall (rawOp : JsValue) (index : ℕ) : Except YopsError OpCall :=
  match rawOp with
  | .obj op =>
    match resolveOpName op with
    | none => .error ⟨"INVALID_OP", outerMessage rawOp index, index⟩
    | some opName =>
      match getHandler opName, getOpSpec opName with
      | some handler, some spec =>
        match (Record.get op opName).getD .null with
        | .obj fields => do
          validateFields opName fields spec index
          return { opName, fields, spec, handler }
        | payload =>
          .error ⟨"INVALID_OP", opName ++ js ": payload must be a mapping, got " ++ typeOf payload,
            index⟩
      | _, _ => .error ⟨"UNKNOWN_OP", js "Unknown operation: " ++ opName, index⟩
  | _ => .error ⟨"INVALID_OP", outerMessage rawOp index, index⟩

section

-- the message of the first issue that the schema library finds in a value
variable (issueMessage : JsValue → JsString)

/-- Steps 6 and 7: the schema and the syntax of every path. -/
def checkCall (rawOp : JsValue) (index : ℕ) : Except YopsError Unit :=
  if yOpSchema rawOp then
    (getOpPaths rawOp).forM fun path =>
      match tryParsePath path with
      | .ok _ => .ok ()
      | .error e => .error ⟨"INVALID_PATH", e.message, index⟩
  else .error ⟨"INVALID_OP", issueMessage rawOp, index⟩

/-- Step 8: run the handler; what it throws is an error of the operation. -/
def runHandler (call : OpCall) (current : JsValue) (index : ℕ) : Except YopsError JsValue :=
  match call.handler current call.fields index with
  | .ok doc => .ok doc
  | .error (.error e) => .error e
  | .error (.thrown message) => .error ⟨"INVALID_OP", call.opName ++ js ": " ++ message, index⟩

/-- Steps 1 to 7: what the engine checks before it runs a handler. -/
def checkUpFront (rawOp : JsValue) (index : ℕ) : Except YopsError OpCall := do
  let call ← resolveCall rawOp index
  checkCall issueMessage rawOp index
  return call

/-- One operation: the next document or the error, and the warnings. -/
def applyOp (rawOp current : JsValue) (index : ℕ) :
    Except YopsError JsValue × List YopsWarning :=
  match resolveCall rawOp index with
  | .error e => (.error e, [])
  | .ok call =>
    (do
      checkCall issueMessage rawOp index
      runHandler call current index,
      deprecatedFieldWarnings call.opName call.fields call.spec index)

/-- An operation is applied by the checks and then the handler. -/
theorem applyOp_eq_checkUpFront (rawOp current : JsValue) (index : ℕ) :
    (applyOp issueMessage rawOp current index).1 =
      (checkUpFront issueMessage rawOp index >>= fun call => runHandler call current index) := by
  unfold applyOp checkUpFront
  cases resolveCall rawOp index with
  | error e => rfl
  | ok call =>
    cases checkCall issueMessage rawOp index with
    | error e => rfl
    | ok _ => rfl

/-- What the engine takes for a call of the named operation with the fields. -/
structure IsCall (op : Record JsValue) (name : String) (fields : Record JsValue) : Prop where
  /-- The name is the operation key. -/
  opName : resolveOpName op = some (js name)
  /-- The fields are its payload. -/
  payload : Record.get op (js name) = some (.obj fields)

/-- An operation that is applied gives what its handler gives. -/
theorem handler_of_applyOp {op : Record JsValue} {name : String} {fields : Record JsValue}
    {doc result : JsValue} {index : ℕ} (hcall : IsCall op name fields)
    (h : (applyOp issueMessage (.obj op) doc index).1 = .ok result) :
    ∃ handler, getHandler (js name) = some handler ∧ handler doc fields index = .ok result := by
  unfold applyOp resolveCall at h
  simp only [hcall.opName, hcall.payload, Option.getD_some] at h
  cases hhandler : getHandler (js name) with
  | none =>
    simp only [hhandler] at h
    cases h
  | some handler =>
    cases hspec : getOpSpec (js name) with
    | none =>
      simp only [hhandler, hspec] at h
      cases h
    | some spec =>
      simp only [hhandler, hspec] at h
      cases hfields : validateFields (js name) fields spec index with
      | error e =>
        rw [hfields] at h
        cases h
      | ok _ =>
        rw [hfields] at h
        obtain ⟨_, -, hrun⟩ := bind_eq_ok_iff.mp h
        refine ⟨handler, rfl, ?_⟩
        unfold runHandler at hrun
        cases hresult : handler doc fields index with
        | ok next =>
          simp only [hresult] at hrun
          exact congrArg Except.ok (Except.ok.inj hrun)
        | error failure =>
          simp only [hresult] at hrun
          cases failure <;> cases hrun

/-- The operations from an index on, with the current document and the warnings so far. -/
def applyFrom (original : JsValue) : ℕ → JsValue → List YopsWarning → List JsValue → YopsResult
  | index, current, warnings, [] =>
    { ok := true, doc := current, applied := index, error := none, warnings }
  | index, current, warnings, op :: ops =>
    match applyOp issueMessage op current index with
    | (.ok next, more) => applyFrom original (index + 1) next (warnings ++ more) ops
    | (.error e, more) =>
      { ok := false, doc := original, applied := index, error := some e,
        warnings := warnings ++ more }

/-- `applyYOps`. -/
def applyYOps (doc : JsValue) (ops : List JsValue) : YopsResult :=
  applyFrom issueMessage (deepClone doc) 0 (deepClone (deepClone doc)) [] ops

end

end T3x.Yops
