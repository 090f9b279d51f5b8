import T3x.Yops.Engine

/-!
# The preflight validator

The validator walks the specification and reports what it finds wrong with each
operation. Where the engine stops at its first check that fails, the validator
goes on and collects; what the schema says beyond the specification is mirrored
by tables of refinements.
-/

namespace T3x.Yops

open Js

/-! ## Diagnostics -/

/-- `YOpsDiagnostic`. -/
structure Diagnostic where
  /-- The severity. -/
  severity : String
  /-- The code. -/
  code : String
  /-- The message. -/
  message : JsString
  /-- The index of the operation. -/
  opIndex : Option ℕ
  /-- The field concerned. -/
  field : Option JsString := none
  /-- The offending path. -/
  path : Option JsString := none
  /-- A hint. -/
  suggestion : Option JsString := none
  deriving DecidableEq

/-- `describeRuntimeType`. -/
def describeRuntimeType : JsValue → JsString
  | .arr _ => js "sequence"
  | value => typeOf value

/-- `runtimeMatchesSpecType`. -/
def runtimeMatchesSpecType (value : JsValue) (specType : String) : Bool :=
  match specType, value with
  | "any", _ => true
  | "string", .str _ => true
  | "string", _ => false
  | "number", .num _ => true
  | "number", _ => false
  | "boolean", .bool _ => true
  | "boolean", _ => false
  | "mapping", .obj _ => true
  | "mapping", _ => false
  | "sequence", .arr _ => true
  | "sequence", _ => false
  | _, _ => true

/-! ## Paths -/

/-- A code unit in front of the first segment. -/
def prependUnit (u : UInt16) : List JsString → List JsString
  | [] => [[u]]
  | segment :: segments => (u :: segment) :: segments

/-- The segments of `splitRawSegments` from here on, inside or outside of quotes. -/
def splitRawFrom : Bool → JsString → List JsString
  | _, [] => [[]]
  | false, u :: rest =>
    if u = unit '"' then prependUnit u (splitRawFrom true rest)
    else if u = unit '/' then [] :: splitRawFrom false rest
    else prependUnit u (splitRawFrom false rest)
  | true, u :: rest =>
    if u = unit '\\' then
      match rest with
      | [] => [[u]]
      | v :: rest' => prependUnit u (prependUnit v (splitRawFrom true rest'))
    else prependUnit u (splitRawFrom (decide (u ≠ unit '"')) rest)

/-- `splitRawSegments`. -/
def splitRawSegments (path : JsString) : List JsString := splitRawFrom false path

/-- Whether a raw segment opens with a bracket and is neither an index nor a match. -/
def isMalformedBracket (raw : JsString) : Bool :=
  decide (raw.head? = some (unit '[')) && (indexDigits raw).isNone && (matchParts raw).isNone

/-- The diagnostic code of a path syntax error. -/
def pathSyntaxCode (e : PathSyntaxError) : String := "YOPS_PATH_" ++ e.code

/-- What is reported of one raw segment. -/
def segmentDiagnostics (path : JsString) (index : ℕ) (field raw : JsString) : List Diagnostic :=
  if raw.head? = some (unit '"') then []
  else if raw.head? = some (unit '[') then
    if isMalformedBracket raw then
      [{ severity := "error"
         code := if unit '=' ∈ raw then "YOPS_PATH_INVALID_MATCH_SYNTAX"
           else "YOPS_PATH_INVALID_INDEX_SYNTAX"
         message := about "Malformed bracket segment \"" raw "\" in path \"" ++ path ++ js "\""
         opIndex := some index
         field := some field
         path := some path }]
    else []
  else if raw.tails.any (js "\\\"").isPrefixOf then
    [{ severity := "info"
       code := "YOPS_PATH_LIKELY_DOUBLE_ESCAPED"
       message := js ("Path contains \\\" patterns outside any quoted segment that may indicate " ++
         "accidental YAML+YOps double-quoting. The validator cannot tell intent from accident — " ++
         "treat as advisory.")
       opIndex := some index
       field := some field
       path := some path
       suggestion := some (js ("If the backslash-quote was meant by your YAML emitter to encode " ++
         "a literal `\"`, prefer single-quoted YAML strings or block scalars. If it is a real " ++
         "literal-backslash key, ignore this warning.")) }]
  else []

/-- `validatePath`. -/
def validatePath (path : JsString) (index : ℕ) (field : JsString) (rootable : Bool) :
    List Diagnostic :=
  if path = [] then
    if rootable then []
    else
      [{ severity := "error"
         code := "YOPS_PATH_EMPTY"
         message := js "Path string is empty (zero-length input)"
         opIndex := some index
         field := some field
         path := some path }]
  else
    match tryParsePath path with
    | .error e =>
      [{ severity := "error"
         code := pathSyntaxCode e
         message := e.message
         opIndex := some index
         field := some field
         path := some path }]
    | .ok _ => (splitRawSegments path).flatMap (segmentDiagnostics path index field)

/-! ## Tables of refinements -/

/-- The fields that a table has for an operation. -/
def tableFields (table : List (String × List String)) (opName : String) : List String :=
  ((table.find? fun entry => decide (entry.1 = opName)).map Prod.snd).getD []

/-- `ROOTABLE_PATH_FIELDS`. -/
def rootablePathFields : List (String × List String) :=
  [("nest", ["path"]), ("split", ["path"]), ("merge", ["path"]), ("pick", ["path"]),
    ("omit", ["path"])]

/-- `NON_EMPTY_STRING_FIELDS`. -/
def nonEmptyStringFields : List (String × List String) :=
  [("rename", ["to"]), ("nest", ["under"]), ("merge", ["into"])]

/-- `STRING_ARRAY_FIELDS`. -/
def stringArrayFields : List (String × List String) :=
  [("nest", ["keys"]), ("merge", ["keys"]), ("pick", ["keys"]), ("omit", ["keys"])]

/-! ## One operation -/

/-- An error about a field of an operation. -/
def fieldError (code : String) (opName : JsString) (fieldName message : JsString) (index : ℕ) :
    Diagnostic :=
  { severity := "error"
    code
    message := opName ++ js ": " ++ message
    opIndex := some index
    field := some (opName ++ unit '.' :: fieldName) }

/-- An error about no field in particular. -/
def opError (code : String) (message : JsString) (index : ℕ) : Diagnostic :=
  { severity := "error", code, message, opIndex := some index }

/-- A violated refinement of the source. -/
def sourceError (message : JsString) (index : ℕ) : Diagnostic :=
  opError "YOPS_OP_REFINEMENT_VIOLATION" message index

/-- Whether a member is a string that is not empty. -/
def hasText (value : JsValue) (name : String) : Bool :=
  match value.member name with
  | .str s => decide (s ≠ [])
  | _ => false

/-- `validateSource`. -/
def validateSource (value : JsValue) (index : ℕ) : List Diagnostic :=
  match value with
  | .obj source =>
    if Record.get source (js "type") = some (.str (js "human")) then
      if hasText value "author" then []
      else
        [sourceError (js "source.author: must be a non-empty string for human sources") index]
    else if Record.get source (js "type") = some (.str (js "llm")) then
      match value.member "turn_ref" with
      | .obj turnRef =>
        (if hasText (.obj turnRef) "turn_hash" then []
          else [sourceError (js "source.turn_ref.turn_hash: must be a non-empty string") index]) ++
        (if hasText (.obj turnRef) "quote" then []
          else [sourceError (js "source.turn_ref.quote: must be a non-empty string") index])
      | _ =>
        [sourceError (js ("source.turn_ref: must be a mapping with turn_hash and quote " ++
          "for llm sources")) index]
    else
      [sourceError (js "source.type: must be one of ['llm', 'human'], got " ++
        ((Record.get source (js "type")).map stringify).getD (js "undefined")) index]
  | _ =>
    [sourceError (js "source: must be a mapping, got " ++ describeRuntimeType value) index]

/-- The outer keys that are neither the operation nor metadata. -/
def outerDiagnostics (op : Record JsValue) (opName : JsString) (index : ℕ) : List Diagnostic :=
  ((Record.keys op).filter fun key => decide (key ≠ opName ∧ key ≠ js "source")).map fun key =>
    opError "YOPS_OP_FIELD_UNKNOWN" (opName ++ about ": unexpected outer-level key \"" key
      "\" (only the op name and metadata keys [source] are allowed)") index

/-- The checks of one field that is present: its type, its enumeration, its path. -/
def fieldDiagnostics (spec : OpSpec) (f : FieldSpec) (value : JsValue) (index : ℕ) :
    List Diagnostic :=
  if runtimeMatchesSpecType value f.type = false then
    [fieldError "YOPS_OP_FIELD_TYPE_MISMATCH" (js spec.name) (js f.name)
      (js ("field \"" ++ f.name ++ "\" expected " ++ f.type ++ ", got ") ++
        describeRuntimeType value) index]
  else
    match value with
    | .str s =>
      if f.enum.any fun words => !Shape.word words value then
        [fieldError "YOPS_OP_ENUM_VIOLATION" (js spec.name) (js f.name)
          (js ("field \"" ++ f.name ++ "\" must be one of [") ++ joinWords (f.enum.getD []) ++
            about "], got \"" s "\"") index]
      else if f.name ∈ spec.pathFields.toList then
        validatePath s index (js spec.name ++ unit '.' :: js f.name)
          (decide (f.name ∈ tableFields rootablePathFields spec.name))
      else []
    | _ => []

/-- The items of an array that are no strings. -/
def notStrings (items : List JsValue) : List (ℕ × JsValue) :=
  (items.zipIdx.filter fun item => !Shape.string 0 none item.1).map fun item => (item.2, item.1)

/-- `validateOpRefinements`. -/
def validateOpRefinements (opName : String) (payload : Record JsValue) (index : ℕ) :
    List Diagnostic :=
  (if opName = "assert" ∧ payloadRefinement opName (.obj payload) = false then
    [opError "YOPS_OP_REFINEMENT_VIOLATION"
      (js "assert: at least one of equals, exists, or type must be provided") index]
  else []) ++
  ((tableFields nonEmptyStringFields opName).filter fun name =>
    decide (Record.get payload (js name) = some (.str []))).map (fun name =>
      fieldError "YOPS_OP_REFINEMENT_VIOLATION" (js opName) (js name)
        (js ("field \"" ++ name ++ "\" must be a non-empty string")) index) ++
  (tableFields stringArrayFields opName).flatMap (fun name =>
    (notStrings ((Record.get payload (js name)).getD .null).items).map fun item =>
      fieldError "YOPS_OP_REFINEMENT_VIOLATION" (js opName) (js name)
        (js ("field \"" ++ name ++ "[") ++ natToString item.1 ++
          js "]\" must be a string, got " ++ describeRuntimeType item.2) index) ++
  (if opName = "split" then
    (entriesField payload "into").flatMap fun group =>
      match group.2 with
      | .arr members =>
        (notStrings members).map fun item =>
          fieldError "YOPS_OP_REFINEMENT_VIOLATION" (js opName) (js "into")
            (js "field \"into." ++ group.1 ++ js "[" ++ natToString item.1 ++
              js "]\" must be a string, got " ++ describeRuntimeType item.2) index
      | members =>
        [fieldError "YOPS_OP_REFINEMENT_VIOLATION" (js opName) (js "into")
          (about "field \"into." group.1 "\" must be an array of strings, got " ++
            describeRuntimeType members) index]
  else [])

/-- The checks of a payload against the specification of its operation. -/
def payloadDiagnostics (spec : OpSpec) (payload : Record JsValue) (index : ℕ) :
    List Diagnostic :=
  (spec.fields.filter fun f => f.required && !Record.has payload (js f.name)).map (fun f =>
    fieldError "YOPS_OP_FIELD_MISSING" (js spec.name) (js f.name)
      (js ("required field \"" ++ f.name ++ "\" is missing")) index) ++
  ((Record.keys payload).filter fun key =>
    !spec.fields.any fun f => decide (js f.name = key)).map (fun key =>
      fieldError "YOPS_OP_FIELD_UNKNOWN" (js spec.name) key (about "unknown field \"" key "\"")
        index) ++
  spec.fields.flatMap (fun f =>
    (Record.get payload (js f.name)).toList.flatMap fun value =>
      fieldDiagnostics spec f value index) ++
  validateOpRefinements spec.name payload index

/-- What reading the specification under a name gives: an entry of its own, or what
every object inherits. -/
inductive SpecEntry where
  | own (spec : OpSpec)
  | inherited

/-- `getSpec().operations[opName]`. -/
def readOperation (opName : JsString) : Option SpecEntry :=
  match getOpSpec opName with
  | some spec => some (.own spec)
  | none => if opName ∈ inheritedNames then some .inherited else none

/-- `validateOp`: an error is what is thrown. What an object inherits has no fields to
enumerate. -/
def validateOp (rawOp : JsValue) (index : ℕ) : Except JsString (List Diagnostic) :=
  match rawOp with
  | .obj op =>
    match resolveOpName op with
    | none =>
      .ok [opError "YOPS_OP_NO_KEY" (js "Op at index " ++ natToString index ++
        js " has no operation key (only metadata keys: source)") index]
    | some opName =>
      let outer := outerDiagnostics op opName index ++
        (Record.get op (js "source")).toList.flatMap fun source => validateSource source index
      match readOperation opName, (Record.get op opName).getD .null with
      | none, _ =>
        .ok (outer ++ [{ opError "YOPS_OP_UNKNOWN" (js "Unknown operation: " ++ opName) index with
          field := some opName }])
      | some (.own spec), .obj payload => .ok (outer ++ payloadDiagnostics spec payload index)
      | some .inherited, .obj _ => .error (js "Cannot convert undefined or null to object")
      | some _, payload =>
        .ok (outer ++ [{ opError "YOPS_OP_PAYLOAD_NOT_MAPPING" (opName ++
          js ": payload must be a mapping, got " ++ describeRuntimeType payload) index with
          field := some opName }])
  | _ =>
    .ok [opError "YOPS_OP_NOT_MAPPING" (js "Op at index " ++ natToString index ++
      js " must be a mapping, got " ++ describeRuntimeType rawOp) index]

/-- The diagnostics of the operations from an index on. -/
def validateFrom : ℕ → List JsValue → Except JsString (List Diagnostic)
  | _, [] => .ok []
  | index, rawOp :: ops => do
    let found ← validateOp rawOp index
    let rest ← validateFrom (index + 1) ops
    return found ++ rest

/-- `validateYOpsOps` of an array. -/
def validateYOpsOps (ops : List JsValue) : Except JsString (List Diagnostic) := validateFrom 0 ops

end T3x.Yops
