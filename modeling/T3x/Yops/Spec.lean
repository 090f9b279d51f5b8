import T3x.Yops.Handlers

/-!
# The operation specification and the operation schema

The specification says of every operation which fields it has and which of them
are paths; the registry pairs it with the handlers. The schema says of every
operation which values its fields take.
-/

namespace T3x.Yops

open Js

/-! ## The specification -/

/-- `FieldSpec`. -/
structure FieldSpec where
  /-- The name of the field. -/
  name : String
  /-- The type of its value. -/
  type : String
  /-- The field has to be present. -/
  required : Bool := true
  /-- The values that the field takes. -/
  enum : Option (List String) := none
  /-- The version that deprecated the field. -/
  deprecatedIn : Option String := none
  /-- The field to use instead. -/
  replacementField : Option String := none
  deriving DecidableEq

/-- `PathFields`. -/
structure PathFields where
  /-- The path that the operation works on. -/
  primary : Option String := none
  /-- The path that it reads. -/
  source : Option String := none
  /-- The path that it writes. -/
  destination : Option String := none
  deriving DecidableEq

/-- The fields that hold paths, by role. -/
def PathFields.toList (paths : PathFields) : List String :=
  paths.primary.toList ++ paths.source.toList ++ paths.destination.toList

/-- `OpSpec`. -/
structure OpSpec where
  /-- The name of the operation. -/
  name : String
  /-- Its path fields. -/
  pathFields : PathFields
  /-- Its fields. -/
  fields : List FieldSpec
  deriving DecidableEq

/-- An operation whose one path field is `path`. -/
def pathOp (name : String) (fields : List FieldSpec) : OpSpec :=
  { name
    pathFields := { primary := some "path" }
    fields := { name := "path", type := "string" } :: fields }

/-- An operation from one path to another. -/
def transferOp (name : String) : OpSpec :=
  { name
    pathFields := { source := some "from", destination := some "to" }
    fields := [{ name := "from", type := "string" }, { name := "to", type := "string" }] }

/-- `spec.operations`. -/
def operations : List OpSpec :=
  [pathOp "define" [],
    pathOp "drop" [],
    pathOp "rename" [{ name := "to", type := "string" }],
    pathOp "set" [{ name := "value", type := "any" }],
    pathOp "unset" [],
    pathOp "populate" [{ name := "values", type := "mapping" }],
    pathOp "append" [{ name := "value", type := "any" }],
    transferOp "move",
    transferOp "clone",
    pathOp "nest" [{ name := "keys", type := "sequence" }, { name := "under", type := "string" }],
    pathOp "split" [{ name := "into", type := "mapping" }],
    pathOp "fold" [],
    pathOp "merge" [{ name := "keys", type := "sequence" }, { name := "into", type := "string" }],
    pathOp "sort" [{ name := "by", type := "string", required := false },
      { name := "order", type := "string", required := false, enum := some ["asc", "desc"] }],
    pathOp "unique" [{ name := "by", type := "string", required := false }],
    pathOp "pick" [{ name := "keys", type := "sequence" }],
    pathOp "omit" [{ name := "keys", type := "sequence" }],
    pathOp "assert" [{ name := "equals", type := "any", required := false },
      { name := "exists", type := "boolean", required := false },
      { name := "type", type := "string", required := false,
        enum := some ["mapping", "sequence", "scalar"] }]]

/-- `registry.getOpSpec(opName)`. -/
def getOpSpec (opName : JsString) : Option OpSpec :=
  operations.find? fun spec => decide (js spec.name = opName)

/-- `registerAllHandlers`. -/
def handlers : List (String × OpHandler) :=
  [("define", defineHandler), ("drop", dropHandler), ("rename", renameHandler),
    ("set", setHandler), ("unset", unsetHandler), ("populate", populateHandler),
    ("append", appendHandler), ("move", moveHandler), ("clone", cloneHandler),
    ("nest", nestHandler), ("split", splitHandler), ("fold", foldHandler),
    ("merge", mergeHandler), ("sort", sortHandler), ("unique", uniqueHandler),
    ("pick", pickHandler), ("omit", omitHandler), ("assert", assertHandler)]

/-- `registry.getHandler(opName)`. -/
def getHandler (opName : JsString) : Option OpHandler :=
  (handlers.find? fun entry => decide (js entry.1 = opName)).map Prod.snd

/-! ## The shape of an operation -/

/-- `resolveOpName`: the first key that is no metadata key. -/
def resolveOpName (op : Record JsValue) : Option JsString :=
  (Record.keys op).find? fun key => decide (key ≠ js "source")

/-- The path texts among the fields of an operation that are not empty, by role. -/
def pathTexts (spec : OpSpec) (fields : Record JsValue) : List JsString :=
  spec.pathFields.toList.filterMap fun name =>
    match Record.get fields (js name) with
    | some (.str path) => if path = [] then none else some path
    | _ => none

/-- `registry.getOpPaths(op)`. -/
def getOpPaths (rawOp : JsValue) : List JsString :=
  match rawOp with
  | .obj op =>
    match resolveOpName op with
    | none => []
    | some opName =>
      match getOpSpec opName, (Record.get op opName).getD .null with
      | some spec, .obj fields => pathTexts spec fields
      | _, _ => []
  | _ => []

/-! ## The schema -/

/-- `YValueSchema`. -/
def yValueSchema : Shape :=
  JsValue.fold
    { null := true
      bool := fun _ => true
      num := fun _ => true
      str := fun _ => true
      arr := fun items => items.all id
      obj := fun members => members.all fun e => e.2 }

/-- `LLMSourceSchema`. -/
def llmSourceSchema : Shape :=
  .object [⟨"type", .word ["llm"], false⟩, ⟨"model", .string 0 none, true⟩,
    ⟨"at", .string 0 none, true⟩,
    ⟨"turn_ref", .object [⟨"turn_hash", .string 1 none, false⟩, ⟨"quote", .string 1 none, false⟩],
      false⟩]

/-- `HumanSourceSchema`. -/
def humanSourceSchema : Shape :=
  .object [⟨"type", .word ["human"], false⟩, ⟨"author", .string 1 none, false⟩,
    ⟨"surface", .word ["tree", "script", "inline"], true⟩]

/-- `SourceSchema`. -/
def sourceSchema : Shape := .anyOf [llmSourceSchema, humanSourceSchema]

/-- `PathSchema`. -/
def pathSchema : Shape := .string 1 none

/-- `RootablePathSchema`. -/
def rootablePathSchema : Shape := .string 0 none

/-- `z.array(z.string())`. -/
def keysSchema : Shape := .list (.string 0 none) 0 none fun _ => true

/-- The members of the payload of every operation. -/
def payloadFields : List (String × List ShapeField) :=
  [("define", [⟨"path", pathSchema, false⟩]),
    ("drop", [⟨"path", pathSchema, false⟩]),
    ("rename", [⟨"path", pathSchema, false⟩, ⟨"to", .string 1 none, false⟩]),
    ("set", [⟨"path", pathSchema, false⟩, ⟨"value", yValueSchema, false⟩]),
    ("unset", [⟨"path", pathSchema, false⟩]),
    ("populate", [⟨"path", pathSchema, false⟩, ⟨"values", .record yValueSchema, false⟩]),
    ("append", [⟨"path", pathSchema, false⟩, ⟨"value", yValueSchema, false⟩]),
    ("move", [⟨"from", pathSchema, false⟩, ⟨"to", .string 1 none, false⟩]),
    ("clone", [⟨"from", pathSchema, false⟩, ⟨"to", .string 1 none, false⟩]),
    ("nest", [⟨"path", rootablePathSchema, false⟩, ⟨"keys", keysSchema, false⟩,
      ⟨"under", .string 1 none, false⟩]),
    ("split", [⟨"path", rootablePathSchema, false⟩, ⟨"into", .record keysSchema, false⟩]),
    ("fold", [⟨"path", pathSchema, false⟩]),
    ("merge", [⟨"path", rootablePathSchema, false⟩, ⟨"keys", keysSchema, false⟩,
      ⟨"into", .string 1 none, false⟩]),
    ("sort", [⟨"path", pathSchema, false⟩, ⟨"by", .string 0 none, true⟩,
      ⟨"order", .word ["asc", "desc"], true⟩]),
    ("unique", [⟨"path", pathSchema, false⟩, ⟨"by", .string 0 none, true⟩]),
    ("pick", [⟨"path", rootablePathSchema, false⟩, ⟨"keys", keysSchema, false⟩]),
    ("omit", [⟨"path", rootablePathSchema, false⟩, ⟨"keys", keysSchema, false⟩]),
    ("assert", [⟨"path", .string 1 none, false⟩, ⟨"equals", yValueSchema, true⟩,
      ⟨"exists", .boolean, true⟩, ⟨"type", .word ["mapping", "sequence", "scalar"], true⟩])]

/-- The further condition on the payload: an assertion has a condition to test. -/
def payloadRefinement (name : String) (payload : JsValue) : Bool :=
  decide (name ≠ "assert") || payload.hasMember "equals" || payload.hasMember "exists" ||
    payload.hasMember "type"

/-- The schema of one operation, with the schema of its source. -/
def opSchema (source : Shape) (name : String) (fields : List ShapeField) : Shape :=
  .closed [⟨name, .refined (.closed fields) (payloadRefinement name), false⟩,
    ⟨"source", source, true⟩]

/-- The union of the schemas of all operations. -/
def unionSchema (source : Shape) : Shape :=
  .anyOf (payloadFields.map fun entry => opSchema source entry.1 entry.2)

/-- `YOpSchema`. -/
def yOpSchema : Shape := unionSchema sourceSchema

end T3x.Yops
