import T3x.Reconciliation.Reconcile
import T3x.Transition.Resolver
import T3x.Yschema.Normalize
import T3x.Yschema.Object

/-!
# The merge of schema definitions

Two branches changed a common schema. The merge takes a side where the other is
unchanged, descends where both sides are mappings, and reports a conflict
elsewhere, which a choice settles. Members are read with `x[key]`, so that a name
which a mapping does not have itself can still be read from `Object.prototype`.
-/

namespace T3x.SchemaMerge

open Js T3x.Transition T3x.Yschema

/-- The names that every object inherits from `Object.prototype`. -/
def prototypeNames : List JsString :=
  [js "constructor", js "__defineGetter__", js "__defineSetter__", js "hasOwnProperty",
    js "__lookupGetter__", js "__lookupSetter__", js "isPrototypeOf", js "propertyIsEnumerable",
    js "toString", js "valueOf", js "__proto__", js "toLocaleString"]

/-- What reading a property gives. -/
inductive Read where
  /-- Nothing is there. -/
  | undefined
  /-- A value. -/
  | value (value : JsValue)
  /-- What `Object.prototype` has under the name: a function, or itself under `__proto__`. -/
  | inherited (name : JsString)

namespace Read

/-- What is read when a value may be absent. -/
def ofOption : Option JsValue → Read
  | none => .undefined
  | some v => .value v

/-- The value that is read; an inherited one is never asked for. -/
def own : Read → Option JsValue
  | .value v => some v
  | _ => none

/-- `mapping(x) ? x[key] : undefined`. -/
def member : Read → JsString → Read
  | .value (.obj record), key =>
    match Record.get record key with
    | some v => .value v
    | none => if key ∈ prototypeNames then .inherited key else .undefined
  | _, _ => .undefined

/-- `Object.keys(mapping(x) ? x : {})`. -/
def keys : Read → List JsString
  | .value (.obj record) => Record.keys record
  | _ => []

/-- `canonicalizeProtocolValue(x)`, which refuses functions and members that are not
enumerable. -/
def canonical : Read → Except ProtocolError JsString
  | .undefined => .error (nonCanonicalValue "Unsupported undefined value" (js "$"))
  | .value v => canonicalizeProtocolValue v
  | .inherited name =>
    if name = js "__proto__" then
      .error (nonCanonicalValue "Protocol objects require enumerable data properties"
        (js "$.constructor"))
    else .error (nonCanonicalValue "Unsupported function value" (js "$"))

/-- `equal(left, right)`. -/
def equal : Read → Read → Except ProtocolError Bool
  | .undefined, .undefined => .ok true
  | .undefined, _ => .ok false
  | _, .undefined => .ok false
  | left, right => do
    let leftText ← left.canonical
    let rightText ← right.canonical
    return decide (leftText = rightText)

end Read

/-- A choice for a conflict. -/
inductive Choice where
  | source
  | target
  | remove
  | value (value : JsValue)

/-- What a choice makes of a conflict. -/
def Choice.pick (incoming current : Option JsValue) : Choice → Option JsValue
  | .source => incoming
  | .target => current
  | .remove => none
  | .value v => some v

/-- `SchemaMergeConflict`. -/
structure SchemaMergeConflict where
  /-- The path of the conflict. -/
  path : JsString
  /-- What the base has. -/
  base : Option JsValue
  /-- What the source has. -/
  source : Option JsValue
  /-- What the target has. -/
  target : Option JsValue

/-- What the merge of one value yields. -/
structure Merged where
  /-- The merged value, `none` when it is `undefined`. -/
  value : Option JsValue
  /-- The conflicts in it, in order. -/
  conflicts : List SchemaMergeConflict := []
  /-- The paths of those without a choice. -/
  unresolved : List JsString := []
  /-- The paths of those with one. -/
  used : List JsString := []

/-- The path of a member. -/
def childPath (path key : JsString) : JsString := if path = [] then key else path ++ unit '/' :: key

/-- The path that is reported. -/
def reportedPath (path : JsString) : JsString := if path = [] then js "/" else path

/-- Put the merged members of a mapping together. -/
def collect (parts : List (JsString × Merged)) : Merged where
  value := some (.obj (Record.fromEntries
    (parts.filterMap fun part => part.2.value.map fun value => (part.1, value))))
  conflicts := parts.flatMap fun part => part.2.conflicts
  unresolved := parts.flatMap fun part => part.2.unresolved
  used := parts.flatMap fun part => part.2.used

section

variable (choices : Record Choice)

/-- A conflict, with its choice if there is one. -/
def conflict (before incoming current : Option JsValue) (path : JsString) : Merged :=
  let key := reportedPath path
  match Record.get choices key with
  | none => ⟨current, [⟨key, before, incoming, current⟩], [key], []⟩
  | some choice => ⟨choice.pick incoming current, [⟨key, before, incoming, current⟩], [], [key]⟩

/-- The comparisons at the head of `merge`, and what stands behind them. -/
def settleOr (before incoming current : Read) (rest : Except ProtocolError Merged) :
    Except ProtocolError Merged := do
  if ← incoming.equal current then return { value := incoming.own }
  if ← incoming.equal before then return { value := current.own }
  if ← current.equal before then return { value := incoming.own }
  rest

/-- The merge where the incoming side holds no mapping. -/
def mergeLeaf (incoming before current : Read) (path : JsString) : Except ProtocolError Merged :=
  settleOr before incoming current
    (.ok (conflict choices before.own incoming.own current.own path))

/-- The incoming side of the merge of a member, that is read where it has none. -/
def absent (key : JsString) : Read := (Read.value (.obj [])).member key

mutual

/-- The merge over an incoming value. -/
def mergeValue : JsValue → Read → Read → JsString → Except ProtocolError Merged
  | .obj incoming, before, current, path =>
    settleOr before (.value (.obj incoming)) current <|
      match before, current with
      | .undefined, .value (.obj _) | .value (.obj _), .value (.obj _) => do
        let merges := mergeMembers incoming
        let keys := Reconciliation.unionKeys before.keys (Record.keys merges) current.keys
        let parts ← keys.mapM fun key => do
          let part ← ((Record.get merges key).getD (mergeLeaf choices (absent key)))
            (before.member key) (current.member key) (childPath path key)
          return (key, part)
        return collect parts
      | _, _ => .ok (conflict choices before.own (some (.obj incoming)) current.own path)
  | incoming, before, current, path => mergeLeaf choices (.value incoming) before current path

/-- The merges of the members of an incoming mapping. -/
def mergeMembers : List (JsString × JsValue) →
    Record (Read → Read → JsString → Except ProtocolError Merged)
  | [] => []
  | (key, value) :: members => (key, mergeValue value) :: mergeMembers members

end

/-- `merge(before, incoming, current, path)`. -/
def merge (before incoming current : Read) (path : JsString) : Except ProtocolError Merged :=
  match incoming with
  | .value v => mergeValue choices v before current path
  | incoming => mergeLeaf choices incoming before current path

end

/-- What makes the merge of schema definitions throw. -/
inductive MergeFailure where
  /-- A comparison throws. -/
  | thrown (error : ProtocolError)
  /-- `RepositorySchemaMergeError`: a choice for a path without a conflict. -/
  | unknownConflict (key : JsString)

/-- The message of the error. -/
def MergeFailure.message : MergeFailure → JsString
  | .thrown error => error.message
  | .unknownConflict key => js "Unknown or stale Schema conflict: " ++ key

/-- What the merge of schema definitions returns. -/
structure MergedSchema where
  /-- The conflicts. -/
  conflicts : List SchemaMergeConflict
  /-- The paths of those without a choice. -/
  unresolved : List JsString
  /-- The merged definition, if it can be read and nothing is unresolved. -/
  definition : Option YSchema
  /-- Why it cannot be read. -/
  definitionError : Option JsString

section

variable (regExpError : JsString → Option JsString)

/-- The definition that is read from a merged value. -/
def readDefinition : Option JsValue → Except JsString (Option YSchema)
  | none => .ok none
  | some value => (normalizeYSchemaObject regExpError value).map some

/-- `base ?? undefined` and its like. -/
def readSchema (schema : Option YSchema) : Read := .ofOption (schema.map YSchema.toObject)

/-- What is returned of a merge. -/
def Merged.schema (merged : Merged) : MergedSchema :=
  let definition := readDefinition regExpError merged.value
  { conflicts := merged.conflicts
    unresolved := merged.unresolved
    definition := if merged.unresolved = [] then definition.toOption.join else none
    definitionError :=
      match definition with
      | .ok _ => none
      | .error message => some message }

/-- `mergeSchemaDefinitions(base, source, target, choices)`. -/
def mergeSchemaDefinitions (base source target : Option YSchema) (choices : Record Choice) :
    Except MergeFailure MergedSchema := do
  let merged ← (merge choices (readSchema base) (readSchema source) (readSchema target)
    []).mapError .thrown
  match (Record.keys choices).find? fun key => !merged.used.contains key with
  | some key => throw (.unknownConflict key)
  | none => return merged.schema regExpError

end

end T3x.SchemaMerge
