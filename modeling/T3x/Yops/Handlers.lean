import T3x.Yops.Canonical
import T3x.Yops.Document

/-!
# The operation handlers

A handler reads the fields of an operation and gives the next document, reports
an error, or throws. Every document it works on is a copy, so an error or a
throw half-way leaves the document it was given as it was. A clone is equal to
what it was cloned from; the parts that go into a new array or mapping are
written without their clones.
-/

namespace T3x.Yops

open Js

/-! ## Results and fields -/

/-- `YOpsError`. -/
structure YopsError where
  /-- The error code. -/
  code : String
  /-- The message. -/
  message : JsString
  /-- The index of the operation. -/
  opIndex : ℕ
  deriving DecidableEq

/-- How a handler fails: with an error of its own, or by throwing. -/
inductive HandlerFailure where
  | error (e : YopsError)
  | thrown (message : JsString)

/-- `OpHandler`: from the document, the fields of the operation and its index. -/
abbrev OpHandler := JsValue → Record JsValue → ℕ → Except HandlerFailure JsValue

/-- A reported error. -/
def report {T : Type} (code : String) (message : JsString) (index : ℕ) :
    Except HandlerFailure T :=
  .error (.error ⟨code, message, index⟩)

/-- A step that throws when it fails. -/
def throwing {T : Type} (step : Except JsString T) : Except HandlerFailure T :=
  step.mapError .thrown

/-- A text field. -/
def textField (fields : Record JsValue) (name : String) : JsString :=
  ((Record.get fields (js name)).getD .null).text

/-- A field of any value. -/
def valueField (fields : Record JsValue) (name : String) : JsValue :=
  (Record.get fields (js name)).getD .null

/-- A field that lists keys. -/
def keysField (fields : Record JsValue) (name : String) : List JsString :=
  ((Record.get fields (js name)).getD .null).items.map JsValue.text

/-- The entries of a field that holds a mapping. -/
def entriesField (fields : Record JsValue) (name : String) : Record JsValue :=
  match valueField fields name with
  | .obj map => Record.entries map
  | _ => []

/-- A text field that may be absent. -/
def optionalText (fields : Record JsValue) (name : String) : Option JsString :=
  (Record.get fields (js name)).map JsValue.text

/-- A text about a path: the text before it, the path and the text after it. -/
def about (before : String) (path : JsString) (after : String) : JsString :=
  js before ++ path ++ js after

/-! ## What several handlers do -/

/-- `path === '' ? key : path + '/' + key`. -/
def childPath (path key : JsString) : JsString :=
  if path = [] then key else path ++ unit '/' :: key

/-- The value at a path, which has to exist. -/
def valueAt (doc : JsValue) (path : JsString) (index : ℕ) : Except HandlerFailure JsValue :=
  match resolvePath doc path with
  | some value => .ok value
  | none => report "PATH_NOT_FOUND" (about "Path \"" path "\" does not exist") index

/-- The mapping at a path; another value there is reported by `code` as
`what "path" is not a mapping`. -/
def mappingAt (code what : String) (doc : JsValue) (path : JsString) (index : ℕ) :
    Except HandlerFailure (Record JsValue) := do
  match ← valueAt doc path index with
  | .obj map => return map
  | _ => report code (about (what ++ " \"") path "\" is not a mapping") index

/-- The sequence at a path. -/
def sequenceAt (doc : JsValue) (path : JsString) (index : ℕ) :
    Except HandlerFailure (List JsValue) := do
  match ← valueAt doc path index with
  | .arr items => return items
  | _ => report "NOT_A_SEQUENCE" (about "Value at \"" path "\" is not a sequence") index

/-- Every key has to be a member of the mapping at the path. -/
def checkSiblings (map : Record JsValue) (path : JsString) (keys : List JsString) (index : ℕ) :
    Except HandlerFailure Unit :=
  match keys.find? fun key => !Record.has map key with
  | some key =>
    report "NOT_SIBLINGS" (about "Key \"" key "\" is not a sibling under \"" ++ path ++ js "\"")
      index
  | none => .ok ()

/-- Every item has to be a mapping with the key that the operation goes by. -/
def checkBy (op : String) (path : JsString) (sortKey : JsString) (items : List JsValue)
    (index : ℕ) : Except HandlerFailure Unit :=
  items.forM fun item =>
    match item with
    | .obj map =>
      if Record.has map sortKey then .ok ()
      else report "INVALID_OP" (about (op ++ " by \"") sortKey "\" requires every item at \"" ++
        path ++ js "\" to contain that key") index
    | _ => report "INVALID_OP" (about (op ++ " by \"") sortKey "\" requires every item at \"" ++
        path ++ js "\" to be a mapping") index

/-- Delete the children of a path one after the other; one that is not there is skipped. -/
def deleteChildren (doc : JsValue) (path : JsString) (keys : List JsString) : JsValue :=
  keys.foldl (fun current key => (deleteAtPath current (childPath path key)).getD current) doc

/-- The members of a mapping under the given keys. -/
def gather (map : Record JsValue) (keys : List JsString) : Record JsValue :=
  keys.foldl (fun m key => Record.setOwn m key (deepClone ((Record.get map key).getD .null))) []

/-- The value that an operation goes by. -/
def goesBy (sortKey : Option JsString) (item : JsValue) : JsValue :=
  match sortKey, item with
  | none, item => item
  | some key, .obj map => (Record.get map key).getD .null
  | some _, _ => .null

/-! ## When the steps succeed -/

section Success

variable {doc value : JsValue} {path : JsString} {index : ℕ} {code what op : String}
  {map : Record JsValue} {keys : List JsString} {items : List JsValue}

/-- A step that throws when it fails succeeds as the step. -/
theorem throwing_eq_ok_iff {T : Type} {step : Except JsString T} {a : T} :
    throwing step = .ok a ↔ step = .ok a := by
  cases step <;> simp [throwing, Except.mapError]

/-- There is a value at a path that resolves. -/
theorem valueAt_eq_ok_iff :
    valueAt doc path index = .ok value ↔ resolvePath doc path = some value := by
  unfold valueAt
  cases resolvePath doc path <;> simp [report]

/-- There is a mapping at a path that resolves to one. -/
theorem mappingAt_eq_ok_iff :
    mappingAt code what doc path index = .ok map ↔ resolvePath doc path = some (.obj map) := by
  have hvalue : valueAt doc path index = .ok (.obj map) ↔ _ := valueAt_eq_ok_iff
  rw [← hvalue]
  unfold mappingAt
  cases valueAt doc path index with
  | error e => simp [bind, Except.bind]
  | ok value => cases value <;> simp [bind, Except.bind, pure, Except.pure, report]

/-- There is a sequence at a path that resolves to one. -/
theorem sequenceAt_eq_ok_iff :
    sequenceAt doc path index = .ok items ↔ resolvePath doc path = some (.arr items) := by
  have hvalue : valueAt doc path index = .ok (.arr items) ↔ _ := valueAt_eq_ok_iff
  rw [← hvalue]
  unfold sequenceAt
  cases valueAt doc path index with
  | error e => simp [bind, Except.bind]
  | ok value => cases value <;> simp [bind, Except.bind, pure, Except.pure, report]

/-- The siblings are checked: each key is a member. -/
theorem checkSiblings_eq_ok_iff {result : Unit} :
    checkSiblings map path keys index = .ok result ↔ ∀ key ∈ keys, Record.has map key = true := by
  unfold checkSiblings
  cases hfind : keys.find? fun key => !Record.has map key with
  | none => simpa using hfind
  | some key =>
    have hmem := List.mem_of_find?_eq_some hfind
    have hnot : Record.has map key = false := by simpa using List.find?_some hfind
    simp only [report, reduceCtorEq, false_iff]
    intro hall
    rw [hall key hmem] at hnot
    cases hnot

end Success

/-! ## Structure -/

/-- Whether a segment is a key. -/
def PathSegment.isKey : PathSegment → Bool
  | .key _ => true
  | _ => false

/-- The text of a segment in a path. -/
def PathSegment.text : PathSegment → JsString
  | .key value => value
  | .index value => js "[" ++ indexText value ++ js "]"
  | .match name value => js "[" ++ name ++ js "=" ++ value ++ js "]"

/-- `JSON.stringify(segment)`. -/
def PathSegment.json : PathSegment → JsString
  | .key value => stringify (.obj [(js "type", .str (js "key")), (js "value", .str value)])
  | .index value => stringify (.obj [(js "type", .str (js "index")),
      (js "value", ((numberOf (natToString value)).map JsValue.num).getD .null)])
  | .match name value => stringify (.obj [(js "type", .str (js "match")),
      (js "key", .str name), (js "value", .str value)])

/-- `defineHandler`: the parent has to be a mapping without the key. -/
def defineHandler : OpHandler := fun doc fields index =>
  let path := textField fields "path"
  let segments := parsePath path
  match segments.find? fun segment => !segment.isKey with
  | some segment =>
    report "INVALID_PATH" (about "define only supports key segments; got \"" segment.json
      "\" in path \"" ++ path ++ js "\"") index
  | none =>
    match segments.getLast? with
    | none => report "INVALID_PATH" (js "define requires a non-empty path") index
    | some last =>
      let parentPath := join (unit '/') (segments.dropLast.map PathSegment.text)
      match resolvePathSegments doc segments.dropLast with
      | none =>
        report "PATH_NOT_FOUND" (about "Parent path \"" parentPath "\" does not exist") index
      | some (.obj parent) =>
        if Record.has parent last.text then
          report "ALREADY_EXISTS" (about "Path \"" path "\" already exists") index
        else .ok (updateAtPathSegments (last.put (.obj [])) segments.dropLast (deepClone doc))
      | some _ =>
        report "NOT_A_MAPPING" (about "Parent at \"" parentPath "\" is not a mapping") index

/-- `dropHandler`. -/
def dropHandler : OpHandler := fun doc fields index =>
  let path := textField fields "path"
  match deleteAtPath doc path with
  | some result => .ok result
  | none => report "PATH_NOT_FOUND" (about "Path \"" path "\" does not exist") index

/-- The mapping with one key renamed in its place, the members added anew. -/
def renameKey (oldKey newKey : JsString) : JsValue → JsValue
  | .obj map => .obj (Record.fromEntries ((Record.entries map).map fun e =>
      (if e.1 = oldKey then newKey else e.1, e.2)))
  | value => value

/-- `renameHandler`: a member keeps its place under its new name. -/
def renameHandler : OpHandler := fun doc fields index =>
  let path := textField fields "path"
  let newKey := textField fields "to"
  let segments := parsePath path
  match resolvePathSegments doc segments, segments.getLast? with
  | none, _ => report "PATH_NOT_FOUND" (about "Path \"" path "\" does not exist") index
  | some _, some (.key oldKey) =>
    match resolvePathSegments doc segments.dropLast with
    | some (.obj parent) =>
      if Record.has parent newKey then
        report "ALREADY_EXISTS" (about "Key \"" newKey "\" already exists at the same level as \"" ++
          path ++ js "\"") index
      else .ok (updateAtPathSegments (renameKey oldKey newKey) segments.dropLast (deepClone doc))
    | _ => .ok (deepClone doc)
  | some _, _ =>
    report "INVALID_PATH" (about "rename only supports key segments; path \"" path
      "\" ends with a non-key segment") index

/-! ## Values -/

/-- `setHandler`: what setting throws is an invalid path. -/
def setHandler : OpHandler := fun doc fields index =>
  let path := textField fields "path"
  match setAtPath doc path (valueField fields "value") with
  | .ok result => .ok result
  | .error message =>
    report "INVALID_PATH" (about "Cannot set at path \"" path "\": " ++ message) index

/-- `unsetHandler`: an absent key is no error. -/
def unsetHandler : OpHandler := fun doc fields index =>
  let path := textField fields "path"
  let segments := parsePath path
  match segments.getLast? with
  | some (.key _) =>
    let parentPath := join (unit '/') (segments.dropLast.map PathSegment.text)
    match resolvePathSegments doc segments.dropLast with
    | none | some (.obj _) =>
      .ok ((deleteAtPathSegments doc segments).getD (deepClone doc))
    | some _ =>
      report "NOT_A_MAPPING" (about "Parent path \""
        (if parentPath = [] then js "<root>" else parentPath) "\" is not a mapping") index
  | _ =>
    report "NOT_A_MAPPING" (about "unset only supports removing mapping keys, got path \"" path
      "\"") index

/-- `populateHandler`: the values are set one after the other. -/
def populateHandler : OpHandler := fun doc fields index => do
  let path := textField fields "path"
  let _ ← mappingAt "NOT_A_MAPPING" "Value at" doc path index
  (entriesField fields "values").foldlM (fun current e =>
    match setAtPath current (childPath path e.1) e.2 with
    | .ok next => .ok next
    | .error message =>
      report "INVALID_PATH" (about "Cannot populate key \"" e.1 "\" at \"" ++ path ++ js "\": " ++
        message) index) doc

/-- `appendHandler`. -/
def appendHandler : OpHandler := fun doc fields index => do
  let path := textField fields "path"
  let items ← sequenceAt doc path index
  throwing (setAtPath doc path (.arr (items ++ [deepClone (valueField fields "value")])))

/-! ## Transformations -/

/-- `moveHandler`: the source is copied to the destination, then deleted. -/
def moveHandler : OpHandler := fun doc fields index => do
  let source := textField fields "from"
  let destination := textField fields "to"
  if destination = source then
    report "ALREADY_EXISTS" (about "Path \"" destination "\" already exists") index
  else if (source ++ [unit '/']).isPrefixOf destination then
    report "INVALID_PATH" (about "Cannot move path \"" source "\" into its own subtree \"" ++
      destination ++ js "\"") index
  else do
    let sourceValue ← valueAt doc source index
    if (resolvePath doc destination).isSome then
      report "ALREADY_EXISTS" (about "Path \"" destination "\" already exists") index
    else do
      let moved ← throwing (setAtPath (deepClone doc) destination sourceValue)
      match deleteAtPath moved source with
      | some result => return result
      | none =>
        report "PATH_NOT_FOUND" (about "Path \"" source "\" could not be deleted") index

/-- `cloneHandler`. -/
def cloneHandler : OpHandler := fun doc fields index => do
  let source := textField fields "from"
  let destination := textField fields "to"
  let sourceValue ← valueAt doc source index
  if (resolvePath doc destination).isSome then
    report "ALREADY_EXISTS" (about "Path \"" destination "\" already exists") index
  else throwing (setAtPath doc destination (deepClone sourceValue))

/-- `nestHandler`: the keys go below a new key. -/
def nestHandler : OpHandler := fun doc fields index => do
  let path := textField fields "path"
  let keys := keysField fields "keys"
  let under := textField fields "under"
  let target ← mappingAt "NOT_A_MAPPING" "Path" doc path index
  checkSiblings target path keys index
  if Record.has target under ∧ under ∉ keys then
    report "ALREADY_EXISTS" (about "Key \"" under "\" already exists in mapping at \"" ++ path ++
      js "\"") index
  else
    throwing (setAtPath (deleteChildren (deepClone doc) path keys) (childPath path under)
      (.obj (gather target keys)))

/-- The first key that is listed a second time. -/
def firstRepeated : List JsString → List JsString → Option JsString
  | _, [] => none
  | seen, key :: keys => if key ∈ seen then some key else firstRepeated (key :: seen) keys

/-- `splitHandler`: the keys go to the groups that list them. -/
def splitHandler : OpHandler := fun doc fields index => do
  let path := textField fields "path"
  let into : Record (List JsString) :=
    Record.mapValues (fun keys => keys.items.map JsValue.text) (entriesField fields "into")
  let target ← mappingAt "NOT_A_MAPPING" "Path" doc path index
  let listed := into.flatMap Prod.snd
  match firstRepeated [] listed with
  | some key =>
    report "INVALID_OP" (about "Key \"" key "\" cannot be assigned to multiple split groups") index
  | none =>
    match listed.find? fun key => !Record.has target key with
    | some key =>
      report "PATH_NOT_FOUND" (about "Key \"" key "\" does not exist in mapping at \"" ++ path ++
        js "\"") index
    | none =>
      match into.find? fun e => Record.has target e.1 && decide (e.1 ∉ listed) with
      | some e =>
        report "ALREADY_EXISTS" (about "Group name \"" e.1 "\" already exists in mapping at \"" ++
          path ++ js "\"") index
      | none =>
        throwing (into.foldlM (fun current e =>
          setAtPath current (childPath path e.1) (.obj (gather target e.2)))
          (deleteChildren (deepClone doc) path (distinct listed)))

/-- `foldHandler`: a mapping of one member gives way to the member. -/
def foldHandler : OpHandler := fun doc fields index => do
  let path := textField fields "path"
  let segments := parsePath path
  let target ← mappingAt "NOT_FOLDABLE" "Path" doc path index
  match Record.entries target with
  | [(childKey, childValue)] =>
    match deleteAtPathSegments (deepClone doc) segments with
    | some deleted =>
      throwing (setAtPathSegments deleted (segments.dropLast ++ [.key childKey])
        (deepClone childValue))
    | none => report "NOT_FOLDABLE" (about "Could not delete path \"" path "\"") index
  | entries =>
    report "NOT_FOLDABLE" (about "Mapping at \"" path "\" has " ++ natToString entries.length ++
      js " keys (need exactly 1 to fold)") index

/-- `mergeHandler`: the mappings under the keys become one, the last value of a name counting. -/
def mergeHandler : OpHandler := fun doc fields index => do
  let path := textField fields "path"
  let keys := keysField fields "keys"
  let target ← mappingAt "NOT_A_MAPPING" "Path" doc path index
  checkSiblings target path keys index
  let parts ← keys.mapM fun key =>
    match Record.get target key with
    | some (.obj part) => .ok (Record.entries part)
    | _ =>
      report "NOT_A_MAPPING" (about "Key \"" key "\" in \"" ++ path ++ js "\" is not a mapping")
        index
  throwing (setAtPath (deleteChildren (deepClone doc) path keys)
    (childPath path (textField fields "into")) (.obj (Record.fromEntries parts.flatten)))

/-- `sortHandler`. -/
def sortHandler : OpHandler := fun doc fields index => do
  let path := textField fields "path"
  let sortKey := optionalText fields "by"
  let order := (optionalText fields "order").getD (js "asc")
  let items ← sequenceAt doc path index
  sortKey.forM fun key => checkBy "sort" path key items index
  let compare := fun a b => compareYValues (goesBy sortKey a) (goesBy sortKey b)
  throwing (setAtPath doc path (.arr
    (sortBy (fun a b => if order = js "desc" then -compare a b else compare a b) items)))

/-- The first item of every canonical key. -/
def uniqueBy (sortKey : Option JsString) : List JsString → List JsValue → List JsValue
  | _, [] => []
  | seen, item :: items =>
    let key := canonicalKey (goesBy sortKey item)
    if key ∈ seen then uniqueBy sortKey seen items
    else item :: uniqueBy sortKey (key :: seen) items

/-- `uniqueHandler`. -/
def uniqueHandler : OpHandler := fun doc fields index => do
  let path := textField fields "path"
  let sortKey := optionalText fields "by"
  let items ← sequenceAt doc path index
  sortKey.forM fun key => checkBy "unique" path key items index
  throwing (setAtPath doc path (.arr (uniqueBy sortKey [] items)))

/-- Keep the members of the mapping at the path whose key is chosen. -/
def keepMembers (chosen : List JsString → JsString → Bool) : OpHandler :=
  fun doc fields index => do
    let path := textField fields "path"
    let target ← mappingAt "NOT_A_MAPPING" "Path" doc path index
    throwing (setAtPath doc path
      (.obj ((Record.entries target).filter fun e => chosen (keysField fields "keys") e.1)))

/-- `pickHandler`. -/
def pickHandler : OpHandler := keepMembers fun keys key => decide (key ∈ keys)

/-- `omitHandler`. -/
def omitHandler : OpHandler := keepMembers fun keys key => decide (key ∉ keys)

/-! ## Assertions -/

/-- The type that an assertion names. -/
def typeName : JsValue → JsString
  | .arr _ => js "sequence"
  | .obj _ => js "mapping"
  | _ => js "scalar"

/-- `assertHandler`: the conditions that are given are tested in turn. -/
def assertHandler : OpHandler := fun doc fields index => do
  let path := textField fields "path"
  let value := resolvePath doc path
  let missing : Except HandlerFailure JsValue :=
    report "ASSERTION_FAILED" (about "Path \"" path "\" does not exist") index
  (Record.get fields (js "exists")).forM fun expected =>
    if expected.flag ∧ value = none then
      report "ASSERTION_FAILED" (about "Expected path \"" path "\" to exist but it does not") index
    else if expected.flag = false ∧ value ≠ none then
      report "ASSERTION_FAILED" (about "Expected path \"" path "\" to not exist but it does") index
    else .ok ()
  (Record.get fields (js "equals")).forM fun expected => do
    let actual ← value.elim missing pure
    if canonicalKey actual ≠ canonicalKey expected then
      report "ASSERTION_FAILED" (about "Expected \"" (stringify expected) "\" at path \"" ++ path ++
        js "\" but got \"" ++ stringify actual ++ js "\"") index
    else .ok ()
  (optionalText fields "type").forM fun expected => do
    let actual ← value.elim missing pure
    if typeName actual ≠ expected then
      report "ASSERTION_FAILED" (about "Expected type \"" expected "\" at path \"" ++ path ++
        js "\" but got \"" ++ typeName actual ++ js "\"") index
    else .ok ()
  return doc

end T3x.Yops
