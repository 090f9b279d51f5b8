import T3x.Yops.Printing
import T3x.Yops.Spec

/-!
# Recipes

A recipe compiles an operation into assertions of what the document holds and
writes of what it shall hold, from the values that the document has. It rebuilds
a mapping by assignments to an empty object, where the operation defines members.
-/

namespace T3x.Yops

open Js

/-! ## Objects that assignments fill -/

/-- An object made by `{}` or by a clone, after some assignments. -/
structure Filled where
  /-- The own members. -/
  own : Record JsValue
  /-- The prototype, once one is assigned. -/
  prototype : Option JsValue := none

/-- Whether an assignment of the name finds a property before the accessor that every object
inherits. -/
def Filled.hides (object : Filled) (key : JsString) : Bool :=
  Record.has object.own key || match object.prototype with
    | some .null => true
    | some (.obj members) => Record.has members key
    | _ => false

/-- `object[key] = value`: under `__proto__` the inherited accessor takes an object or null for the
prototype and ignores every other value. -/
def Filled.assign (object : Filled) (key : JsString) (value : JsValue) : Filled :=
  if key ≠ Record.protoName ∨ object.hides key then
    { object with own := Record.setOwn object.own key value }
  else if value = .null ∨ isObject value then { object with prototype := some value }
  else object

/-- The own members of an object after the assignments of some entries. -/
def assignAll (own : Record JsValue) (entries : Record JsValue) : Record JsValue :=
  (entries.foldl (fun object e => object.assign e.1 e.2) (⟨own, none⟩ : Filled)).own

/-! ## The operations of the primitive profile -/

/-- `{ assert: { path, equals } }`. -/
def assertEquals (path : JsString) (value : JsValue) : JsValue :=
  .obj [(js "assert", .obj [(js "path", .str path), (js "equals", value)])]

/-- `{ assert: { path, exists: false } }`. -/
def assertAbsent (path : JsString) : JsValue :=
  .obj [(js "assert", .obj [(js "path", .str path), (js "exists", .bool false)])]

/-- `{ set: { path, value } }`. -/
def setValue (path : JsString) (value : JsValue) : JsValue :=
  .obj [(js "set", .obj [(js "path", .str path), (js "value", value)])]

/-- `{ unset: { path } }`. -/
def unsetKey (path : JsString) : JsValue := .obj [(js "unset", .obj [(js "path", .str path)])]

/-! ## What the compilers assert -/

/-- `assertRecipePath`: an error is the message that is thrown. -/
def assertRecipePath (path : JsString) : Except JsString Unit :=
  if (trim path).length = 0 then .error (js "YOps recipe path must be a non-empty YOps path")
  else .ok ()

/-- `assertDistinctRecipePaths`. -/
def assertDistinctRecipePaths (source destination : JsString) : Except JsString Unit := do
  assertRecipePath source
  assertRecipePath destination
  if source = destination then
    throw (js "YOps recipe source and destination paths must be different")

/-- `assertMoveDestinationIsOutsideSource`. -/
def assertMoveDestinationIsOutsideSource (source destination : JsString) : Except JsString Unit :=
  if (source ++ [unit '/']).isPrefixOf destination then
    .error (js "YOps move recipe destination must not be inside the source subtree")
  else .ok ()

/-- `assertRecipeKey`. -/
def assertRecipeKey (key : JsString) (label : String) : Except JsString Unit :=
  if (trim key).length = 0 then .error (js label ++ js " must be a non-empty mapping key")
  else .ok ()

/-- `assertMappingValue`. -/
def assertMappingValue (value : JsValue) (label : JsString) : Except JsString (Record JsValue) :=
  match value with
  | .obj map => .ok map
  | _ => .error (label ++ js " must be a mapping value")

/-- `assertSequenceValue`. -/
def assertSequenceValue (value : JsValue) (label : JsString) : Except JsString (List JsValue) :=
  match value with
  | .arr items => .ok items
  | _ => .error (label ++ js " must be a sequence value")

/-- `mappingPathReplacement`. -/
def mappingPathReplacement (path : JsString) (base target : JsValue) : List JsValue :=
  if canonicalJson base = canonicalJson target then []
  else [assertEquals path base, setValue path target]

/-- Every item has to be a mapping with the key that the operation goes by. -/
def assertSequenceKey (op : String) (item : JsValue) (sortKey path : JsString) :
    Except JsString Unit :=
  match item with
  | .obj map =>
    if Record.has map sortKey then .ok ()
    else .error (about (op ++ " by \"") sortKey "\" requires every item at \"" ++ path ++
      js "\" to contain that key")
  | _ => .error (about (op ++ " by \"") sortKey "\" requires every item at \"" ++ path ++
      js "\" to be a mapping")

/-- `assertSequenceSortKey`. -/
def assertSequenceSortKey : JsValue → JsString → JsString → Except JsString Unit :=
  assertSequenceKey "sort"

/-- `assertSequenceUniqueKey`. -/
def assertSequenceUniqueKey : JsValue → JsString → JsString → Except JsString Unit :=
  assertSequenceKey "unique"

/-- `assertMappingKeyList`: no key is listed twice, and each is a member. -/
def assertMappingKeyList (keys : List JsString) (base : Record JsValue) (action : String) :
    Except JsString Unit := do
  let _ ← keys.foldlM (fun (out : List JsString) key => do
    assertRecipeKey key "key"
    if key ∈ out then
      throw (js ("Duplicate " ++ (if action = "pick" then "picked" else "omitted") ++ " key: ") ++
        key)
    if ¬ Record.has base key then throw (js ("Cannot " ++ action ++ " missing key: ") ++ key)
    return key :: out) []

/-! ## The compilers -/

/-- `compileYOpsPathClone`, with nothing for an absent destination. -/
def compileYOpsPathClone (source destination : JsString) (value : JsValue)
    (there : Option JsValue) : Except JsString (List JsValue) := do
  assertDistinctRecipePaths source destination
  if there ≠ none then throw (js "YOps clone recipe destination must be absent")
  return [assertEquals source value, assertAbsent destination, setValue destination value]

/-- `compileYOpsPathMove`. -/
def compileYOpsPathMove (source destination : JsString) (value : JsValue)
    (there : Option JsValue) : Except JsString (List JsValue) := do
  assertDistinctRecipePaths source destination
  assertMoveDestinationIsOutsideSource source destination
  let cloned ← compileYOpsPathClone source destination value there
  return cloned ++ [unsetKey source]

/-- `compileYOpsMappingKeyRename`. -/
def compileYOpsMappingKeyRename (path : JsString) (value : JsValue) (oldKey newKey : JsString) :
    Except JsString (List JsValue) := do
  assertRecipePath path
  assertRecipeKey oldKey "from"
  assertRecipeKey newKey "to"
  if oldKey = newKey then return []
  let base ← assertMappingValue value (js "base")
  if ¬ Record.has base oldKey then throw (js "Cannot rename missing key: " ++ oldKey)
  if Record.has base newKey then
    throw (js "Cannot rename " ++ oldKey ++ js " to existing key: " ++ newKey)
  let target := assignAll [] ((Record.entries base).map fun e =>
    (if e.1 = oldKey then newKey else e.1, e.2))
  return [assertEquals path value, setValue path (.obj target)]

/-- The members of a mapping under the given keys, one after the other. -/
def membersAt (base : Record JsValue) (keys : List JsString) : Record JsValue :=
  keys.map fun key => (key, (Record.get base key).getD .null)

/-- The members of a mapping under all but the given keys. -/
def membersBut (base : Record JsValue) (keys : List JsString) : Record JsValue :=
  (Record.entries base).filter fun e => decide (e.1 ∉ keys)

/-- `compileYOpsMappingKeyPick`. -/
def compileYOpsMappingKeyPick (path : JsString) (value : JsValue) (keys : List JsString) :
    Except JsString (List JsValue) := do
  assertRecipePath path
  let base ← assertMappingValue value (js "base")
  assertMappingKeyList keys base "pick"
  let target := JsValue.obj (assignAll [] (membersAt base keys))
  if canonicalJson target = canonicalJson value then return []
  return [assertEquals path value, setValue path target]

/-- `compileYOpsSequenceAppend`. -/
def compileYOpsSequenceAppend (path : JsString) (value item : JsValue) :
    Except JsString (List JsValue) := do
  assertRecipePath path
  let base ← assertSequenceValue value (js "base")
  return [assertEquals path value, setValue path (.arr (base ++ [item]))]

/-- `compileYOpsMappingKeyOmit`. -/
def compileYOpsMappingKeyOmit (path : JsString) (value : JsValue) (keys : List JsString) :
    Except JsString (List JsValue) := do
  assertRecipePath path
  let base ← assertMappingValue value (js "base")
  if keys.length = 0 then return []
  assertMappingKeyList keys base "omit"
  return [assertEquals path value, setValue path (.obj (assignAll [] (membersBut base keys)))]

/-- `compileYOpsMappingPopulate`. -/
def compileYOpsMappingPopulate (path : JsString) (value : JsValue) (values : Record JsValue) :
    Except JsString (List JsValue) := do
  assertRecipePath path
  let base ← assertMappingValue value (js "base")
  values.forM fun e => assertRecipeKey e.1 "populate key"
  return mappingPathReplacement path value (.obj (assignAll base values))

/-- `compileYOpsMappingNest`. -/
def compileYOpsMappingNest (path : JsString) (value : JsValue) (keys : List JsString)
    (under : JsString) : Except JsString (List JsValue) := do
  assertRecipePath path
  assertRecipeKey under "under"
  let base ← assertMappingValue value (js "base")
  assertMappingKeyList keys base "pick"
  if keys.length = 0 then return []
  if Record.has base under ∧ under ∉ keys then
    throw (js "Cannot nest into existing key: " ++ under)
  let nested := JsValue.obj (assignAll [] (membersAt base keys))
  let target := JsValue.obj (assignAll [] (membersBut base keys ++ [(under, nested)]))
  return mappingPathReplacement path value target

/-- `compileYOpsMappingSplit`. -/
def compileYOpsMappingSplit (path : JsString) (value : JsValue) (into : Record (List JsString)) :
    Except JsString (List JsValue) := do
  assertRecipePath path
  let base ← assertMappingValue value (js "base")
  let keys := into.flatMap Prod.snd
  let _ ← keys.foldlM (fun (seen : List JsString) key => do
    assertRecipeKey key "split source key"
    if key ∈ seen then throw (js "Key cannot be assigned to multiple split groups: " ++ key)
    if ¬ Record.has base key then throw (js "Cannot split missing key: " ++ key)
    return key :: seen) []
  into.forM fun e => do
    assertRecipeKey e.1 "split group name"
    if Record.has base e.1 ∧ e.1 ∉ keys then
      throw (js "Cannot split into existing group name: " ++ e.1)
  let groups := Record.mapValues (fun keys => JsValue.obj (assignAll [] (membersAt base keys))) into
  let target := JsValue.obj (assignAll [] (membersBut base keys ++ groups))
  return mappingPathReplacement path value target

/-- `compileYOpsMappingFold`. -/
def compileYOpsMappingFold (path parentPath : JsString) (value : JsValue) :
    Except JsString (List JsValue) := do
  assertRecipePath path
  assertRecipePath parentPath
  let parentBase ← assertMappingValue value (js "parentBase")
  match (parsePath path).getLast? with
  | some (.key wrapper) =>
    match Record.get parentBase wrapper with
    | none => throw (js "Cannot fold missing key: " ++ wrapper)
    | some wrapped =>
      let folded ← assertMappingValue wrapped (js "folded mapping")
      match Record.entries folded with
      | [child] =>
        let target := JsValue.obj (assignAll [] (membersBut parentBase [wrapper] ++ [child]))
        return mappingPathReplacement parentPath value target
      | children => throw (about "Folded mapping at \"" path "\" has " ++
          natToString children.length ++ js " keys; expected exactly one")
  | _ => throw (js "YOps fold recipe path must end in a mapping key: " ++ path)

/-- `compileYOpsMappingMerge`. -/
def compileYOpsMappingMerge (path : JsString) (value : JsValue) (keys : List JsString)
    (into : JsString) : Except JsString (List JsValue) := do
  assertRecipePath path
  assertRecipeKey into "into"
  let base ← assertMappingValue value (js "base")
  assertMappingKeyList keys base "pick"
  let parts ← keys.mapM fun key =>
    (assertMappingValue ((Record.get base key).getD .null) (js "merge source " ++ key)).map
      Record.entries
  let merged := JsValue.obj (assignAll [] parts.flatten)
  let target := JsValue.obj (assignAll [] (membersBut base keys ++ [(into, merged)]))
  return mappingPathReplacement path value target

/-- `compileYOpsSequenceSort`. -/
def compileYOpsSequenceSort (path : JsString) (value : JsValue) (sortKey order : Option JsString) :
    Except JsString (List JsValue) := do
  assertRecipePath path
  let base ← assertSequenceValue value (js "base")
  sortKey.forM fun key => do
    assertRecipeKey key "sort key"
    base.forM fun item => assertSequenceSortKey item key path
  let compare := fun a b => compareYValues (goesBy sortKey a) (goesBy sortKey b)
  let target := sortBy (fun a b => if order.getD (js "asc") = js "desc" then -compare a b
    else compare a b) base
  return mappingPathReplacement path value (.arr target)

/-- `compileYOpsSequenceUnique`. -/
def compileYOpsSequenceUnique (path : JsString) (value : JsValue) (sortKey : Option JsString) :
    Except JsString (List JsValue) := do
  assertRecipePath path
  let base ← assertSequenceValue value (js "base")
  sortKey.forM fun key => do
    assertRecipeKey key "unique key"
    base.forM fun item => assertSequenceUniqueKey item key path
  return mappingPathReplacement path value (.arr (uniqueBy sortKey [] base))

/-! ## From an operation to its recipe -/

/-- `YOpsRecipeInvocation`: a recipe with its input, the document's own values. -/
inductive YOpsRecipe where
  | clone (source destination : JsString) (value : JsValue)
  | move (source destination : JsString) (value : JsValue)
  | rename (path : JsString) (base : JsValue) (oldKey newKey : JsString)
  | append (path : JsString) (base item : JsValue)
  | pick (path : JsString) (base : JsValue) (keys : List JsString)
  | omit (path : JsString) (base : JsValue) (keys : List JsString)
  | populate (path : JsString) (base : JsValue) (values : Record JsValue)
  | nest (path : JsString) (base : JsValue) (keys : List JsString) (under : JsString)
  | split (path : JsString) (base : JsValue) (into : Record (List JsString))
  | fold (path parentPath : JsString) (parentBase : JsValue)
  | merge (path : JsString) (base : JsValue) (keys : List JsString) (into : JsString)
  | sort (path : JsString) (base : JsValue) (sortKey order : Option JsString)
  | unique (path : JsString) (base : JsValue) (sortKey : Option JsString)

/-- `compileYOpsRecipe`. -/
def compileYOpsRecipe : YOpsRecipe → Except JsString (List JsValue)
  | .clone source destination value => compileYOpsPathClone source destination value none
  | .move source destination value => compileYOpsPathMove source destination value none
  | .rename path base oldKey newKey => compileYOpsMappingKeyRename path base oldKey newKey
  | .append path base item => compileYOpsSequenceAppend path base item
  | .pick path base keys => compileYOpsMappingKeyPick path base keys
  | .omit path base keys => compileYOpsMappingKeyOmit path base keys
  | .populate path base values => compileYOpsMappingPopulate path base values
  | .nest path base keys under => compileYOpsMappingNest path base keys under
  | .split path base into => compileYOpsMappingSplit path base into
  | .fold path parentPath parentBase => compileYOpsMappingFold path parentPath parentBase
  | .merge path base keys into => compileYOpsMappingMerge path base keys into
  | .sort path base sortKey order => compileYOpsSequenceSort path base sortKey order
  | .unique path base sortKey => compileYOpsSequenceUnique path base sortKey

/-- `splitLastKeyPath`. -/
def splitLastKeyPath (path : JsString) : Option (JsString × JsString) :=
  match (parsePath path).getLast? with
  | some (.key key) => some (formatPathSegments (parsePath path).dropLast, key)
  | _ => none

/-- The recipe between two paths, if the source is there and the destination is not. -/
def transferRecipe (make : JsString → JsString → JsValue → YOpsRecipe) (doc : JsValue)
    (fields : Record JsValue) : Option YOpsRecipe := do
  let value ← resolvePath doc (textField fields "from")
  if resolvePath doc (textField fields "to") ≠ none then none
  else some (make (textField fields "from") (textField fields "to") value)

/-- The recipe for what is at the path of the operation. -/
def recipeAt (make : JsString → JsValue → Record JsValue → YOpsRecipe) (doc : JsValue)
    (fields : Record JsValue) : Option YOpsRecipe := do
  let base ← resolvePath doc (textField fields "path")
  some (make (textField fields "path") base fields)

/-- The recipe for what is at the path of the operation, if the path is not empty. -/
def recipeBelow (make : JsString → JsValue → Record JsValue → YOpsRecipe) (doc : JsValue)
    (fields : Record JsValue) : Option YOpsRecipe :=
  if (textField fields "path").length = 0 then none else recipeAt make doc fields

/-- The recipe for the mapping that holds the member at the path of the operation, if it is not
the document. -/
def parentRecipe (make : JsString → JsString → JsValue → Record JsValue → YOpsRecipe)
    (doc : JsValue) (fields : Record JsValue) : Option YOpsRecipe := do
  let (parentPath, key) ← splitLastKeyPath (textField fields "path")
  if parentPath.length = 0 then none
  else do
    let base ← resolvePath doc parentPath
    some (make parentPath key base fields)

/-- The recipes for the operations that have one, in the order in which they are looked for. -/
def recipeMakers : List (String × (JsValue → Record JsValue → Option YOpsRecipe)) :=
  [("clone", transferRecipe .clone), ("move", transferRecipe .move),
    ("rename", parentRecipe fun parentPath key base fields =>
      .rename parentPath base key (textField fields "to")),
    ("append", recipeAt fun path base fields => .append path base (valueField fields "value")),
    ("pick", recipeBelow fun path base fields => .pick path base (keysField fields "keys")),
    ("omit", recipeBelow fun path base fields => .omit path base (keysField fields "keys")),
    ("populate", recipeAt fun path base fields =>
      .populate path base (entriesField fields "values")),
    ("nest", recipeBelow fun path base fields =>
      .nest path base (keysField fields "keys") (textField fields "under")),
    ("split", recipeBelow fun path base fields => .split path base
      (Record.mapValues (fun keys => keys.items.map JsValue.text) (entriesField fields "into"))),
    ("fold", parentRecipe fun parentPath _ base fields =>
      .fold (textField fields "path") parentPath base),
    ("merge", recipeBelow fun path base fields =>
      .merge path base (keysField fields "keys") (textField fields "into")),
    ("sort", recipeAt fun path base fields =>
      .sort path base (optionalText fields "by") (optionalText fields "order")),
    ("unique", recipeAt fun path base fields => .unique path base (optionalText fields "by"))]

/-- `createYOpsRecipeInvocationForNativeOperation`. -/
def createYOpsRecipeInvocationForNativeOperation (base : JsValue) (op : Record JsValue) :
    Option YOpsRecipe := do
  let maker ← recipeMakers.find? fun maker => Record.has op (js maker.1)
  match Record.get op (js maker.1) with
  | some (.obj fields) => maker.2 base fields
  | _ => none

end T3x.Yops
