import T3x.Yschema.ValidateTree

/-!
# Where findings come from

The validation walks from mapping to mapping. A place is what the schema says of a
mapping: the body of a node, or the items of a repeated node. Every finding in a
document is one of a single mapping that the walk reaches, and there it is about a
single key: the slot of that key, the child of that key, or the key itself.
-/

namespace T3x.Yschema

open Js

/-! ## Places -/

/-- What the schema says of a mapping. -/
inductive Place where
  | body (node : NodeSchema)
  | items (node : NodeSchema)

/-- The place of a mapping that stands for a node. -/
def NodeSchema.place (node : NodeSchema) : Place :=
  if node.head.repeated = some true then .items node else .body node

/-- The node has to be a mapping. -/
def NodeSchema.needsMapping (node : NodeSchema) : Bool :=
  node.head.repeated == some true || node.head.slots.isSome || node.children.isSome

/-- Whether a value is a mapping. -/
def isMapping : JsValue → Bool
  | .obj _ => true
  | _ => false

namespace Place

/-- The slot of a key. -/
def slot : Place → JsString → Option SlotSchema
  | .body node, key => node.slot key
  | .items _, _ => none

/-- The place of a mapping under a key. -/
def next : Place → JsString → Option Place
  | .body node, key => (node.child key).map NodeSchema.place
  | .items node, _ => some (.body node)

/-- Whether a value may stand under a key, as far as it has to be a mapping there. -/
def takes : Place → JsString → JsValue → Bool
  | .body node, key, value => (node.child key).all fun child => isMapping value || !child.needsMapping
  | .items _, key, value => isKey key && isMapping value

/-- Whether the key is declared, or any key may stand there. -/
def allows (strict : Bool) : Place → JsString → Bool
  | .body node, key =>
    !strict || (match node.children with
      | some .any => true
      | _ => false) || Record.has (node.head.slots.getD []) key ||
      Record.has (Children.nodes node.children) key
  | .items _, _ => true

/-- The mappings that the walk reaches along some keys, each with its place. -/
def walk : List JsString → Place → Record JsValue → Option (Place × Record JsValue)
  | [], place, members => some (place, members)
  | key :: keys, place, members =>
    match place.next key, Record.get members key with
    | some next, some (.obj inner) => walk keys next inner
    | _, _ => none

/-- One step of the walk. -/
theorem walk_cons {place : Place} {members : Record JsValue} {key : JsString}
    {keys : List JsString} {r : Place × Record JsValue} :
    walk (key :: keys) place members = some r ↔
      ∃ next inner, place.next key = some next ∧ Record.get members key = some (.obj inner) ∧
        walk keys next inner = some r := by
  rw [walk]
  constructor
  · intro h
    split at h
    · next next inner hnext hget => exact ⟨next, inner, hnext, hget, h⟩
    · cases h
  · rintro ⟨next, inner, hnext, hget, hwalk⟩
    rw [hnext, hget]
    exact hwalk

end Place

/-! ## The findings in one mapping -/

section

variable (regExpTest : JsString → JsString → Bool) (input : ValidationInput)

/-- What the validation finds in a value as a child node, apart from what it finds in a mapping. -/
def childFindings (node : NodeSchema) (path : JsString) (value : Option JsValue) : List Finding :=
  match value with
  | none =>
    if node.head.required = some true then
      [.fix (defineFix path), .gap ⟨"REQUIRED_NODE_MISSING", path,
        path ++ js " is required before commit.", none, [defineFixId path]⟩]
    else []
  | some (.obj _) => []
  | some value =>
    if node.head.repeated = some true then
      [mappingError path (path ++ js " must be an object of repeated items.") value]
    else demand (!(node.head.slots.isSome || node.children.isSome))
      (mappingError path (path ++ js " must be an object.") value)

/-- What the validation finds in one item of a repeated node, apart from what it finds in a
mapping. -/
def itemFindings (path key : JsString) (value : JsValue) : List Finding :=
  demand (isKey key) (.error ⟨"INVALID_REPEATED_ITEM_KEY", path,
    path ++ js " must use a machine-safe repeated item key.",
    some [(js "keyPattern", .str keySource)]⟩) ++
  demand (isMapping value) (mappingError path (path ++ js " must be an object.") value)

namespace Place

/-- What the validation finds in one mapping, apart from the mappings in it. -/
def own : Place → JsString → Record JsValue → List Finding
  | .body node, path, members =>
    validateSlots regExpTest input path node.head members ++
    (Record.entries (Children.nodes node.children)).flatMap (fun (key, child) =>
      childFindings child (joinPath path key) (Record.get members key)) ++
    validateUnexpectedKeys input path node.head node.children members
  | .items _, path, members =>
    (Record.entries members).flatMap fun (key, value) =>
      itemFindings (joinPath path key) key value

/-- What the validation finds in one mapping and the mappings in it. -/
def found : Place → JsString → Record JsValue → List Finding
  | .body (.mk head children), path, members =>
    validateNodeBody regExpTest input head
      (match children with
        | none => none
        | some .any => some .any
        | some (.declared nodes) =>
          some (.declared (Record.mapValues (validateNode regExpTest input) nodes)))
      path members
  | .items (.mk head children), path, members =>
    validateItems regExpTest input head
      (match children with
        | none => none
        | some .any => some .any
        | some (.declared nodes) =>
          some (.declared (Record.mapValues (validateNode regExpTest input) nodes)))
      path members

end Place

end

end T3x.Yschema
