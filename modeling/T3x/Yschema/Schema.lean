import T3x.Js.Shape
import T3x.Js.Equal

/-!
# Schemas of documents

A schema declares the nodes of a document, their slots with the values that these
take, the relations between nodes, and rules. A node is read from its children
up; looking a child up goes by its own key alone.
-/

namespace T3x.Yschema

open Js

/-! ## Keys and paths -/

/-- `[a-z]`. -/
def isLower (u : UInt16) : Bool := 97 ≤ u && u ≤ 122

/-- `KEY_RE`: `/^[a-z][a-z0-9_]*$/`. -/
def isKey : JsString → Bool
  | [] => false
  | u :: rest => isLower u && rest.all fun v => isLower v || isDigit v || v == unit '_'

/-- `PATH_RE`: keys between slashes. -/
def isPath (path : JsString) : Bool := (split (unit '/') path).all isKey

/-- `KEY_RE.source`. -/
def keySource : JsString := js "^[a-z][a-z0-9_]*$"

/-- `PATH_RE.source`. -/
def pathSource : JsString := js "^[a-z][a-z0-9_]*(\\/[a-z][a-z0-9_]*)*$"

/-- Whether a pattern of paths ends in `/*`. -/
def endsInStar (pattern : JsString) : Bool := (js "/*").isSuffixOf pattern

/-- `pattern.endsWith('/*') ? pattern.slice(0, -2) : pattern`. -/
def patternPath (pattern : JsString) : JsString :=
  if endsInStar pattern then pattern.take (pattern.length - 2) else pattern

/-- `Number.isInteger(n)`. -/
def isInteger (n : JsNumber) : Bool := decide (n.toRat.den = 1)

/-! ## Slots -/

/-- `ContentKind`. -/
inductive ContentKind where
  | prose
  | structured
  deriving DecidableEq

/-- The word for a kind of content. -/
def ContentKind.text : ContentKind → JsString
  | .prose => js "prose"
  | .structured => js "structured"

/-- `SlotType`. -/
inductive SlotType where
  | string
  | number
  | integer
  | boolean
  | array
  | object
  | null
  deriving DecidableEq

/-- `SLOT_TYPES`. -/
def SlotType.all : List SlotType :=
  [.string, .number, .integer, .boolean, .array, .object, .null]

/-- The word for a type. -/
def SlotType.text : SlotType → JsString
  | .string => js "string"
  | .number => js "number"
  | .integer => js "integer"
  | .boolean => js "boolean"
  | .array => js "array"
  | .object => js "object"
  | .null => js "null"

/-- `YOpsHint`. -/
structure YOpsHint where
  /-- The operation to prefer. -/
  preferredOp : Option JsString := none
  /-- The path to write. -/
  path : Option JsString := none
  /-- The slot to write. -/
  slot : Option JsString := none

/-- `SlotSchema`. -/
structure SlotSchema where
  /-- The type of the value. -/
  type : Option SlotType := none
  /-- The values to choose from. -/
  enum : Option (List JsValue) := none
  /-- The one value. -/
  const : Option JsValue := none
  /-- The value to propose where there is none. -/
  default : Option JsValue := none
  /-- Values to show. -/
  examples : Option (List JsValue) := none
  /-- A description. -/
  description : Option JsString := none
  /-- What to write. -/
  contentGuidance : Option JsString := none
  /-- The question to ask for a missing value. -/
  gapQuestion : Option JsString := none
  /-- The kind of content. -/
  contentKind : Option ContentKind := none
  /-- The least number. -/
  minimum : Option JsNumber := none
  /-- The greatest number. -/
  maximum : Option JsNumber := none
  /-- The least length. -/
  minLength : Option JsNumber := none
  /-- The greatest length. -/
  maxLength : Option JsNumber := none
  /-- The pattern of a text. -/
  pattern : Option JsString := none
  /-- The format of a text. -/
  format : Option JsString := none
  /-- The greatest number of words. -/
  maxWords : Option JsNumber := none
  /-- A value needs evidence. -/
  provenanceRequired : Option Bool := none
  /-- How to write the slot. -/
  yopsHint : Option YOpsHint := none

/-! ## Nodes -/

/-- The members of a node but for its children. -/
structure NodeHead where
  /-- The node has to be there. -/
  required : Option Bool := none
  /-- The node holds items under keys of their own. -/
  repeated : Option Bool := none
  /-- A description. -/
  description : Option JsString := none
  /-- What to write. -/
  contentGuidance : Option JsString := none
  /-- The kind of content. -/
  contentKind : Option ContentKind := none
  /-- The slots. -/
  slots : Option (Record SlotSchema) := none
  /-- The slots that have to be there. -/
  requiredSlots : Option (List JsString) := none

/-- The children of a node: any, or the declared ones. -/
inductive Children (N : Type) where
  | any
  | declared (nodes : List (JsString × N))

/-- The declared children. -/
def Children.nodes {N : Type} : Option (Children N) → Record N
  | some (.declared nodes) => nodes
  | _ => []

/-- `NodeSchema`. -/
inductive NodeSchema where
  | mk (head : NodeHead) (children : Option (Children NodeSchema))

namespace NodeSchema

/-- The members of the node but for its children. -/
def head : NodeSchema → NodeHead
  | .mk head _ => head

/-- The children of the node. -/
def children : NodeSchema → Option (Children NodeSchema)
  | .mk _ children => children

/-- The declared child under a key. -/
def child (node : NodeSchema) (key : JsString) : Option NodeSchema :=
  Record.get (Children.nodes node.children) key

/-- The slot under a key. -/
def slot (node : NodeSchema) (key : JsString) : Option SlotSchema :=
  Record.get (node.head.slots.getD []) key

mutual

/-- Read a node from its children up. -/
def fold {T : Type} (alg : NodeHead → Option (Children T) → T) : NodeSchema → T
  | .mk head none => alg head none
  | .mk head (some .any) => alg head (some .any)
  | .mk head (some (.declared nodes)) => alg head (some (.declared (foldNodes alg nodes)))

/-- Read the nodes of a record. -/
def foldNodes {T : Type} (alg : NodeHead → Option (Children T) → T) :
    List (JsString × NodeSchema) → List (JsString × T)
  | [] => []
  | (key, node) :: nodes => (key, fold alg node) :: foldNodes alg nodes

end

/-- Reading the nodes of a record is reading each of them. -/
theorem foldNodes_eq_mapValues {T : Type} (alg : NodeHead → Option (Children T) → T)
    (nodes : Record NodeSchema) : foldNodes alg nodes = Record.mapValues (fold alg) nodes := by
  induction nodes with
  | nil => rfl
  | cons e nodes ih =>
    obtain ⟨key, node⟩ := e
    rw [foldNodes, ih]
    rfl

mutual

/-- The induction over nodes, from their declared children. -/
theorem induct {P : NodeSchema → Prop}
    (mk : ∀ head children, (∀ e ∈ Children.nodes children, P e.2) → P (.mk head children)) :
    ∀ node, P node
  | .mk head none => mk head none fun _ h => absurd h List.not_mem_nil
  | .mk head (some .any) => mk head (some .any) fun _ h => absurd h List.not_mem_nil
  | .mk head (some (.declared nodes)) => mk head (some (.declared nodes)) (induct_nodes mk nodes)

/-- The induction over the nodes of a record. -/
theorem induct_nodes {P : NodeSchema → Prop}
    (mk : ∀ head children, (∀ e ∈ Children.nodes children, P e.2) → P (.mk head children)) :
    ∀ nodes : List (JsString × NodeSchema), ∀ e ∈ nodes, P e.2
  | [], _, h => absurd h List.not_mem_nil
  | (key, node) :: nodes, e, h => by
    rcases List.mem_cons.mp h with h | h
    · exact h ▸ induct mk node
    · exact induct_nodes mk nodes e h

end

end NodeSchema

/-- The children of a node, each mapped. -/
def mapChildren {N M : Type} (f : N → M) : Option (Children N) → Option (Children M)
  | none => none
  | some .any => some .any
  | some (.declared nodes) => some (.declared (Record.mapValues f nodes))

/-- The declared children that are mapped. -/
@[simp] theorem nodes_mapChildren {N M : Type} (f : N → M) (children : Option (Children N)) :
    Children.nodes (mapChildren f children) = Record.mapValues f (Children.nodes children) := by
  match children with
  | none => rfl
  | some .any => rfl
  | some (.declared nodes) => rfl

/-- Mapping leaves whether there are children. -/
@[simp] theorem isSome_mapChildren {N M : Type} (f : N → M) (children : Option (Children N)) :
    (mapChildren f children).isSome = children.isSome := by
  match children with
  | none => rfl
  | some .any => rfl
  | some (.declared nodes) => rfl

/-- A node is read of its head and its children that are read. -/
theorem NodeSchema.fold_mk {T : Type} (alg : NodeHead → Option (Children T) → T) (head : NodeHead)
    (children : Option (Children NodeSchema)) :
    fold alg (.mk head children) = alg head (mapChildren (fold alg) children) := by
  match children with
  | none => rfl
  | some .any => rfl
  | some (.declared nodes) => rw [fold, foldNodes_eq_mapValues, mapChildren]

/-! ## Relations and rules -/

/-- `RelationTypeSchema`. -/
structure RelationTypeSchema where
  /-- Where the relation may begin: a path, or `path/*`. -/
  «from» : JsString
  /-- Where the relation may end. -/
  «to» : JsString
  /-- A description. -/
  description : Option JsString := none
  /-- What to write. -/
  contentGuidance : Option JsString := none
  /-- Relations of the type form no cycle. -/
  acyclic : Option Bool := none

/-- `ReservedRuleSchema`. -/
structure ReservedRuleSchema where
  /-- The name of the rule. -/
  id : JsString
  /-- A description. -/
  description : Option JsString := none

/-- `RequiredRelationRuleSchema`. -/
structure RequiredRelationRuleSchema where
  /-- The name of the rule. -/
  id : JsString
  /-- The type of the relation. -/
  relationType : JsString
  /-- Where the relation begins. -/
  «from» : JsString
  /-- Where the relation ends. -/
  «to» : JsString
  /-- A description. -/
  description : Option JsString := none

/-- `YSchemaRuleSchema`. -/
inductive YSchemaRuleSchema where
  | reserved (rule : ReservedRuleSchema)
  | requiredRelation (rule : RequiredRelationRuleSchema)

/-- `YSchema`. -/
structure YSchema where
  /-- The name of the schema. -/
  name : JsString
  /-- What is not declared is an error. -/
  strict : Option Bool := none
  /-- The nodes. -/
  nodes : Record NodeSchema
  /-- The rules. -/
  rules : Option (List YSchemaRuleSchema) := none
  /-- The version, a text or a number. -/
  version : Option JsValue := none
  /-- A description. -/
  description : Option JsString := none
  /-- The types of relations. -/
  relationTypes : Option (Record RelationTypeSchema) := none

/-- The schema as a node whose children are the nodes of the schema. -/
def YSchema.root (schema : YSchema) : NodeSchema := .mk {} (some (.declared schema.nodes))

end T3x.Yschema
