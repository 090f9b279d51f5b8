import T3x.Yops.Sequential

/-!
# The nodes of a draft document

The members of the mappings of a document are its nodes, each at a path of its
own. A lineage says at which path a node stood from which revision on and up to
which. After each operation the entries of a renamed or moved node and of those
below it are closed and opened again at the new paths, the entries of paths that
are gone are closed, and the paths without an entry get one for a new node.
-/

namespace T3x.Drafts

open Js T3x.Yops

/-! ## Documents -/

/-- `isMapping`. -/
def isMapping : JsValue → Bool
  | .obj _ => true
  | _ => false

/-- `mappingGet(value, path)`. -/
def mappingGet (value : JsValue) (path : JsString) : Option JsValue := resolvePath value path

/-- `yValuesEqual(left, right)` of values that are there. -/
def yValuesEqual (left right : JsValue) : Bool := decide (canonicalJson left = canonicalJson right)

/-- `applyDraftYOps`: the document or the message of the error. -/
def applyDraftYOps (issueMessage : JsValue → JsString) (document : JsValue)
    (operations : List JsValue) : Except JsString JsValue :=
  let result := applyYOps issueMessage document (operations.map deepClone)
  if result.ok then .ok result.doc
  else .error ((result.error.map YopsError.message).getD (js "YOps apply failed"))

/-- A key as a segment of a path: quoted if it is empty or holds one of `/[]="\`. -/
def pathSegment (key : JsString) : JsString :=
  if key = [] ∨ key.any fun u => (js "/[]=\"\\").contains u then quote key else key

/-- The paths of a value below a prefix, with whether the value is a mapping. -/
structure PathsReading where
  /-- The value is a mapping. -/
  mapping : Bool
  /-- The paths below a prefix. -/
  paths : JsString → List JsString

/-- The paths of the members of a mapping, each followed by those below it. -/
def memberPaths (readings : Record PathsReading) (base : JsString) : List JsString :=
  (sortBy compareCodeUnits (Record.keys readings)).flatMap fun key =>
    let path := if base = [] then pathSegment key else base ++ unit '/' :: pathSegment key
    path :: match Record.get readings key with
      | some reading => if reading.mapping then reading.paths path else []
      | none => []

/-- Read a value from its members up. -/
def pathsReading : JsValue → PathsReading :=
  let leaf : PathsReading := ⟨false, fun base => [base]⟩
  JsValue.fold
    { null := leaf
      bool := fun _ => leaf
      num := fun _ => leaf
      str := fun _ => leaf
      arr := fun _ => leaf
      obj := fun readings => ⟨true, memberPaths readings⟩ }

/-- `documentPaths(value)`. -/
def documentPaths (value : JsValue) : List JsString := (pathsReading value).paths []

/-- `nodeIdForPath(path)`. -/
def nodeIdForPath (path : JsString) : JsString := js "node:" ++ path

/-! ## Lineage -/

/-- `DraftNodeLineage`. -/
structure DraftNodeLineage where
  /-- The node. -/
  nodeId : JsString
  /-- The path at which it stands. -/
  path : JsString
  /-- The revision from which on it stands there. -/
  fromRevision : ℕ
  /-- The revision from which on it does not, if there is one. -/
  toRevision : Option ℕ
  deriving DecidableEq

/-- `entry.toRevision === null`. -/
def DraftNodeLineage.isOpen (entry : DraftNodeLineage) : Bool := entry.toRevision.isNone

/-- The entry, closed at a revision. -/
def DraftNodeLineage.close (revision : ℕ) (entry : DraftNodeLineage) : DraftNodeLineage :=
  { entry with toRevision := some revision }

/-- A segment as `renameTarget` writes it. -/
def segmentText : PathSegment → JsString
  | .key value => quote value
  | .index value => js "[" ++ indexText value ++ js "]"
  | .match key value => js "[" ++ key ++ js "=" ++ value ++ js "]"

/-- `renameTarget(path, key)`. -/
def renameTarget (path key : JsString) : JsString :=
  join (unit '/') ((parsePath path).dropLast.map segmentText ++ [quote key])

/-- `samePath(a, b)`: the texts of the segments are the same. -/
def samePath (a b : JsString) : Bool :=
  decide ((parsePath a).map PathSegment.json = (parsePath b).map PathSegment.json)

/-- `pathExists(paths, target)`: the path itself. -/
def pathExists (paths : List JsString) (target : JsString) : Option JsString :=
  paths.find? fun path => samePath path target

/-- What an operation renames or moves, and the path to which it does. -/
def relocation (op : JsValue) : Option (JsString × JsString) :=
  if op.hasMember "rename" then
    let path := ((op.member "rename").member "path").text
    some (path, renameTarget path ((op.member "rename").member "to").text)
  else if op.hasMember "move" then
    some (((op.member "move").member "from").text, ((op.member "move").member "to").text)
  else none

/-- Whether an open entry stands at a path or below it. -/
def standsBelow (path : JsString) (entry : DraftNodeLineage) : Bool :=
  entry.isOpen && (decide (entry.path = path) || (path ++ [unit '/']).isPrefixOf entry.path)

/-- One entry, the one at a position, goes to its new path: another open entry there is
closed, and so is the entry itself. -/
def relocateEntry (source target : JsString) (revision : ℕ) (lineage : List DraftNodeLineage)
    (entry : DraftNodeLineage × ℕ) : List DraftNodeLineage :=
  let path := target ++ entry.1.path.drop source.length
  ((lineage.mapIdx fun i e =>
      if i ≠ entry.2 ∧ e.isOpen ∧ e.path = path then e.close revision else e).set entry.2
    (entry.1.close revision)) ++ [⟨entry.1.nodeId, path, revision, none⟩]

/-- The open entries at a path and below it go to another path, one after the other. -/
def relocate (source target : JsString) (revision : ℕ) (lineage : List DraftNodeLineage) :
    List DraftNodeLineage :=
  (lineage.zipIdx.filter fun entry => standsBelow source entry.1).foldl
    (relocateEntry source target revision) lineage

/-- The open entries whose paths are gone are closed. -/
def closeGone (paths : List JsString) (revision : ℕ) (lineage : List DraftNodeLineage) :
    List DraftNodeLineage :=
  lineage.map fun entry =>
    if entry.isOpen ∧ entry.path ∉ paths then entry.close revision else entry

/-- The name of the node that an operation creates at a path. -/
def freshNodeId (path : JsString) (revision index : ℕ) : JsString :=
  nodeIdForPath path ++ js "@" ++ natToString revision ++ js ":" ++ natToString index

/-- Every path without an open entry gets one for a new node. -/
def openNew (paths : List JsString) (revision index : ℕ) (lineage : List DraftNodeLineage) :
    List DraftNodeLineage :=
  paths.foldl (fun current path =>
    if current.any fun entry => decide (entry.path = path) && entry.isOpen then current
    else current ++ [⟨freshNodeId path revision index, path, revision, none⟩]) lineage

/-- The lineage after one operation, from the documents before and after it. -/
def stepLineage (op before after : JsValue) (revision index : ℕ)
    (lineage : List DraftNodeLineage) : List DraftNodeLineage :=
  let moved :=
    match relocation op with
    | some (source, target) =>
      match pathExists (documentPaths before) source, pathExists (documentPaths after) target with
      | some source, some target => relocate source target revision lineage
      | _, _ => lineage
    | none => lineage
  openNew (documentPaths after) revision index (closeGone (documentPaths after) revision moved)

/-- `nextLineage`, from an operation on. -/
def nextLineageFrom (issueMessage : JsValue → JsString) (revision : ℕ) :
    ℕ → List JsValue → JsValue → List DraftNodeLineage → Except JsString (List DraftNodeLineage)
  | _, [], _, lineage => .ok lineage
  | index, op :: ops, doc, lineage => do
    let after ← applyDraftYOps issueMessage doc [op]
    nextLineageFrom issueMessage revision (index + 1) ops after
      (stepLineage op doc after revision index lineage)

/-- `nextLineage`. -/
def nextLineage (issueMessage : JsValue → JsString) (lineage : List DraftNodeLineage)
    (operations : List JsValue) (before : JsValue) (afterRevision : ℕ) :
    Except JsString (List DraftNodeLineage) :=
  nextLineageFrom issueMessage afterRevision 0 operations before lineage

end T3x.Drafts
