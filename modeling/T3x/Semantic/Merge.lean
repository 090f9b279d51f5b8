import T3x.Semantic.Slots

/-!
# The three-way merge of semantic contents

A merge compares the flattened trees of a base, a source and a target path by
path. Preparing it sorts the paths into those kept by themselves, those in
conflict and those only one side has; executing it picks a node for every path
that is kept or that a decision keeps, and puts the picked nodes together.
-/

namespace T3x.Semantic

open Js

/-- A node of a flattened content. -/
abbrev Frame := FlatNode SlotValue

/-- A relation between two topics, named by their paths. -/
structure Relation where
  /-- The path that the relation starts from. -/
  fromPath : JsString
  /-- The path that the relation leads to. -/
  toPath : JsString
  /-- The type key. -/
  type : JsString
  /-- The project of the start, for relations across projects. -/
  fromProject : Option JsString
  /-- The project of the end, for relations across projects. -/
  toProject : Option JsString
deriving DecidableEq

/-- `relKey(r)`: the identity key of a relation. -/
def relKey (r : Relation) : JsString :=
  r.fromPath ++ unit '|' :: r.toPath ++ unit '|' :: r.type

/-- Topics and their relations. -/
structure SemanticContent where
  /-- The topics. -/
  trees : List (TreeNode SlotValue)
  /-- The relations. -/
  relations : List Relation

/-- A slot that both sides changed, with its three values. -/
structure SlotConflict where
  /-- The name of the slot. -/
  key : JsString
  /-- The value in the base. -/
  baseValue : Option SlotValue
  /-- The value in the source. -/
  sourceValue : Option SlotValue
  /-- The value in the target. -/
  targetValue : Option SlotValue

/-- A path in conflict, with its slots in conflict. -/
structure PathConflict where
  /-- The path. -/
  path : JsString
  /-- The slots. -/
  slotConflicts : List SlotConflict

/-- A prepared merge. -/
structure MergeResult where
  /-- The paths that are kept by themselves. -/
  autoKept : List JsString
  /-- The paths in conflict. -/
  conflicts : List PathConflict
  /-- The paths that only the source has. -/
  onlyInSource : List JsString
  /-- The paths that only the target has. -/
  onlyInTarget : List JsString
  /-- The relations that only the source has. -/
  relationsOnlyInSource : List Relation
  /-- The relations that only the target has. -/
  relationsOnlyInTarget : List Relation
  /-- The relations that both sides have. -/
  relationsInBoth : List Relation

/-- How a conflict is resolved. -/
inductive MergeResolution where
  | source
  | target
  | both
  | edit (tree : TreeNode SlotValue)

/-- The decisions of a merge. -/
structure MergeDecision where
  /-- The resolutions of conflicts by path. -/
  conflictResolutions : Record MergeResolution
  /-- The paths only in the source that are kept. -/
  keepFromSource : List JsString
  /-- The paths only in the target that are kept. -/
  keepFromTarget : List JsString
  /-- Whether the relations only in the source are kept. -/
  keepRelationsFromSource : Bool
  /-- Whether the relations only in the target are kept. -/
  keepRelationsFromTarget : Bool

/-! ## Comparing nodes -/

/-- `framesEqual(a, b)`. -/
def framesEqual (a b : Frame) : Bool :=
  decide (a.type = b.type) && everyMember (memberTests a.slots) b.slots 0

/-- The slot names of a node, none if there is no node. -/
def slotNames : Option Frame → List JsString
  | none => []
  | some f => Record.keys f.slots

/-- `frame?.slots[key]`. -/
def slotAt (f : Option Frame) (key : JsString) : Option SlotValue :=
  f.bind fun f => readSlot f.slots key

/-- The conflict of one slot, if it is one: the sides differ and, given a base, both
differ from it. -/
def slotConflict (base src tgt : Option Frame) (key : JsString) : Option SlotConflict :=
  if deepEqualOptional (slotAt src key) (slotAt tgt key) then none
  else if base.isSome && deepEqualOptional (slotAt src key) (slotAt base key) then none
  else if base.isSome && deepEqualOptional (slotAt tgt key) (slotAt base key) then none
  else some ⟨key, slotAt base key, slotAt src key, slotAt tgt key⟩

/-- `findSlotConflicts(base, src, tgt)`. -/
def findSlotConflicts (base src tgt : Option Frame) : List SlotConflict :=
  (distinct (slotNames base ++ slotNames src ++ slotNames tgt)).filterMap (slotConflict base src tgt)

/-- Write the value of a slot: `undefined` deletes the slot. -/
def writeSlot (slots : Record SlotValue) (key : JsString) : Option SlotValue → Record SlotValue
  | none => Record.erase slots key
  | some value => Record.assign slots key value

/-- One round of the loop of `mergeNonConflicting`: a slot takes the value of the side
that changed it, the source's if both did. -/
def mergeSlot (base src tgt : Frame) (slots : Record SlotValue) (key : JsString) :
    Record SlotValue :=
  if !deepEqualOptional (readSlot src.slots key) (readSlot base.slots key) then
    writeSlot slots key (readSlot src.slots key)
  else if !deepEqualOptional (readSlot tgt.slots key) (readSlot base.slots key) then
    writeSlot slots key (readSlot tgt.slots key)
  else slots

/-- `mergeNonConflicting(base, src, tgt)`. -/
def mergeNonConflicting (base src tgt : Frame) : Frame where
  id := src.id
  type := if tgt.type ≠ base.type ∧ src.type = base.type then tgt.type else src.type
  slots := (distinct (Record.keys src.slots ++ Record.keys tgt.slots ++
    Record.keys base.slots)).foldl (mergeSlot base src tgt) base.slots

/-! ## Preparing -/

/-- `new Map(frames.map(f => [f.id, f]))`. -/
def frameMap (frames : List Frame) : Record Frame :=
  frames.foldl (fun map f => Record.mapSet map f.id f) []

/-- What preparing makes of a path. -/
inductive PathClass where
  | autoKept
  | conflict (slotConflicts : List SlotConflict)
  | onlyInSource
  | onlyInTarget
  | dropped

/-- Whether a path is kept by itself. -/
def PathClass.isAutoKept : PathClass → Bool
  | .autoKept => true
  | _ => false

/-- The slots in conflict of a path that is in conflict. -/
def PathClass.conflict? : PathClass → Option (List SlotConflict)
  | .conflict slotConflicts => some slotConflicts
  | _ => none

/-- Whether a path is only in the source. -/
def PathClass.isOnlyInSource : PathClass → Bool
  | .onlyInSource => true
  | _ => false

/-- Whether a path is only in the target. -/
def PathClass.isOnlyInTarget : PathClass → Bool
  | .onlyInTarget => true
  | _ => false

/-- The body of the loop of `prepareMerge`: what becomes of a path with these nodes. -/
def classify : (base src tgt : Option Frame) → PathClass
  | none, some _, none => .onlyInSource
  | some b, some s, none =>
    if framesEqual s b then .dropped else .conflict (findSlotConflicts (some b) (some s) none)
  | none, none, some _ => .onlyInTarget
  | some b, none, some t =>
    if framesEqual t b then .dropped else .conflict (findSlotConflicts (some b) none (some t))
  | _, none, none => .dropped
  | none, some s, some t =>
    if framesEqual s t then .autoKept
    else .conflict (findSlotConflicts none (some s) (some t))
  | some b, some s, some t =>
    if framesEqual s t then .autoKept
    else if framesEqual b s || framesEqual b t then .autoKept
    else
      let slotConflicts := findSlotConflicts (some b) (some s) (some t)
      if slotConflicts.isEmpty &&
          !decide (s.type ≠ t.type ∧ s.type ≠ b.type ∧ t.type ≠ b.type) then .autoKept
      else .conflict slotConflicts

/-- The nodes of a base, a source and a target by their paths. -/
structure FrameMaps where
  /-- The nodes of the base. -/
  base : Record Frame
  /-- The nodes of the source. -/
  src : Record Frame
  /-- The nodes of the target. -/
  tgt : Record Frame

/-- The nodes of three contents. -/
def frameMaps (base source target : SemanticContent) : FrameMaps where
  base := frameMap (flattenTrees base.trees)
  src := frameMap (flattenTrees source.trees)
  tgt := frameMap (flattenTrees target.trees)

/-- `allIds`: the paths of the base, of the source and of the target. -/
def FrameMaps.allIds (maps : FrameMaps) : List JsString :=
  distinct (Record.keys maps.base ++ Record.keys maps.src ++ Record.keys maps.tgt)

/-- What becomes of a path. -/
def FrameMaps.classOf (maps : FrameMaps) (id : JsString) : PathClass :=
  classify (Record.get maps.base id) (Record.get maps.src id) (Record.get maps.tgt id)

/-- `prepareMerge(base, source, target)`. -/
def prepareMerge (base source target : SemanticContent) : MergeResult :=
  let maps := frameMaps base source target
  let baseRelKeys := base.relations.map relKey
  let srcRelKeys := source.relations.map relKey
  let tgtRelKeys := target.relations.map relKey
  { autoKept := maps.allIds.filter fun id => (maps.classOf id).isAutoKept
    conflicts := maps.allIds.filterMap fun id =>
      (maps.classOf id).conflict?.map fun slotConflicts => ⟨id, slotConflicts⟩
    onlyInSource := maps.allIds.filter fun id => (maps.classOf id).isOnlyInSource
    onlyInTarget := maps.allIds.filter fun id => (maps.classOf id).isOnlyInTarget
    relationsOnlyInSource := source.relations.filter fun r =>
      !tgtRelKeys.contains (relKey r) && !baseRelKeys.contains (relKey r)
    relationsOnlyInTarget := target.relations.filter fun r =>
      !srcRelKeys.contains (relKey r) && !baseRelKeys.contains (relKey r)
    relationsInBoth := source.relations.filter fun r => tgtRelKeys.contains (relKey r) }

/-! ## Executing -/

/-- The node of a path that is kept by itself. -/
def pickAutoKept : (base src tgt : Option Frame) → Option Frame
  | some b, some s, some t =>
    if framesEqual s t then some s
    else if !framesEqual b s && framesEqual b t then some s
    else if framesEqual b s && !framesEqual b t then some t
    else some (mergeNonConflicting b s t)
  | none, some s, some _ => some s
  | _, some s, none => some s
  | _, none, t => t

/-- The nodes picked so far and the paths among them that an edit supplied. -/
structure Picked where
  /-- `resultFrames`. -/
  frames : List Frame
  /-- `editedPaths`. -/
  edited : List JsString

/-- `removeFramesAtPath(frames, path)`. -/
def removeFramesAtPath (frames : List Frame) (path : JsString) : List Frame :=
  frames.filter fun f => decide (f.id ≠ path)

/-- `pushResolvedFrame(frame)`: a node replaces what an edit supplied at its path. -/
def Picked.pushResolvedFrame (picked : Picked) (frame : Frame) : Picked where
  frames := (if frame.id ∈ picked.edited then removeFramesAtPath picked.frames frame.id
    else picked.frames) ++ [frame]
  edited := picked.edited.filter fun path => decide (path ≠ frame.id)

/-- Push a node if there is one. -/
def Picked.pushResolved (picked : Picked) (frame : Option Frame) : Picked :=
  frame.elim picked picked.pushResolvedFrame

/-- `pushEditedFrames(frames)`: the nodes of an edit replace all nodes at their paths. -/
def Picked.pushEditedFrames (picked : Picked) (frames : List Frame) : Picked where
  frames := picked.frames.filter (fun f => decide (f.id ∉ frames.map FlatNode.id)) ++ frames
  edited := picked.edited ++ frames.map FlatNode.id

/-- `flattenEditedTreeAtPath(edit, conflictPath)`: the nodes of an edited topic, moved to
the path of the conflict; an error if the topic has another key. -/
def flattenEditedTreeAtPath (edit : TreeNode SlotValue) (conflictPath : JsString) :
    Except JsString (List Frame) :=
  if edit.key ≠ (segments conflictPath).getLastD [] then
    .error (js "Edited node key \"" ++ edit.key ++ js "\" does not match conflict path \"" ++
      conflictPath ++ js "\"")
  else match flattenTree edit with
    | [] => .ok []
    | root :: rest =>
      if root.id = [] then .ok []
      else .ok ((root :: rest).map fun frame =>
        { frame with
          id := if frame.id = root.id then conflictPath
            else conflictPath ++ unit '/' :: frame.id.drop (root.id.length + 1) })

/-- `decisions.conflictResolutions[path]` as the code reads it: nothing stands for the
source, and what the object inherits for nothing known. -/
def MergeDecision.resolution (decisions : MergeDecision) (path : JsString) :
    Option MergeResolution :=
  match Record.get decisions.conflictResolutions path with
  | some resolution => some resolution
  | none => if path ∈ inheritedNames then none else some .source

/-- Resolve one conflict. -/
def FrameMaps.resolveConflict (maps : FrameMaps) (decisions : MergeDecision) (picked : Picked)
    (conflict : PathConflict) : Except JsString Picked :=
  match decisions.resolution conflict.path with
  | some .source => .ok (picked.pushResolved (Record.get maps.src conflict.path))
  | some .target => .ok (picked.pushResolved (Record.get maps.tgt conflict.path))
  | some .both => .ok ((picked.pushResolved (Record.get maps.src conflict.path)).pushResolved
      (Record.get maps.tgt conflict.path))
  | some (.edit tree) =>
    match flattenEditedTreeAtPath tree conflict.path with
    | .error message => .error message
    | .ok frames => .ok (picked.pushEditedFrames frames)
  | none => .ok picked

/-- Resolve the conflicts one after another. -/
def FrameMaps.resolveConflicts (maps : FrameMaps) (decisions : MergeDecision) :
    List PathConflict → Picked → Except JsString Picked
  | [], picked => .ok picked
  | conflict :: conflicts, picked =>
    match maps.resolveConflict decisions picked conflict with
    | .error message => .error message
    | .ok picked => maps.resolveConflicts decisions conflicts picked

/-- `conflictsByDepth`. -/
def conflictsByDepth (conflicts : List PathConflict) : List PathConflict :=
  sortBy (fun a b => (depth a.path : ℤ) - depth b.path) conflicts

/-- The node picked for a path that is kept by itself. -/
def FrameMaps.pickAt (maps : FrameMaps) (path : JsString) : Option Frame :=
  pickAutoKept (Record.get maps.base path) (Record.get maps.src path) (Record.get maps.tgt path)

/-- The nodes picked for the paths kept by themselves. -/
def FrameMaps.autoKeptFrames (maps : FrameMaps) (autoKept : List JsString) : List Frame :=
  autoKept.filterMap maps.pickAt

/-- Keep the selected nodes of one side. -/
def Picked.keep (picked : Picked) (side : Record Frame) (paths selected : List JsString) : Picked :=
  paths.foldl (fun picked path =>
    if path ∈ selected then picked.pushResolved (Record.get side path) else picked) picked

/-- The nodes that executing a merge picks. -/
def FrameMaps.pick (maps : FrameMaps) (prepared : MergeResult) (decisions : MergeDecision) :
    Except JsString Picked :=
  match maps.resolveConflicts decisions (conflictsByDepth prepared.conflicts)
      ⟨maps.autoKeptFrames prepared.autoKept, []⟩ with
  | .error message => .error message
  | .ok picked => .ok ((picked.keep maps.src prepared.onlyInSource decisions.keepFromSource).keep
      maps.tgt prepared.onlyInTarget decisions.keepFromTarget)

/-- `executeMerge(base, source, target, prepared, decisions)`. -/
def executeMerge (base source target : SemanticContent) (prepared : MergeResult)
    (decisions : MergeDecision) : Except JsString SemanticContent :=
  match (frameMaps base source target).pick prepared decisions with
  | .error message => .error message
  | .ok picked => .ok
      { trees := unflattenToTrees picked.frames
        relations := prepared.relationsInBoth ++
          (if decisions.keepRelationsFromSource then prepared.relationsOnlyInSource else []) ++
          if decisions.keepRelationsFromTarget then prepared.relationsOnlyInTarget else [] }

end T3x.Semantic
