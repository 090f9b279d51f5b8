import T3x.Yops.Path

/-!
# Reading and rebuilding a document at a path

A segment selects a member of a mapping or an item of an array. Setting creates
the mappings that are missing on the way and refuses to replace a scalar there;
deleting needs every segment. Each works on a copy, so a failure leaves nothing
behind.
-/

namespace T3x.Yops

open Js

/-- `deepClone`: the value rebuilt from its parts, the names in their order. -/
def deepClone : JsValue → JsValue :=
  JsValue.fold
    { null := .null
      bool := .bool
      num := .num
      str := .str
      arr := .arr
      obj := .obj }

/-- A clone is equal to what it was cloned from. -/
@[simp] theorem deepClone_eq (value : JsValue) : deepClone value = value := by
  unfold deepClone
  induction value using JsValue.induct with
  | arr items ih =>
    rw [JsValue.fold_arr]
    exact congrArg JsValue.arr ((List.map_congr_left ih).trans (List.map_id _))
  | obj members ih =>
    rw [JsValue.fold_obj]
    refine congrArg JsValue.obj (List.map_congr_left (g := id) fun e he => ?_) |>.trans ?_
    · exact Prod.ext rfl (ih e he)
    · rw [List.map_id]
  | _ => rfl

/-- `value !== null && typeof value === 'object'`. -/
def isObject : JsValue → Bool
  | .arr _ => true
  | .obj _ => true
  | _ => false

/-- `matchEquals`: a string, or a number or boolean by its text. -/
def matchEquals (expected : JsString) : JsValue → Bool
  | .str s => decide (s = expected)
  | .num n => decide (n.toText = expected)
  | .bool b => decide ((if b then js "true" else js "false") = expected)
  | _ => false

/-- `itemMatchesSeg`. -/
def itemMatchesSeg (key value : JsString) : JsValue → Bool
  | .obj map => (Record.get map key).any (matchEquals value)
  | _ => false

namespace PathSegment

/-- Which item of an array the segment selects. -/
def position (items : List JsValue) : PathSegment → Option ℕ
  | .key _ => none
  | .index n => if n < items.length then some n else none
  | .match name value => items.findIdx? (itemMatchesSeg name value)

/-- What the segment selects in a value. -/
def select (segment : PathSegment) : JsValue → Option JsValue
  | .obj map =>
    match segment with
    | .key name => Record.get map name
    | _ => none
  | .arr items => do items[← segment.position items]?
  | _ => none

/-- The value with another part where the segment selects one; a key may be new. -/
def put (segment : PathSegment) (part : JsValue) : JsValue → JsValue
  | .obj map =>
    match segment with
    | .key name => .obj (Record.setOwn map name part)
    | _ => .obj map
  | .arr items => .arr (((segment.position items).map fun n => items.set n part).getD items)
  | value => value

/-- The value without what the segment selects. -/
def remove (segment : PathSegment) : JsValue → JsValue
  | .obj map =>
    match segment with
    | .key name => .obj (Record.erase map name)
    | _ => .obj map
  | .arr items => .arr (((segment.position items).map items.eraseIdx).getD items)
  | value => value

/-- Why nothing can be set at the segment, if so: a key needs a mapping, and an
index or a match an item that exists. -/
def refusal : PathSegment → JsValue → Option JsString
  | .key _, .obj _ => none
  | .key name, _ => some (js "Cannot set key \"" ++ name ++ js "\" on non-mapping value")
  | .index n, .arr items =>
    if n < items.length then none
    else some (js "Array index [" ++ indexText n ++ js "] is out of bounds for length " ++
      natToString items.length)
  | .index n, _ => some (js "Cannot use index [" ++ indexText n ++ js "] on non-array value")
  | .match name value, .arr items =>
    if items.any (itemMatchesSeg name value) then none
    else some (js "No item found where " ++ name ++ js "=" ++ value)
  | .match _ _, _ => some (js "Cannot use key-match on non-array value")

/-- What stands on the way at the segment: a new mapping for a missing key. A
scalar or null under a key is not replaced. -/
def enter (segment : PathSegment) (current : JsValue) : Except JsString JsValue :=
  match segment, segment.select current with
  | .key name, some inner =>
    if isObject inner then .ok inner
    else .error (js "Cannot traverse through non-mapping value at \"" ++ name ++ js "\"")
  | _, some inner => .ok inner
  | _, none => .ok (.obj [])

end PathSegment

/-- `resolvePathSegments`. -/
def resolvePathSegments (doc : JsValue) (segments : List PathSegment) : Option JsValue :=
  segments.foldlM (fun current segment => segment.select current) doc

/-- `resolvePath`. -/
def resolvePath (doc : JsValue) (path : JsString) : Option JsValue :=
  resolvePathSegments doc (parsePath path)

/-- `_setRecursive`: an error is the message that is thrown. Below the last segment
nothing is entered. -/
def setRecursive (value : JsValue) : List PathSegment → JsValue → Except JsString JsValue
  | [], _ => .ok value
  | segment :: rest, current =>
    match segment.refusal current with
    | some message => .error message
    | none => do
      let inner ← if rest = [] then pure .null else segment.enter current
      let part ← setRecursive value rest inner
      return segment.put part current

/-- `setAtPathSegments`. -/
def setAtPathSegments (doc : JsValue) (segments : List PathSegment) (value : JsValue) :
    Except JsString JsValue :=
  setRecursive (deepClone value) segments (deepClone doc)

/-- `setAtPath`. -/
def setAtPath (doc : JsValue) (path : JsString) (value : JsValue) : Except JsString JsValue :=
  setAtPathSegments doc (parsePath path) value

/-- `_deleteRecursive`: nothing where a segment selects nothing. -/
def deleteRecursive : List PathSegment → JsValue → Option JsValue
  | [], _ => none
  | segment :: rest, current => do
    let part ← segment.select current
    if rest = [] then return segment.remove current
    let inner ← deleteRecursive rest part
    return segment.put inner current

/-- `deleteAtPathSegments`. -/
def deleteAtPathSegments (doc : JsValue) (segments : List PathSegment) : Option JsValue :=
  if segments = [] ∨ resolvePathSegments doc segments = none then none
  else deleteRecursive segments (deepClone doc)

/-- `deleteAtPath`. -/
def deleteAtPath (doc : JsValue) (path : JsString) : Option JsValue :=
  deleteAtPathSegments doc (parsePath path)

/-- A change in place of what stands at a path that resolves. -/
def updateAtPathSegments (change : JsValue → JsValue) : List PathSegment → JsValue → JsValue
  | [], current => change current
  | segment :: rest, current =>
    match segment.select current with
    | some part => segment.put (updateAtPathSegments change rest part) current
    | none => current

end T3x.Yops
