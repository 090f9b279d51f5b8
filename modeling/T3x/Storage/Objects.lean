import T3x.Transition.Integrity

/-!
# Stored protocol objects

Protocol objects are stored once, as their canonical text under their digest. An
object whose digest is taken is compared with the stored one instead of written.
-/

namespace T3x.Storage

open Js T3x.Transition

/-- What a storage call throws. -/
inductive StorageError where
  /-- An error of the protocol. -/
  | protocol (error : ProtocolError)
  /-- A `TypeError`. -/
  | typeError (message : JsString)
  /-- An error of the storage layer, with its code. -/
  | failure (code message : JsString)
  deriving DecidableEq

/-- The result of a protocol function, its errors thrown on. -/
def ofProtocol {T : Type} (result : Except ProtocolError T) : Except StorageError T :=
  result.mapError .protocol

/-- A row of `transition_objects`. -/
structure ObjectRow where
  /-- The digest, the primary key. -/
  digest : JsString
  /-- The kind. -/
  kind : JsString
  /-- The schema. -/
  schema : JsString
  /-- The canonical text. -/
  canonicalJson : JsString
  deriving DecidableEq

/-- The object with the digest. -/
def findObject (objects : List ObjectRow) (digest : JsString) : Option ObjectRow :=
  objects.find? fun row => row.digest = digest

-- The hexadecimal digits of a SHA-256 hash.
variable (sha256 : List UInt8 → JsString)

/-- `serializeTransitionObject(object)`, as the row that it is stored as. -/
def serializeTransitionObject (object : JsValue) : Except StorageError ObjectRow := do
  let descriptor ← ofProtocol (describeProtocolObject sha256 object)
  let bytes ← ofProtocol (canonicalProtocolObjectBytes object)
  match decodeUtf8 bytes with
  | none => throw (.typeError (js "The encoded data was not valid for encoding utf-8"))
  | some canonicalJson =>
    return ⟨descriptor.digest, descriptor.kind.text, descriptor.schema, canonicalJson⟩

/-- `parseSerializedTransitionObject(canonicalJson)`. -/
def parseSerializedTransitionObject (canonicalJson : JsString) : Except StorageError JsValue :=
  ofProtocol (parseProtocolBytes (encodeUtf8 canonicalJson))

/-- One object is inserted unless its digest is taken, and compared with what is stored. -/
def persistRow (objects : List ObjectRow) (row : ObjectRow) :
    Except StorageError (List ObjectRow) :=
  match findObject objects row.digest with
  | none => .ok (objects ++ [row])
  | some stored =>
    if stored = row then .ok objects
    else .error (.typeError (js "Immutable protocol object collision at " ++ row.digest))

/-- `persistTransitionObjects(db, objects)`, on the rows that the transaction sees. -/
def persistTransitionObjects (objects : List JsValue) (stored : List ObjectRow) :
    Except StorageError (List ObjectRow) := do
  let serialized ← objects.mapM (serializeTransitionObject sha256)
  let byDigest := serialized.foldl (fun map row => Record.mapSet map row.digest row) []
  let ordered := sortBy (fun left right => compareCodeUnits left.digest right.digest)
    (byDigest.map Prod.snd)
  ordered.foldlM persistRow stored

/-- An object that is persisted is added at the end, or stored as it is. -/
theorem prefix_of_persistRow {objects objects' : List ObjectRow} {row : ObjectRow}
    (h : persistRow objects row = .ok objects') : objects <+: objects' := by
  rw [persistRow] at h
  split at h
  · rw [← Except.ok.inj h]
    exact List.prefix_append _ _
  · split at h
    · rw [← Except.ok.inj h]
    · cases h

/-- Objects that are persisted one after the other are added at the end. -/
theorem prefix_of_persistRows {rows stored stored' : List ObjectRow}
    (h : rows.foldlM persistRow stored = .ok stored') : stored <+: stored' := by
  induction rows generalizing stored with
  | nil => rw [← Except.ok.inj h]
  | cons row rows ih =>
    rw [List.foldlM_cons] at h
    obtain ⟨next, hnext, hrest⟩ := bind_eq_ok_iff.mp h
    exact (prefix_of_persistRow hnext).trans (ih hrest)

/-- Stored objects stay as they are when others are persisted. -/
theorem prefix_of_persistTransitionObjects {objects : List JsValue}
    {stored stored' : List ObjectRow}
    (h : persistTransitionObjects sha256 objects stored = .ok stored') : stored <+: stored' := by
  obtain ⟨_, _, hrows⟩ := bind_eq_ok_iff.mp h
  exact prefix_of_persistRows hrows

end T3x.Storage
