import T3x.Transition.Schemas

/-!
# The identity of protocol objects and their store

An object is named by its kind, its schema and the digest of its canonical
bytes. The store keeps the bytes under the descriptor; resolving hashes what a
resolver returns again, parses it and requires it to be canonical. The hash is a
parameter.
-/

namespace T3x.Transition

open Js

/-- `canonicalProtocolObjectBytes(object)`. -/
def canonicalProtocolObjectBytes (object : JsValue) : Except ProtocolError (List UInt8) := do
  let parsed ← parseProtocolObject object
  canonicalProtocolBytes parsed

/-- `kindForSchema(object.schema)`, with the schema; `none` where the code goes on with an
undefined kind. -/
def kindForSchema (object : JsValue) : Option (ObjectKind × JsString) :=
  match object with
  | .obj record =>
    if field record "schema" = .str stateSchema then some (.state, stateSchema)
    else if field record "schema" = .str effectSchema then some (.effect, effectSchema)
    else if field record "schema" = .str statementSchema then some (.statement, statementSchema)
    else if field record "schema" = .str commitV2Schema then some (.commit, commitV2Schema)
    else none
  | _ => none

/-- The bytes that are hashed for an object: its kind and schema, then its bytes. -/
def digestInput (kind : ObjectKind) (schema : JsString) (bytes : List UInt8) : List UInt8 :=
  encodeUtf8 (js "t3x-object-v1" ++ 0 :: (kind.text ++ 0 :: (schema ++ [0]))) ++ bytes

/-- The key under which an object is stored. -/
def descriptorKey (descriptor : ObjectDescriptor) : JsString :=
  descriptor.kind.text ++ 0 :: (descriptor.schema ++ 0 :: descriptor.digest)

/-- A descriptor as the value that it is. -/
def ObjectDescriptor.value (descriptor : ObjectDescriptor) : JsValue :=
  .obj [(js "kind", .str descriptor.kind.text), (js "schema", .str descriptor.schema),
    (js "digest", .str descriptor.digest)]

/-- A resolver of descriptors to bytes. -/
abbrev ObjectResolver := ObjectDescriptor → Option (List UInt8)

section

variable (sha256 : List UInt8 → JsString)

/-- `digestCanonicalProtocolBytes(kind, schema, bytes)`; `sha256` gives the hexadecimal
digits of the hash. -/
def digestCanonicalProtocolBytes (kind : ObjectKind) (schema : JsString) (bytes : List UInt8) :
    Except ProtocolError JsString :=
  if expectedSchema kind ≠ schema then
    .error ⟨.unsupportedMediaType, js "Schema " ++ schema ++ js " does not identify a " ++
      kind.text ++ js " object", none⟩
  else .ok (js "sha256:" ++ sha256 (digestInput kind schema bytes))

/-- What the code throws for an object whose schema is that of no kind. -/
def unknownKind : ProtocolError :=
  ⟨.unsupportedMediaType, js "Schema does not identify an object", none⟩

/-- `digestProtocolObject(object)`. -/
def digestProtocolObject (object : JsValue) : Except ProtocolError JsString := do
  let parsed ← parseProtocolObject object
  match kindForSchema parsed with
  | none => throw unknownKind
  | some (kind, schema) =>
    let bytes ← canonicalProtocolObjectBytes parsed
    digestCanonicalProtocolBytes sha256 kind schema bytes

/-- `describeProtocolObject(object)`. -/
def describeProtocolObject (object : JsValue) : Except ProtocolError ObjectDescriptor := do
  let parsed ← parseProtocolObject object
  match kindForSchema parsed with
  | none => throw unknownKind
  | some (kind, schema) =>
    let digest ← digestProtocolObject sha256 parsed
    return ⟨kind, schema, digest⟩

/-- `put(object)`: the descriptor of the object and the store with its bytes. -/
def putObject (objects : Record (List UInt8)) (object : JsValue) :
    Except ProtocolError (ObjectDescriptor × Record (List UInt8)) := do
  let descriptor ← describeProtocolObject sha256 object
  let bytes ← canonicalProtocolObjectBytes object
  return (descriptor, Record.mapSet objects (descriptorKey descriptor) bytes)

/-- The store after an object is put: one that is refused leaves it as it is. -/
def storeAfter (store : Record (List UInt8)) (object : JsValue) : Record (List UInt8) :=
  match putObject sha256 store object with
  | .ok (_, store') => store'
  | .error _ => store

/-- The store after objects are put in turn. -/
def putObjects (store : Record (List UInt8)) (objects : List JsValue) : Record (List UInt8) :=
  objects.foldl (storeAfter sha256) store

/-- `get(descriptor)` of the store. -/
def getObject (store : Record (List UInt8)) : ObjectResolver := fun descriptor =>
  Record.get store (descriptorKey descriptor)

/-- `resolveProtocolObject(resolver, requested)`. -/
def resolveProtocolObject (resolver : ObjectResolver) (requested : JsValue) :
    Except ProtocolError JsValue := do
  let descriptor ← parseObjectDescriptor requested (js "$")
  match resolver descriptor with
  | none => throw ⟨.objectNotFound,
      js "Protocol object " ++ descriptor.digest ++ js " was not found", none⟩
  | some bytes =>
    let resolvedDigest ← digestCanonicalProtocolBytes sha256 descriptor.kind descriptor.schema bytes
    if resolvedDigest ≠ descriptor.digest then
      throw ⟨.objectDigestMismatch, js "Requested " ++ descriptor.digest ++
        js ", but resolved bytes hash to " ++ resolvedDigest, none⟩
    let object ← parseProtocolBytes bytes
    let actual ← describeProtocolObject sha256 object
    if actual.kind ≠ descriptor.kind ∨ actual.schema ≠ descriptor.schema then
      throw ⟨.unsupportedMediaType, js "Requested " ++ descriptor.kind.text ++ js "/" ++
        descriptor.schema ++ js ", but resolved " ++ actual.kind.text ++ js "/" ++ actual.schema,
        none⟩
    if actual.digest ≠ descriptor.digest then
      throw ⟨.objectDigestMismatch, js "Requested " ++ descriptor.digest ++
        js ", but resolved object identifies as " ++ actual.digest, none⟩
    let canonical ← canonicalProtocolObjectBytes object
    if bytes ≠ canonical then
      throw ⟨.nonCanonicalValue, js "Resolved object bytes are not RFC 8785 canonical", none⟩
    return object

end

end T3x.Transition
