import T3x.Transition.Integrity

/-!
# The independent verifier

A second verifier, written in Python from the protocol alone. It reads texts with the
JSON reader of its language, takes canonical bytes from one package and the grammar of
objects from another, and adds the order of collections itself. The packages are
parameters; the order of a dict is not looked at, so a dict is a record.
-/

namespace T3x.Transition.Independent

open Js T3x.Transition

/-! ## Errors -/

/-- `ProtocolError` of the verifier. -/
structure PythonError where
  /-- The code. -/
  code : ProtocolErrorCode
  /-- The message. -/
  message : JsString
  /-- Where it arises. -/
  stage : JsString
  deriving DecidableEq

/-- `raise ProtocolError(code, message, stage=stage)`. -/
def raise {T : Type} (code : ProtocolErrorCode) (message stage : String) : Except PythonError T :=
  .error ⟨code, js message, js stage⟩

/-! ## Reading texts -/

/-- A string from its quote on, and the text behind it. -/
def scanText (text : JsString) : Option (JsString × JsString) :=
  match scanString 0 [] (text.drop 1) with
  | .error _ => none
  | .ok (body, rest) => (unescape body).map fun value => (value, rest)

/-- `_parse_binary64` of the number in front, and the text behind it. -/
def scanNumber (text : JsString) : Option (JsNumber × JsString) :=
  (matchNumber text).bind fun r => (numberOf r.1).map fun value => (value, r.2)

/-- A word in front, and the text behind it. -/
def scanWord (word : JsString) (value : JsValue) (text : JsString) : Option (JsValue × JsString) :=
  if text.take word.length = word then some (value, text.drop word.length) else none

/-- `_closed_pairs(pairs)`, from the pairs already closed on. -/
def closedPairs (result : Record JsValue) : List (JsString × JsValue) → Option (Record JsValue)
  | [] => some result
  | (key, value) :: pairs =>
    if Record.has result key then none else closedPairs (Record.setOwn result key value) pairs

mutual

/-- The value in front, and the text behind it, with `fuel` for the calls to come. -/
def scanValue : (fuel : ℕ) → JsString → Option (JsValue × JsString)
  | 0, _ => none
  | fuel + 1, text =>
    match text with
    | [] => none
    | character :: rest =>
      if character = unit '"' then (scanText text).map fun r => (.str r.1, r.2)
      else if character = unit '\x7b' then
        match consume (unit '\x7d') (skipWhitespace rest) with
        | some rest => some (.obj [], rest)
        | none => scanPairs fuel [] (skipWhitespace rest)
      else if character = unit '[' then
        match consume (unit ']') (skipWhitespace rest) with
        | some rest => some (.arr [], rest)
        | none => scanList fuel [] (skipWhitespace rest)
      else if character = unit 't' then scanWord (js "true") (.bool true) text
      else if character = unit 'f' then scanWord (js "false") (.bool false) text
      else if character = unit 'n' then scanWord (js "null") .null text
      else (scanNumber text).map fun r => (.num r.1, r.2)

/-- The pairs of an object, after those read so far; the hook closes them at the end. -/
def scanPairs : (fuel : ℕ) → List (JsString × JsValue) → JsString → Option (JsValue × JsString)
  | 0, _, _ => none
  | fuel + 1, pairs, text =>
    if text.head? ≠ some (unit '"') then none
    else
      match scanText text with
      | none => none
      | some (key, rest) =>
        match consume (unit ':') (skipWhitespace rest) with
        | none => none
        | some rest =>
          match scanValue fuel (skipWhitespace rest) with
          | none => none
          | some (value, rest) =>
            match consume (unit '\x7d') (skipWhitespace rest) with
            | some rest => (closedPairs [] (pairs ++ [(key, value)])).map fun r => (.obj r, rest)
            | none =>
              match consume (unit ',') (skipWhitespace rest) with
              | none => none
              | some rest => scanPairs fuel (pairs ++ [(key, value)]) (skipWhitespace rest)

/-- The items of an array, after those read so far. -/
def scanList : (fuel : ℕ) → List JsValue → JsString → Option (JsValue × JsString)
  | 0, _, _ => none
  | fuel + 1, items, text =>
    match scanValue fuel text with
    | none => none
    | some (value, rest) =>
      match consume (unit ']') (skipWhitespace rest) with
      | some rest => some (.arr (items ++ [value]), rest)
      | none =>
        match consume (unit ',') (skipWhitespace rest) with
        | none => none
        | some rest => scanList fuel (items ++ [value]) (skipWhitespace rest)

end

/-- `json.loads(source)` with the hooks of the module; `none` where it raises. -/
def jsonLoads (source : JsString) : Option JsValue :=
  match scanValue (2 * source.length) (skipWhitespace source) with
  | none => none
  | some (value, rest) => if skipWhitespace rest = [] then some value else none

/-- `loads_protocol_json(data)`; the message of an exception of the reader is left out. -/
def loadsProtocolJson (data : List UInt8) : Except PythonError JsValue :=
  -- `decode` keeps a byte order mark, which the reader then refuses.
  match decodePoints data with
  | none => raise .schemaInvalid "invalid UTF-8" "parse"
  | some points =>
    match jsonLoads (points.flatMap pointUnits) with
    | none => raise .schemaInvalid "" "parse"
    | some value =>
      -- `_assert_protocol_domain`: what is read has no other types and no infinite numbers.
      if value.isUnicode then .ok value
      else raise .nonCanonicalValue "unpaired Unicode surrogate" "parse"

/-! ## The kernel -/

section Kernel

-- `rfc8785.dumps`, with the text of its exceptions, and the text of the first error that
-- `jsonschema` reports of a value, if it reports one
variable (dumps : JsValue → Except JsString (List UInt8)) (schemaError : JsValue → Option JsString)

/-- `canonical_bytes(value)`. -/
def canonicalBytes (value : JsValue) : Except PythonError (List UInt8) :=
  match dumps value with
  | .ok bytes => .ok bytes
  | .error message => .error ⟨.nonCanonicalValue, message, js "canonical"⟩

/-- Whether every list of bytes comes before the next. -/
def ascends : List (List UInt8) → Bool
  | a :: b :: rest => decide (a < b) && ascends (b :: rest)
  | _ => true

/-- `_strict_canonical_set(values, path)`. -/
def strictCanonicalSet (values : List JsValue) (path : JsString) : Except PythonError Unit := do
  let encoded ← values.mapM (canonicalBytes dumps)
  if ascends encoded = false then
    throw ⟨.nonCanonicalValue, js "duplicate or unordered canonical set at " ++ path, js "schema"⟩

/-- `_validate_claim_evidence(claim, path)`. -/
def validateClaimEvidence (claim : JsValue) (path : JsString) : Except PythonError Unit :=
  match claim with
  | .obj record =>
    if Record.has record (js "evidence") then
      strictCanonicalSet dumps (parts claim "evidence") (path ++ js ".evidence")
    else .ok ()
  | _ => .ok ()

/-- `_utf16_key(value)`. -/
def utf16Key (value : JsString) : List UInt8 :=
  value.flatMap fun u => [(u.toNat / 256).toUInt8, (u.toNat % 256).toUInt8]

/-- The roles of the inputs of an Effect. -/
def inputRoles (effect : JsValue) : List JsString :=
  (parts effect "inputs").map fun member =>
    match part member "role" with
    | .str role => role
    | _ => []

/-- `sorted(roles, key=_utf16_key)`. -/
def sortedRoles (roles : List JsString) : List JsString :=
  roles.mergeSort fun a b => decide (utf16Key a ≤ utf16Key b)

/-- `_validate_collections(value)`. -/
def validateCollections (value : JsValue) : Except PythonError Unit := do
  if part value "schema" = .str effectSchema ∧
      ¬ (inputRoles value = sortedRoles (inputRoles value) ∧ (inputRoles value).Nodup) then
    throw ⟨.nonCanonicalValue, js "Effect.inputs roles must be unique and UTF-16 ordered",
      js "schema"⟩
  if part value "schema" ≠ .str statementSchema then return ()
  strictCanonicalSet dumps (parts value "subjects") (js "Statement.subjects")
  let predicate := part value "predicate"
  if part value "predicateType" = .str proposalPredicateType then
    validateClaimEvidence dumps (part predicate "intent") (js "Proposal.intent")
    validateClaimEvidence dumps (part predicate "rationale") (js "Proposal.rationale")
  else if part value "predicateType" = .str decisionPredicateType then
    strictCanonicalSet dumps (parts predicate "considered") (js "Decision.considered")
    validateClaimEvidence dumps (part predicate "rationale") (js "Decision.rationale")

/-- `validate_object(value)`. -/
def validateObject (value : JsValue) : Except PythonError JsValue :=
  match schemaError value with
  | some text => .error ⟨.schemaInvalid, text, js "schema"⟩
  | none =>
    match value with
    | .obj _ => do
      validateCollections dumps value
      return value
    | _ => raise .schemaInvalid "object required" "schema"

/-- `parse_protocol_bytes(data)`. -/
def parseBytes (data : List UInt8) : Except PythonError JsValue := do
  validateObject dumps schemaError (← loadsProtocolJson data)

/-- `SCHEMA_TO_KIND`. -/
def schemaToKind (schema : JsString) : Option ObjectKind :=
  if schema = stateSchema then some .state
  else if schema = effectSchema then some .effect
  else if schema = statementSchema then some .statement
  else if schema = commitV2Schema then some .commit
  else none

/-- `parse_descriptor(value)`. A null kind of an unknown schema passes the comparison of the
source; no object can be resolved from such a descriptor, so it is refused here. -/
def parseDescriptor (value : JsValue) : Except PythonError ObjectDescriptor :=
  let names := [js "kind", js "schema", js "digest"]
  match value with
  | .obj record =>
    if ((Record.keys record).all fun key => names.contains key) ∧
        names.all fun key => Record.has record key then
      match field record "schema", field record "digest" with
      | .str schema, .str digest =>
        match schemaToKind schema with
        | some kind =>
          if field record "kind" ≠ .str kind.text then
            raise .schemaInvalid "invalid descriptor kind/schema" "schema"
          else if digestPattern digest = false then
            raise .schemaInvalid "malformed descriptor digest" "schema"
          else .ok ⟨kind, schema, digest⟩
        | none => raise .schemaInvalid "invalid descriptor kind/schema" "schema"
      | _, _ => raise .schemaInvalid "invalid descriptor kind/schema" "schema"
    else raise .schemaInvalid "invalid object descriptor" "schema"
  | _ => raise .schemaInvalid "invalid object descriptor" "schema"

variable (sha256 : List UInt8 → JsString)

/-- `digest_canonical_bytes(kind, schema, data)`. -/
def digestCanonicalBytes (kind : ObjectKind) (schema : JsString) (data : List UInt8) :
    Except PythonError JsString :=
  if schemaToKind schema ≠ some kind then
    raise .unsupportedMediaType "descriptor kind/schema mismatch" "digest"
  else .ok (js "sha256:" ++ sha256 (digestInput kind schema data))

/-- `descriptor(value)`. -/
def descriptor (value : JsValue) : Except PythonError ObjectDescriptor := do
  let parsed ← validateObject dumps schemaError value
  match part parsed "schema" with
  | .str schema =>
    match schemaToKind schema with
    | some kind =>
      let bytes ← canonicalBytes dumps parsed
      let digest ← digestCanonicalBytes sha256 kind schema bytes
      return ⟨kind, schema, digest⟩
    | none => raise .schemaInvalid "" "schema"
  | _ => raise .schemaInvalid "" "schema"

/-! ## Resolving -/

/-- `resolve(requested)` in a store. -/
def resolve (store : Record (List UInt8)) (requested : JsValue) : Except PythonError JsValue := do
  let wanted ← parseDescriptor requested
  match Record.get store (descriptorKey wanted) with
  | none => raise .objectNotFound "object not found" "resolve"
  | some data =>
    let digest ← digestCanonicalBytes sha256 wanted.kind wanted.schema data
    if digest ≠ wanted.digest then
      raise .objectDigestMismatch "resolved bytes digest differs" "resolve"
    let value ← parseBytes dumps schemaError data
    let actual ← descriptor dumps schemaError sha256 value
    if actual.kind ≠ wanted.kind ∨ actual.schema ≠ wanted.schema then
      raise .unsupportedMediaType "resolved object kind/schema differs" "resolve"
    if actual.digest ≠ wanted.digest then
      raise .objectDigestMismatch "resolved object identity differs" "resolve"
    let canonical ← canonicalBytes dumps value
    if canonical ≠ data then
      raise .nonCanonicalValue "resolved bytes are not RFC 8785 canonical" "resolve"
    return value

/-! ## Commits -/

/-- `_same_descriptor(left, right)`. -/
def sameDescriptor (left right : JsValue) : Bool :=
  ["kind", "schema", "digest"].all fun key => part left key = part right key

/-- The last checks of `verify_commit`: where the Effect starts. -/
def checkParents (effect base : JsValue) (parents : List JsValue) : Except PythonError Unit := do
  if parents = [] ∧ isExplicitEmptyGenesis (part base "value") = false then
    raise .integrityChainInvalid "parentless commit requires empty genesis" "integrity"
  if parents.head?.any fun first =>
      !sameDescriptor (part first "result") (part effect "base") then
    raise .integrityChainInvalid "first parent Result differs from Base" "integrity"
  let declared := (parts effect "inputs").map fun member => part member "object"
  if (parents.drop 1).any fun parent =>
      !declared.any fun candidate => sameDescriptor candidate (part parent "result") then
    raise .integrityChainInvalid "merge parent Result is not a declared input" "integrity"

/-- `verify_commit(commit)` in a store. -/
def verifyCommit (store : Record (List UInt8)) (commit : JsValue) : Except PythonError Unit := do
  let parsed ← validateObject dumps schemaError commit
  if part parsed "schema" ≠ .str commitV2Schema then
    raise .schemaInvalid "CommitV2 required" "schema"
  let decision ← resolve dumps schemaError sha256 store (part parsed "decision")
  if part decision "schema" ≠ .str statementSchema ∨
      part decision "predicateType" ≠ .str decisionPredicateType then
    raise .integrityChainInvalid "Commit decision is not a Decision" "integrity"
  if part (part decision "predicate") "outcome" = .str (js "rejected") then
    raise .integrityChainInvalid "rejected Decision cannot commit" "integrity"
  let proposal ←
    resolve dumps schemaError sha256 store ((parts decision "subjects").headD .null)
  if part proposal "schema" ≠ .str statementSchema ∨
      part proposal "predicateType" ≠ .str proposalPredicateType then
    raise .integrityChainInvalid "Decision subject is not a Proposal" "integrity"
  let effect ← resolve dumps schemaError sha256 store ((parts proposal "subjects").headD .null)
  if part effect "schema" ≠ .str effectSchema then
    raise .integrityChainInvalid "Proposal subject is not an Effect" "integrity"
  if sameDescriptor (part parsed "result") (part effect "result") = false then
    raise .integrityChainInvalid "Commit and Effect Results differ" "integrity"
  let base ← resolve dumps schemaError sha256 store (part effect "base")
  let _ ← resolve dumps schemaError sha256 store (part parsed "result")
  let _ ← (parts (part decision "predicate") "considered").mapM fun considered => do
    let statement ← resolve dumps schemaError sha256 store considered
    (parts statement "subjects").mapM (resolve dumps schemaError sha256 store)
  let parents ← (parts parsed "parents").mapM (resolve dumps schemaError sha256 store)
  checkParents effect base parents

end Kernel

end T3x.Transition.Independent
