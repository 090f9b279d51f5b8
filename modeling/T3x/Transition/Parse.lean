import T3x.Transition.RoundTrip

/-!
# The closed schemas of protocol objects

The checks that a value is a protocol object: a State, an Effect, a Statement
(a Proposal, a Decision or another) or a Commit. A check reads members by name
and throws the first violation that it finds. The descriptor of another object
is returned as what it names.
-/

namespace T3x.Transition

open Js

/-- `STATE_SCHEMA`. -/
def stateSchema : JsString := js "t3x/state/v1"

/-- `EFFECT_SCHEMA`. -/
def effectSchema : JsString := js "t3x/effect/v1"

/-- `STATEMENT_SCHEMA`. -/
def statementSchema : JsString := js "t3x/statement/v1"

/-- `COMMIT_V2_SCHEMA`. -/
def commitV2Schema : JsString := js "t3x/commit/v2"

/-- `PROPOSAL_PREDICATE_TYPE`. -/
def proposalPredicateType : JsString := js "t3x.proposal/v1"

/-- `DECISION_PREDICATE_TYPE`. -/
def decisionPredicateType : JsString := js "t3x.decision/v1"

/-- The kinds of protocol objects. -/
inductive ObjectKind where
  | state
  | effect
  | statement
  | commit
  deriving DecidableEq

/-- The word for a kind. -/
def ObjectKind.text : ObjectKind → JsString
  | .state => js "state"
  | .effect => js "effect"
  | .statement => js "statement"
  | .commit => js "commit"

/-- `expectedSchema(kind)`. -/
def expectedSchema : ObjectKind → JsString
  | .state => stateSchema
  | .effect => effectSchema
  | .statement => statementSchema
  | .commit => commitV2Schema

/-- The descriptor of a protocol object. -/
structure ObjectDescriptor where
  /-- The kind of the object. -/
  kind : ObjectKind
  /-- The schema of the object. -/
  schema : JsString
  /-- The digest of the object. -/
  digest : JsString
  deriving DecidableEq

/-- `schemaError(message, path)`. -/
def schemaError (message path : JsString) : ProtocolError := ⟨.schemaInvalid, message, some path⟩

/-- `assertProtocolDomain(value)`. -/
def assertProtocolDomain (value : JsValue) : Except ProtocolError Unit :=
  (canonicalizeProtocolValue value).map fun _ => ()

/-- `closedRecord(value, path, required, allowed)`. -/
def closedRecord (value : JsValue) (path : JsString) (required allowed : List JsString) :
    Except ProtocolError (Record JsValue) :=
  match value with
  | .obj record =>
    match (Record.keys record).find? fun key => !allowed.contains key with
    | some key => .error (schemaError (js "Unknown field " ++ quote key) path)
    | none =>
      match required.find? fun key => !Record.has record key with
      | some key => .error (schemaError (js "Missing required field " ++ quote key) path)
      | none => .ok record
  | _ => .error (schemaError (js "Expected an object") path)

/-- A member that a closed record has been required to have. -/
def field (record : Record JsValue) (key : String) : JsValue :=
  (Record.get record (js key)).getD .null

/-- The path of a member. -/
def fieldPath (path : JsString) (key : String) : JsString := path ++ js "." ++ js key

/-- The path of an item. -/
def itemPath (path : JsString) (index : ℕ) : JsString :=
  path ++ js "[" ++ natToString index ++ js "]"

/-- `arrayValue(value, path)`. -/
def arrayValue (value : JsValue) (path : JsString) : Except ProtocolError (List JsValue) :=
  match value with
  | .arr items => .ok items
  | _ => .error (schemaError (js "Expected an array") path)

/-- The options of `stringValue`. -/
structure StringOptions where
  /-- The least number of code points. -/
  min : ℕ := 0
  /-- The greatest number of code points. -/
  max : Option ℕ := none
  /-- The pattern that the string is tested for. -/
  pattern : JsString → Bool := fun _ => true

/-- `stringValue(value, path, options)`. -/
def stringValue (value : JsValue) (path : JsString) (options : StringOptions) :
    Except ProtocolError JsString :=
  match value with
  | .str s =>
    if (codePoints s).length < options.min then .error (schemaError (js "String is too short") path)
    else if options.max.any fun max => decide (max < (codePoints s).length) then
      .error (schemaError (js "String is too long") path)
    else if !options.pattern s then
      .error (schemaError (js "String does not match the required format") path)
    else .ok s
  | _ => .error (schemaError (js "Expected a string") path)

/-- `literal(value, expected, path)`. -/
def literal (value : JsValue) (expected path : JsString) : Except ProtocolError Unit :=
  if value = .str expected then .ok ()
  else .error (schemaError (js "Expected " ++ quote expected) path)

/-- Whether a code unit is an ASCII letter or digit. -/
def isAlphanumeric (u : UInt16) : Bool :=
  isDigit u || (65 ≤ u && u ≤ 90) || (97 ≤ u && u ≤ 122)

/-- `IDENTIFIER_PATTERN`. -/
def identifierPattern : JsString → Bool
  | [] => false
  | u :: s => isAlphanumeric u && s.all fun v => isAlphanumeric v || (js "._:/-").contains v

/-- Whether a code unit is a lowercase hexadecimal digit. -/
def isLowerHex (u : UInt16) : Bool := isDigit u || (97 ≤ u && u ≤ 102)

/-- `DIGEST_PATTERN`. -/
def digestPattern (s : JsString) : Bool :=
  decide (s.take 7 = js "sha256:") && decide ((s.drop 7).length = 64) && (s.drop 7).all isLowerHex

/-- Two digits between two numbers. -/
def twoDigits (least greatest : ℕ) (u v : UInt16) : Bool :=
  isDigit u && isDigit v && decide (least ≤ digitsValue [u, v] ∧ digitsValue [u, v] ≤ greatest)

/-- `TIMESTAMP_PATTERN`. -/
def timestampPattern : JsString → Bool
  | [y₁, y₂, y₃, y₄, p₁, m₁, m₂, p₂, d₁, d₂, p₃, h₁, h₂, p₄, n₁, n₂, p₅, s₁, s₂, p₆, f₁, f₂, f₃,
      p₇] =>
    [y₁, y₂, y₃, y₄, f₁, f₂, f₃].all isDigit && [p₁, p₂, p₃, p₄, p₅, p₆, p₇] == js "--T::.Z" &&
      twoDigits 1 12 m₁ m₂ && twoDigits 0 31 d₁ d₂ && twoDigits 0 23 h₁ h₂ &&
      twoDigits 0 59 n₁ n₂ && twoDigits 0 59 s₁ s₂
  | _ => false

/-- `identifier(value, path)`. -/
def identifier (value : JsValue) (path : JsString) : Except ProtocolError JsString :=
  stringValue value path { min := 1, max := some 256, pattern := identifierPattern }

/-- `digest(value, path)`. -/
def digest (value : JsValue) (path : JsString) : Except ProtocolError JsString :=
  stringValue value path { pattern := digestPattern }

/-- The comparison of bytes by the first difference, then by length. -/
def compareBytes : List UInt8 → List UInt8 → ℤ
  | a :: as, b :: bs => if a = b then compareBytes as bs else (a.toNat : ℤ) - b.toNat
  | as, bs => (as.length : ℤ) - bs.length

/-- `compareCanonicalValues(left, right)`. -/
def compareCanonicalValues (left right : JsValue) : Except ProtocolError ℤ := do
  let leftBytes ← canonicalProtocolBytes left
  let rightBytes ← canonicalProtocolBytes right
  return compareBytes leftBytes rightBytes

/-- `canonicalSet(values, path)`. -/
def canonicalSet (path : JsString) : List JsValue → Except ProtocolError Unit
  | a :: b :: values => do
    let comparison ← compareCanonicalValues a b
    if comparison = 0 then
      throw (nonCanonicalValue "Canonical set contains a duplicate member" path)
    if comparison > 0 then
      throw (nonCanonicalValue "Canonical set members are not in ascending order" path)
    canonicalSet path (b :: values)
  | _ => return ()

/-- Check the items of an array in turn, from the index on. -/
def eachItem {T : Type} (check : JsValue → JsString → Except ProtocolError T) (path : JsString) :
    ℕ → List JsValue → Except ProtocolError (List T)
  | _, [] => return []
  | index, item :: items => do
    let first ← check item (itemPath path index)
    let rest ← eachItem check path (index + 1) items
    return first :: rest

/-- `resourceDescriptor(value, path)`. -/
def resourceDescriptor (value : JsValue) (path : JsString) : Except ProtocolError Unit := do
  let required := [js "uri", js "mediaType", js "digest"]
  let record ← closedRecord value path required required
  let _ ← stringValue (field record "uri") (fieldPath path "uri") { min := 1, max := some 2048 }
  let _ ← stringValue (field record "mediaType") (fieldPath path "mediaType")
    { min := 1, max := some 256 }
  let _ ← digest (field record "digest") (fieldPath path "digest")

/-- The kind of a word, and its schema in `descriptorSchema(kind)`. -/
def descriptorSchema (kind : JsString) : Except ProtocolError ObjectKind :=
  if kind = js "state" then .ok .state
  else if kind = js "effect" then .ok .effect
  else if kind = js "statement" then .ok .statement
  else if kind = js "commit" then .ok .commit
  else .error (schemaError (js "Unknown protocol object kind") (js "$.kind"))

/-- `parseObjectDescriptor(value, path)`. -/
def parseObjectDescriptor (value : JsValue) (path : JsString) :
    Except ProtocolError ObjectDescriptor := do
  assertProtocolDomain value
  let required := [js "kind", js "schema", js "digest"]
  let record ← closedRecord value path required required
  let word ← stringValue (field record "kind") (fieldPath path "kind") {}
  let kind ← descriptorSchema word
  literal (field record "schema") (expectedSchema kind) (fieldPath path "schema")
  let hash ← digest (field record "digest") (fieldPath path "digest")
  return ⟨kind, expectedSchema kind, hash⟩

/-- `descriptorOfKind(value, kind, path)`. -/
def descriptorOfKind (kind : ObjectKind) (value : JsValue) (path : JsString) :
    Except ProtocolError ObjectDescriptor := do
  let descriptor ← parseObjectDescriptor value path
  if descriptor.kind ≠ kind then
    throw (schemaError (js "Expected a " ++ kind.text ++ js " descriptor") path)
  return descriptor

/-- `actorRef(value, path)`. -/
def actorRef (value : JsValue) (path : JsString) : Except ProtocolError Unit := do
  let required := [js "kind", js "id"]
  let record ← closedRecord value path required required
  if field record "kind" ∉ [JsValue.str (js "human"), .str (js "agent"), .str (js "service")] then
    throw (schemaError (js "Actor kind must be human, agent, or service") (fieldPath path "kind"))
  let _ ← stringValue (field record "id") (fieldPath path "id") { min := 1, max := some 512 }

/-- `evidenceRef(value, path)`. -/
def evidenceRef (value : JsValue) (path : JsString) : Except ProtocolError Unit := do
  let required := [js "resource", js "locator"]
  let record ← closedRecord value path required required
  resourceDescriptor (field record "resource") (fieldPath path "resource")
  let locatorRequired := [js "scheme", js "value"]
  let locator ← closedRecord (field record "locator") (fieldPath path "locator") locatorRequired
    locatorRequired
  let _ ← identifier (field locator "scheme") (fieldPath (fieldPath path "locator") "scheme")
  assertProtocolDomain (field locator "value")

/-- `evidenceSet(value, path, requireMember)`. -/
def evidenceSet (value : JsValue) (path : JsString) (requireMember : Bool) :
    Except ProtocolError Unit := do
  let values ← arrayValue value path
  if requireMember && values.isEmpty then
    throw (schemaError (js "Stated claims require evidence") path)
  let _ ← eachItem evidenceRef path 0 values
  canonicalSet path values

/-- `stringClaim(value, path)`: the mode of the claim. -/
def stringClaim (value : JsValue) (path : JsString) : Except ProtocolError JsString := do
  let allowed := [js "mode", js "value", js "evidence"]
  let modeRecord ← closedRecord value path [js "mode"] allowed
  let mode ← stringValue (field modeRecord "mode") (fieldPath path "mode") {}
  if mode = js "unspecified" then
    let _ ← closedRecord value path [js "mode"] [js "mode"]
    return mode
  if mode ∉ [js "stated", js "inferred", js "authored"] then
    throw (schemaError (js "Unknown Claim mode") (fieldPath path "mode"))
  let record ← closedRecord value path allowed allowed
  let _ ← stringValue (field record "value") (fieldPath path "value") { min := 1 }
  evidenceSet (field record "evidence") (fieldPath path "evidence") (decide (mode = js "stated"))
  return mode

/-- `proposalPredicate(value, path)`. -/
def proposalPredicate (value : JsValue) (path : JsString) : Except ProtocolError Unit := do
  let required := [js "intent", js "rationale"]
  let record ← closedRecord value path required required
  let _ ← stringClaim (field record "intent") (fieldPath path "intent")
  let _ ← stringClaim (field record "rationale") (fieldPath path "rationale")

/-- `decisionPolicy(value, path)`. -/
def decisionPolicy (value : JsValue) (path : JsString) : Except ProtocolError Unit := do
  let record ← closedRecord value path [js "mode"] [js "mode", js "resource"]
  if field record "mode" = .str (js "not_evaluated") then
    let _ ← closedRecord value path [js "mode"] [js "mode"]
  else if field record "mode" = .str (js "evaluated") then
    let required := [js "mode", js "resource"]
    let evaluated ← closedRecord value path required required
    resourceDescriptor (field evaluated "resource") (fieldPath path "resource")
  else throw (schemaError (js "Unknown Decision policy mode") (fieldPath path "mode"))

/-- `decisionPredicate(value, path)`. -/
def decisionPredicate (value : JsValue) (path : JsString) : Except ProtocolError Unit := do
  let required := [js "policy", js "considered", js "outcome", js "rationale", js "decidedAt"]
  let record ← closedRecord value path required required
  decisionPolicy (field record "policy") (fieldPath path "policy")
  let considered ← arrayValue (field record "considered") (fieldPath path "considered")
  let _ ← eachItem (descriptorOfKind .statement) (fieldPath path "considered") 0 considered
  canonicalSet (fieldPath path "considered") considered
  let outcome := field record "outcome"
  if outcome ∉ [JsValue.str (js "accepted"), .str (js "overridden"), .str (js "rejected")] then
    throw (schemaError (js "Unknown Decision outcome") (fieldPath path "outcome"))
  let mode ← stringClaim (field record "rationale") (fieldPath path "rationale")
  if outcome = .str (js "overridden") ∧ mode ≠ js "authored" then
    throw (schemaError (js "Overridden Decisions require an authored rationale")
      (fieldPath path "rationale"))
  let _ ← stringValue (field record "decidedAt") (fieldPath path "decidedAt")
    { pattern := timestampPattern }

/-- `stateCodecRef(value, path)`. -/
def stateCodecRef (value : JsValue) (path : JsString) : Except ProtocolError Unit := do
  let required := [js "mediaType", js "version"]
  let record ← closedRecord value path required required
  let _ ← stringValue (field record "mediaType") (fieldPath path "mediaType")
    { min := 1, max := some 256 }
  let _ ← identifier (field record "version") (fieldPath path "version")

/-- `mutationDriverRef(value, path)`. -/
def mutationDriverRef (value : JsValue) (path : JsString) : Except ProtocolError Unit := do
  let required := [js "protocol", js "protocolVersion", js "specDigest"]
  let record ← closedRecord value path required required
  let _ ← identifier (field record "protocol") (fieldPath path "protocol")
  let _ ← identifier (field record "protocolVersion") (fieldPath path "protocolVersion")
  let _ ← digest (field record "specDigest") (fieldPath path "specDigest")

/-- `parseState(value)`. -/
def parseState (value : JsValue) : Except ProtocolError JsValue := do
  assertProtocolDomain value
  let required := [js "schema", js "codec", js "value"]
  let record ← closedRecord value (js "$") required required
  literal (field record "schema") stateSchema (js "$.schema")
  stateCodecRef (field record "codec") (js "$.codec")
  assertProtocolDomain (field record "value")
  return value

/-- The role of an input of an Effect, whose object is checked. -/
def effectInput (input : JsValue) (path : JsString) : Except ProtocolError JsString := do
  let required := [js "role", js "object"]
  let record ← closedRecord input path required required
  let role ← identifier (field record "role") (fieldPath path "role")
  let _ ← parseObjectDescriptor (field record "object") (fieldPath path "object")
  return role

/-- The inputs of an Effect, from an index on, after one with the role `previousRole`. -/
def effectInputs : (index : ℕ) → (previousRole : Option JsString) → List JsValue →
    Except ProtocolError Unit
  | _, _, [] => return ()
  | index, previousRole, input :: inputs => do
    let role ← effectInput input (itemPath (js "$.inputs") index)
    match previousRole with
    | none => effectInputs (index + 1) (some role) inputs
    | some previous =>
      if previous = role then
        throw (nonCanonicalValue "Effect input roles must be unique" (js "$.inputs"))
      if 0 ≤ compareCodeUnits previous role then
        throw (nonCanonicalValue "Effect inputs are not ordered by role" (js "$.inputs"))
      effectInputs (index + 1) (some role) inputs

/-- `parseEffectDefinition(value)`. -/
def parseEffectDefinition (value : JsValue) : Except ProtocolError JsValue := do
  assertProtocolDomain value
  let required := [js "driver", js "operations", js "inputs"]
  let record ← closedRecord value (js "$") required required
  mutationDriverRef (field record "driver") (js "$.driver")
  let operations ← arrayValue (field record "operations") (js "$.operations")
  let _ ← eachItem (fun operation _ => assertProtocolDomain operation) (js "$.operations") 0
    operations
  let inputs ← arrayValue (field record "inputs") (js "$.inputs")
  effectInputs 0 none inputs
  return value

/-- `parseEffect(value)`. -/
def parseEffect (value : JsValue) : Except ProtocolError JsValue := do
  assertProtocolDomain value
  let required := [js "schema", js "base", js "driver", js "operations", js "inputs", js "result"]
  let record ← closedRecord value (js "$") required required
  literal (field record "schema") effectSchema (js "$.schema")
  let _ ← descriptorOfKind .state (field record "base") (js "$.base")
  let _ ← parseEffectDefinition (.obj [(js "driver", field record "driver"),
    (js "operations", field record "operations"), (js "inputs", field record "inputs")])
  let _ ← descriptorOfKind .state (field record "result") (js "$.result")
  return value

/-- `parseStatement(value)`. -/
def parseStatement (value : JsValue) : Except ProtocolError JsValue := do
  assertProtocolDomain value
  let required := [js "schema", js "subjects", js "actor", js "predicateType", js "predicate"]
  let record ← closedRecord value (js "$") required required
  literal (field record "schema") statementSchema (js "$.schema")
  let subjects ← arrayValue (field record "subjects") (js "$.subjects")
  if subjects.isEmpty then
    throw (schemaError (js "Statements require at least one subject") (js "$.subjects"))
  let parsedSubjects ← eachItem parseObjectDescriptor (js "$.subjects") 0 subjects
  canonicalSet (js "$.subjects") subjects
  actorRef (field record "actor") (js "$.actor")
  let predicateType ← identifier (field record "predicateType") (js "$.predicateType")
  if predicateType = proposalPredicateType then
    if parsedSubjects.map ObjectDescriptor.kind ≠ [.effect] then
      throw (schemaError (js "Proposal must subject exactly one Effect") (js "$.subjects"))
    proposalPredicate (field record "predicate") (js "$.predicate")
    return value
  else if predicateType = decisionPredicateType then
    if parsedSubjects.map ObjectDescriptor.kind ≠ [.statement] then
      throw (schemaError (js "Decision must subject exactly one Proposal descriptor")
        (js "$.subjects"))
    decisionPredicate (field record "predicate") (js "$.predicate")
    return value
  else
    assertProtocolDomain (field record "predicate")
    return value

/-- `parseCommitV2(value)`. -/
def parseCommitV2 (value : JsValue) : Except ProtocolError JsValue := do
  assertProtocolDomain value
  let required := [js "schema", js "parents", js "decision", js "result"]
  let record ← closedRecord value (js "$") required required
  literal (field record "schema") commitV2Schema (js "$.schema")
  let parents ← arrayValue (field record "parents") (js "$.parents")
  let _ ← eachItem (descriptorOfKind .commit) (js "$.parents") 0 parents
  let _ ← descriptorOfKind .statement (field record "decision") (js "$.decision")
  let _ ← descriptorOfKind .state (field record "result") (js "$.result")
  return value

/-- The fields that some protocol object has. -/
def protocolFields : List JsString :=
  [js "schema", js "codec", js "value", js "base", js "driver", js "operations", js "inputs",
    js "result", js "subjects", js "actor", js "predicateType", js "predicate", js "parents",
    js "decision"]

/-- `parseProtocolObject(value)`. -/
def parseProtocolObject (value : JsValue) : Except ProtocolError JsValue := do
  assertProtocolDomain value
  let record ← closedRecord value (js "$") [js "schema"] protocolFields
  if field record "schema" = .str stateSchema then parseState value
  else if field record "schema" = .str effectSchema then parseEffect value
  else if field record "schema" = .str statementSchema then parseStatement value
  else if field record "schema" = .str commitV2Schema then parseCommitV2 value
  else throw (schemaError (js "Unknown protocol object schema") (js "$.schema"))

/-- `parseProtocolBytes(bytes)`. -/
def parseProtocolBytes (bytes : List UInt8) : Except ProtocolError JsValue := do
  let value ← parseProtocolJsonBytes bytes
  parseProtocolObject value

end T3x.Transition
