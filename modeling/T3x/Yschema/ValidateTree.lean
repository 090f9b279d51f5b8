import T3x.Yschema.Validate

/-!
# Relations, rules and the whole validation

Relations are checked against the types that the schema declares: their endpoints,
repetition, and cycles among those of an acyclic type. A type is looked up as a
property of an object, so a name that every object inherits is found as well; it
has no pattern to match an endpoint against, and the match throws.
-/

namespace T3x.Yschema

open Js

/-! ## Endpoints -/

/-- `endpointMatches`. -/
def endpointMatches (pattern path : JsString) : Bool :=
  let patternSegments := split (unit '/') pattern
  let pathSegments := split (unit '/') path
  decide (patternSegments.length = pathSegments.length) &&
    (patternSegments.zip pathSegments).all fun (segment, other) =>
      decide (segment = js "*" ∨ segment = other)

/-- `relationKey`. -/
def relationKey (relation : YSchemaRelation) : JsString :=
  relation.type ++ 0 :: relation.from ++ 0 :: relation.to

/-- `pushRelationError`: the error. -/
def relationError (code : String) (message : JsString) (details : Record JsValue) : Finding :=
  .error ⟨code, js "$relations", message, some details⟩

/-- An index as a value. -/
def indexValue (index : ℕ) : JsValue := .num (countNumber index)

/-- What `relationTypes[type]` gives. -/
inductive RelationTypeLookup where
  | declared (schema : RelationTypeSchema)
  | inherited
  | missing

/-- `relationTypes[type]`: a declared type, or what every object inherits under the name. -/
def relationTypeOf (schema : YSchema) (type : JsString) : RelationTypeLookup :=
  match Record.get (schema.relationTypes.getD []) type with
  | some typeSchema => .declared typeSchema
  | none => if type ∈ inheritedNames then .inherited else .missing

/-! ## Cycles -/

/-- `RelationEdge`: from and to. -/
abbrev RelationEdge := JsString × JsString

/-- `adjacency.get(node)`. -/
def targets (edges : List RelationEdge) (node : JsString) : List JsString :=
  (edges.filter fun e => decide (e.1 = node)).map Prod.snd

/-- `adjacency.keys()`. -/
def edgeNodes (edges : List RelationEdge) : List JsString :=
  distinct (edges.flatMap fun e => [e.1, e.2])

/-- `visit`, at most `fuel` calls deep: the nodes on the stack are those being visited.
A cycle that is found ends the search; otherwise the visited nodes are returned. -/
def visit (edges : List RelationEdge) : ℕ → List JsString → List JsString → JsString →
    Except (List JsString) (List JsString)
  | 0, _, visited, _ => .ok visited
  | fuel + 1, stack, visited, node =>
    if node ∈ stack then .error (stack.drop (stack.idxOf node) ++ [node])
    else if node ∈ visited then .ok visited
    else do
      let visited ← (targets edges node).foldlM
        (fun visited next => visit edges fuel (stack ++ [node]) visited next) visited
      return node :: visited

/-- `findCycle`: the stack never holds a node twice, so it is no longer than the list of
the nodes. -/
def findCycle (edges : List RelationEdge) : Option (List JsString) :=
  let nodes := edgeNodes edges
  match nodes.foldlM (fun visited node => visit edges (nodes.length + 1) [] visited node) [] with
  | .error cycle => some cycle
  | .ok _ => none

/-! ## Relations -/

section

variable (input : ValidationInput)

/-- One endpoint of a relation against the pattern of its type, none for an inherited type. -/
def validateEndpoint (pattern : Option JsString) (index : ℕ) (side : String)
    (endpoint : JsString) : List Finding :=
  let details := [(js "index", indexValue index), (js "side", .str (js side)),
    (js "endpoint", .str endpoint)]
  let message (text : JsString) := js side ++ js " endpoint \"" ++ endpoint ++ js "\"" ++ text
  if isPath endpoint then
    demand (resolvePath input.tree endpoint).isSome
      (relationError "BROKEN_RELATION_ENDPOINT" (message (js " does not exist.")) details) ++
    match pattern with
    | some pattern => demand (endpointMatches pattern endpoint)
        (relationError "RELATION_ENDPOINT_MISMATCH"
          (message (js " does not match " ++ pattern ++ js "."))
          (details ++ [(js "pattern", .str pattern)]))
    | none => [.thrown (js "Cannot read properties of undefined (reading 'split')")]
  else [relationError "INVALID_RELATION_ENDPOINT" (message (js " is invalid.")) details]

/-- The patterns of a type that is found, from and to. -/
def RelationTypeLookup.patterns : RelationTypeLookup → Option (Option JsString × Option JsString)
  | .declared typeSchema => some (some typeSchema.from, some typeSchema.to)
  | .inherited => some (none, none)
  | .missing => none

/-- Both endpoints of a relation. -/
def validateEndpoints (patterns : Option JsString × Option JsString) (index : ℕ)
    (relation : YSchemaRelation) : List Finding :=
  validateEndpoint input patterns.1 index "from" relation.from ++
  validateEndpoint input patterns.2 index "to" relation.to

/-- `seen.has(key)`: an earlier relation of a type that is found has the same key. -/
def seenBefore (earlier : List YSchemaRelation) (relation : YSchemaRelation) : Bool :=
  earlier.any fun other => (relationTypeOf input.schema other.type).patterns.isSome &&
    decide (relationKey other = relationKey relation)

/-- One relation, given the relations before it. -/
def validateRelation (earlier : List YSchemaRelation) (relation : YSchemaRelation) :
    List Finding :=
  let index := earlier.length
  let details := [(js "index", indexValue index), (js "relation", relation.value)]
  match (relationTypeOf input.schema relation.type).patterns with
  | none => [relationError "INVALID_RELATION_TYPE"
      (js "Relation type \"" ++ relation.type ++ js "\" is not declared.") details]
  | some patterns =>
    validateEndpoints input patterns index relation ++
    demand (decide (relation.from ≠ relation.to)) (relationError "SELF_RELATION"
      (js "Relation \"" ++ relation.type ++ js "\" cannot point to itself.") details) ++
    demand (!seenBefore input earlier relation) (relationError "DUPLICATE_RELATION"
      (js "Relation \"" ++ relation.type ++ js "\" is duplicated.") details)

/-- Whether a relation is an edge among which cycles are looked for: its type is acyclic,
its endpoints are right and it does not repeat an earlier one. -/
def isAcyclicEdge (earlier : List YSchemaRelation) (relation : YSchemaRelation) : Bool :=
  match relationTypeOf input.schema relation.type with
  | .declared typeSchema =>
    (validateEndpoints input (some typeSchema.from, some typeSchema.to) earlier.length
      relation).isEmpty && !seenBefore input earlier relation && typeSchema.acyclic == some true &&
      !earlier.any fun other => decide (relationKey other = relationKey relation)
  | _ => false

/-- Every relation with those before it. -/
def withEarlier (relations : List YSchemaRelation) :
    List (List YSchemaRelation × YSchemaRelation) :=
  relations.zipIdx.map fun entry => (relations.take entry.2, entry.1)

/-- `validateRelations`. -/
def validateRelations : List Finding :=
  let relations := withEarlier input.relations
  let acyclic := (relations.filter fun r => isAcyclicEdge input r.1 r.2).map Prod.snd
  relations.flatMap (fun r => validateRelation input r.1 r.2) ++
  (distinct (acyclic.map YSchemaRelation.type)).flatMap fun type =>
    let edges := (acyclic.filter fun r => decide (r.type = type)).map fun r => (r.from, r.to)
    (findCycle edges).toList.map fun cycle => relationError "RELATION_CYCLE"
      (js "Relation type \"" ++ type ++ js "\" must be acyclic.")
      [(js "type", .str type), (js "cycle", .arr (cycle.map .str))]

/-! ## Rules -/

/-- `validateRequiredRelationRule`. -/
def validateRequiredRelationRule (rule : RequiredRelationRuleSchema) : List Finding :=
  demand (input.relations.any fun relation => decide (relation.type = rule.relationType) &&
      endpointMatches rule.from relation.from && endpointMatches rule.to relation.to)
    (relationError "REQUIRED_RELATION_MISSING"
      (js "Rule \"" ++ rule.id ++ js "\" requires a " ++ rule.relationType ++
        js " relation from " ++ rule.from ++ js " to " ++ rule.to ++ js ".")
      [(js "ruleId", .str rule.id), (js "relationType", .str rule.relationType),
        (js "from", .str rule.from), (js "to", .str rule.to)])

/-- `validateRules`. -/
def validateRules : List Finding :=
  (input.schema.rules.getD []).flatMap fun rule =>
    match rule with
    | .reserved _ => []
    | .requiredRelation rule => validateRequiredRelationRule input rule

end

/-! ## The result -/

/-- `gapRank`. -/
def gapRank (code : String) : ℤ :=
  ["REQUIRED_NODE_MISSING", "REQUIRED_SLOT_MISSING", "DEFAULT_REQUIRES_APPROVAL",
    "REQUIRED_EVIDENCE_MISSING", "USER_CHOICE_REQUIRED", "USER_INPUT_REQUIRED"].idxOf code

/-- The errors among the findings. -/
def errorsOf (found : List Finding) : List ValidationError :=
  found.filterMap fun f => match f with
    | .error e => some e
    | _ => none

/-- The gaps among the findings. -/
def gapsOf (found : List Finding) : List ValidationGap :=
  found.filterMap fun f => match f with
    | .gap g => some g
    | _ => none

/-- The fixes among the findings. -/
def fixesOf (found : List Finding) : List FixProposal :=
  found.filterMap fun f => match f with
    | .fix f => some f
    | _ => none

/-- What was thrown first. -/
def thrownIn (found : List Finding) : Option JsString :=
  found.findSome? fun f => match f with
    | .thrown message => some message
    | _ => none

section

-- `new RegExp(pattern).test(value)` and `left.localeCompare(right)`
variable (regExpTest : JsString → JsString → Bool) (localeCompare : JsString → JsString → Int)

/-- `compareGaps`. -/
def compareGaps (left right : ValidationGap) : Int :=
  let rankDelta := gapRank left.code - gapRank right.code
  if rankDelta ≠ 0 then rankDelta else localeCompare left.path right.path

/-- What the validation finds. -/
def findings (input : ValidationInput) : List Finding :=
  validateSchemaShape input.schema ++ documentFindings regExpTest input ++
  validateRelations input ++ validateRules input

/-- `validateTree`. -/
def validateTree (input : ValidationInput) : Except JsString ValidationResult :=
  let found := findings regExpTest input
  match thrownIn found with
  | some message => .error message
  | none =>
    let errors := errorsOf found
    let gaps := gapsOf found
    .ok
      { valid := errors.isEmpty
        ready := errors.isEmpty && gaps.isEmpty
        errors
        gaps := sortBy (compareGaps localeCompare) gaps
        fixes := addFixes (fixesOf found) }

end

end T3x.Yschema
