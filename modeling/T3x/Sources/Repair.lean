import T3x.Sources.Projection

/-!
# Repairing the quotes of operations

A quote that is no part of its turn is replaced by a text that is one: a
candidate of the quote, the span of the turn that projects to a candidate, a
value that the operation writes or, without a quote, the place where the name
that it defines is found in lower case. A position of the lowered text is used
in the turn itself, where a lowered text of another length makes it too large.
-/

namespace T3x.Sources

open Js

/-- `turn_ref` of a source. -/
structure TurnRef where
  /-- The hash of the turn. -/
  turnHash : Option JsString
  /-- The quote. -/
  quote : Option JsString

/-- The source of an operation. -/
structure Source where
  /-- The type of the source. -/
  type : Option JsString
  /-- The turn that the operation comes out of. -/
  turnRef : Option TurnRef

/-- An operation with its source, which may be missing. -/
structure SourcedYOp where
  /-- The operation. -/
  op : JsValue
  /-- Its source. -/
  source : Option Source

/-- `ValidationTurn`. -/
structure ValidationTurn where
  /-- The hash of the turn. -/
  turnHash : JsString
  /-- Its text. -/
  content : JsString

/-- `turnMap.get(hash)`: the last turn with the hash. -/
def turnContent (turns : List ValidationTurn) (hash : JsString) : Option JsString :=
  (turns.reverse.find? fun turn => decide (turn.turnHash = hash)).map (·.content)

/-- The text that the quote of an operation belongs to: that of the turn of a source of the
type `llm`, unless it is empty. -/
def SourcedYOp.content (turns : List ValidationTurn) (op : SourcedYOp) : Option JsString := do
  let source ← op.source
  if source.type ≠ some (js "llm") then none
  else
    let hash ← (← source.turnRef).turnHash
    if hash = [] then none
    else (turnContent turns hash).filter fun content => decide (content ≠ [])

/-- `src.turn_ref.quote`. -/
def SourcedYOp.quote (op : SourcedYOp) : Option JsString := do
  (← (← op.source).turnRef).quote

/-- `src.turn_ref.quote = quote`. -/
def SourcedYOp.withQuote (quote : JsString) (op : SourcedYOp) : SourcedYOp :=
  { op with source := op.source.map fun source =>
      { source with turnRef := source.turnRef.map fun turnRef =>
          { turnRef with quote := some quote } } }

/-- Strategies 1 and 2: the first candidate that is a part of the content, else the first that
its projection contains. -/
def candidateQuote (content quote : JsString) : Option JsString :=
  let candidates := generateQuoteCandidates quote
  (candidates.findSome? (tryExactQuote content)).or
    (candidates.findSome? fun candidate =>
      (repairFromMarkdownProjection content candidate).filter fun span => decide (span ≠ []))

/-- A value of at least four characters that is a part of the content. -/
def valueQuote (content : JsString) : JsValue → Option JsString
  | .str s => if 4 ≤ s.length ∧ includes content s = true then some s else none
  | _ => none

/-- A string, or the string at the front of an array. -/
def scalarOf : JsValue → Option JsValue
  | .str s => some (.str s)
  | .arr (.str s :: _) => some (.str s)
  | _ => none

/-- `Object.values(value)` of an object or an array. -/
def objectValues : JsValue → List JsValue
  | .arr items => items
  | .obj members => members.map (·.2)
  | _ => []

/-- Strategies 3 and 4: the value that is set, else the first scalar that is populated. -/
def scalarQuote (op : JsValue) (content : JsString) : Option JsString :=
  (valueQuote content ((op.member "set").member "value")).or
    (((objectValues ((op.member "populate").member "values")).findSome? scalarOf).bind
      (valueQuote content))

/-- `definePath.split('/').pop()?.replace(/_/g, ' ')` of a path that is given. -/
def defineKeyword (op : JsValue) : Option JsString :=
  match (op.member "define").member "path" with
  | .str path =>
    if path = [] then none
    else (split (unit '/') path).getLast?.map fun last =>
      last.map fun u => if u = unit '_' then unit ' ' else u
  | _ => none

/-- Where the keyword of a definition is found in the lowered content. -/
def keywordIndex (toLowerCase : JsString → JsString) (content keyword : JsString) : Option ℕ :=
  if 3 ≤ keyword.length then indexOf (toLowerCase content) (toLowerCase keyword) 0 else none

/-- Strategy 5: as long a text of the content at the position of the keyword. -/
def keywordQuote (toLowerCase : JsString → JsString) (op : JsValue) (content : JsString) :
    Option JsString := do
  let keyword ← defineKeyword op
  let idx ← keywordIndex toLowerCase content keyword
  return slice content idx (idx + keyword.length)

/-- The quote that an operation is repaired to. An empty quote is no quote. -/
def repairedQuote (toLowerCase : JsString → JsString) (op : JsValue) (content : JsString)
    (quote : Option JsString) : Option JsString :=
  match quote.filter fun quote => decide (quote ≠ []) with
  | some quote =>
    if includes content quote then none
    else (candidateQuote content quote).or (scalarQuote op content)
  | none => (scalarQuote op content).or (keywordQuote toLowerCase op content)

/-- The step of the loop of `repairOpQuotes`. -/
def repairOp (toLowerCase : JsString → JsString) (turns : List ValidationTurn)
    (op : SourcedYOp) : SourcedYOp :=
  match (op.content turns).bind fun content =>
    repairedQuote toLowerCase op.op content op.quote with
  | some quote => op.withQuote quote
  | none => op

/-- `repairOpQuotes`: the operations afterwards. -/
def repairOpQuotes (toLowerCase : JsString → JsString) (ops : List SourcedYOp)
    (turns : List ValidationTurn) : List SourcedYOp :=
  ops.map (repairOp toLowerCase turns)

end T3x.Sources
