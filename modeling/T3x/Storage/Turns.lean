import T3x.Interleave
import T3x.Js.Date
import T3x.Js.Order
import T3x.Yops.Canonical

/-!
# Turns

The turns of a conversation name their parents by hash. A transaction that inserts
a turn reads the clock, opens the tracking window of its conversation if none is
open, takes the last committed turn as the parent, inserts the turn and commits.
-/

namespace T3x.Storage

open Js Interleave

/-! ## Rows -/

/-- A row of `turns`. -/
structure Turn where
  /-- The hash of the turn, its primary key. -/
  turnHash : JsString
  /-- The hash of the turn before it. -/
  parentTurnHash : Option JsString
  /-- The project. -/
  projectId : JsString
  /-- The conversation. -/
  conversationId : JsString
  /-- Who speaks. -/
  role : JsString
  /-- What is said. -/
  content : JsString
  /-- The language. -/
  language : Option JsString
  /-- The text of the rings. -/
  ringsJson : Option JsString
  /-- The blocks of the content. -/
  contentBlocks : Option (List JsValue)
  /-- The clock, in milliseconds. -/
  createdAt : ℤ

/-- What an insertion uses of a row of `conversations`. -/
structure Conversation (ι : Type) where
  /-- The project. -/
  projectId : JsString
  /-- The conversation. -/
  conversationId : JsString
  /-- When its pending window was opened. -/
  commitTrackingStartedAt : Option ℤ
  /-- The transaction that has updated the row and not ended yet. -/
  lockedBy : Option ι

/-- `CreateTurnInput`. -/
structure CreateTurnInput where
  /-- The project. -/
  projectId : JsString
  /-- The conversation. -/
  conversationId : JsString
  /-- Who speaks. -/
  role : JsString
  /-- What is said. -/
  content : JsString
  /-- The language. -/
  language : Option JsString
  /-- The rings. -/
  rings : Option JsValue
  /-- The blocks of the content. -/
  content_blocks : Option (List JsValue)

/-- The committed rows. -/
structure TurnStore (ι : Type) where
  /-- The conversations. -/
  conversations : List (Conversation ι)
  /-- The turns, in the order of their commits. -/
  turns : List Turn

/-- Why an insertion fails. -/
inductive InsertTurnError where
  /-- Another turn has the hash. -/
  | uniqueViolation
  /-- There is no such conversation. -/
  | foreignKeyViolation
  deriving DecidableEq

/-! ## Reading turns -/

/-- The turns of one conversation. -/
def inConversation (turns : List Turn) (conversationId : JsString) : List Turn :=
  turns.filter fun turn => turn.conversationId = conversationId

/-- Whether a turn comes before another when the last are listed first. -/
def isLater (turn other : Turn) : Bool :=
  other.createdAt < turn.createdAt ||
    (other.createdAt = turn.createdAt && compareCodeUnits other.turnHash turn.turnHash < 0)

/-- The later one of the turns read so far and one more. -/
def laterTurn : Option Turn → Turn → Option Turn
  | none, turn => some turn
  | some best, turn => if isLater turn best then some turn else some best

/-- `findLastTurnInConversation`. -/
def findLastTurnInConversation (turns : List Turn) (conversationId : JsString) : Option Turn :=
  (inConversation turns conversationId).foldl laterTurn none

/-- `findTurnByHash`. -/
def findTurnByHash (turns : List Turn) (turnHash : JsString) : Option Turn :=
  turns.find? fun turn => turn.turnHash = turnHash

/-- The walk of `findTurnChain` over the parents, with the room that the limit leaves. -/
def walkParents (byHash : JsString → Option Turn) : ℕ → Option JsString → List Turn → List Turn
  | room + 1, some currentHash, chain =>
    if currentHash = [] then chain
    else match byHash currentHash with
      | none => chain
      | some turn => walkParents byHash room turn.parentTurnHash (turn :: chain)
  | _, _, chain => chain

/-- The map of the rows by their hashes, where a later row replaces an earlier one. -/
def byHash (rows : List Turn) (turnHash : JsString) : Option Turn :=
  rows.reverse.find? fun turn => turn.turnHash = turnHash

/-- `findTurnChain`. Which rows the database answers where more than ten thousand qualify, and
in which order, is up to the database. -/
def findTurnChain (turns : List Turn) (fetch : List Turn → List Turn) (endTurnHash : JsString)
    (limit : ℕ) : List Turn :=
  match findTurnByHash turns endTurnHash with
  | none => []
  | some endTurn =>
    let allTurns := fetch (inConversation turns endTurn.conversationId)
    walkParents (byHash allTurns) limit (some endTurnHash) []

/-- What a query with a limit and no order may answer. -/
def AnswersUpTo (limit : ℕ) (rows answer : List Turn) : Prop :=
  answer.Subperm rows ∧ answer.length = min limit rows.length

/-! ## Inserting turns -/

/-- Whether a condition on a JSON value holds. -/
def isTruthy : JsValue → Bool
  | .null => false
  | .bool b => b
  | .num x => x.mant ≠ 0
  | .str s => s ≠ []
  | _ => true

/-- A text, or null. -/
def textOrNull : Option JsString → JsValue
  | none => .null
  | some text => .str text

-- The hexadecimal SHA-256 digest of the RFC 8785 text of a value.
variable (sha256OfJcs : JsValue → JsString)

/-- `computeJCSHash`. -/
def computeJCSHash (data : JsValue) : JsString := js "sha256:" ++ sha256OfJcs data

/-- The data that is hashed for a turn. -/
def turnHashData (turn : Turn) : JsValue :=
  let before : Record JsValue :=
    [(js "parent_turn_hash", textOrNull turn.parentTurnHash),
      (js "project_id", .str turn.projectId),
      (js "conversation_id", .str turn.conversationId),
      (js "role", .str turn.role),
      (js "content", .str turn.content)]
  let after (version : String) : Record JsValue :=
    [(js "language", textOrNull turn.language),
      (js "rings_json", textOrNull turn.ringsJson),
      (js "created_at", .str (toISOString turn.createdAt)),
      (js "schema_version", .str (js version))]
  match turn.contentBlocks with
  | some (block :: blocks) =>
    .obj (before ++ (js "content_blocks", .arr (block :: blocks)) :: after "turn_v2")
  | _ => .obj (before ++ after "turn_v1")

/-- `computeTurnHash`, which does not read the hash of the turn. -/
def computeTurnHash (turn : Turn) : JsString := computeJCSHash sha256OfJcs (turnHashData turn)

/-- The row that is inserted after the last turn. -/
def newTurn (createdAt : ℤ) (input : CreateTurnInput) (lastTurn : Option Turn) : Turn :=
  let turn : Turn :=
    { turnHash := []
      parentTurnHash := lastTurn.map Turn.turnHash
      projectId := input.projectId
      conversationId := input.conversationId
      role := input.role
      content := input.content
      language := input.language
      ringsJson := input.rings.bind fun rings =>
        if isTruthy rings then some (Yops.stringify rings) else none
      contentBlocks := input.content_blocks
      createdAt := createdAt }
  { turn with turnHash := computeTurnHash sha256OfJcs turn }

variable {ι : Type} [DecidableEq ι]

/-- Whether the update of the tracking window selects the row. -/
def isUntracked (input : CreateTurnInput) (row : Conversation ι) : Bool :=
  row.projectId = input.projectId && row.conversationId = input.conversationId &&
    row.commitTrackingStartedAt.isNone

/-- The update of the tracking window: it waits for a transaction that has updated the row, and
keeps the row locked. -/
def beginTracking (tx : ι) (input : CreateTurnInput) :
    Prog (TurnStore ι) InsertTurnError Unit :=
  .act
    (fun s => s.conversations.all fun row =>
      !isUntracked input row || row.lockedBy.all fun other => other = tx)
    (fun s => { s with
      conversations := s.conversations.map fun row =>
        if isUntracked input row then { row with lockedBy := some tx } else row })
    fun _ => .done (.ok ())

/-- The end of a transaction: its rows are no longer locked. -/
def release (tx : ι) (conversations : List (Conversation ι)) : List (Conversation ι) :=
  conversations.map fun row =>
    if row.lockedBy = some tx then { row with lockedBy := none } else row

/-- The commit: the rows that the transaction has locked are tracked from its time on. -/
def commitTracking (tx : ι) (createdAt : ℤ) (conversations : List (Conversation ι)) :
    List (Conversation ι) :=
  conversations.map fun row =>
    if row.lockedBy = some tx then
      { row with commitTrackingStartedAt := some createdAt, lockedBy := none }
    else row

/-- Why the row may not be inserted. -/
def insertRefusal (s : TurnStore ι) (turn : Turn) : Option InsertTurnError :=
  if s.turns.any fun old => old.turnHash = turn.turnHash then some .uniqueViolation
  else if s.conversations.all fun row => row.conversationId ≠ turn.conversationId then
    some .foreignKeyViolation
  else none

/-- The insertion. A refused one rolls the transaction back. -/
def insertRow (tx : ι) (turn : Turn) : Prog (TurnStore ι) InsertTurnError Unit :=
  .act (fun _ => true)
    (fun s => match insertRefusal s turn with
      | some _ => { s with conversations := release tx s.conversations }
      | none => s)
    fun s => match insertRefusal s turn with
      | some error => .done (.error error)
      | none => .done (.ok ())

/-- The commit. Where a turn with the hash has been committed since the insertion, the database
has made the insertion wait for it and then refused it. -/
def commitTurn (tx : ι) (turn : Turn) : Prog (TurnStore ι) InsertTurnError Turn :=
  .act (fun _ => true)
    (fun s => match insertRefusal s turn with
      | some _ => { s with conversations := release tx s.conversations }
      | none =>
        { conversations := commitTracking tx turn.createdAt s.conversations
          turns := s.turns ++ [turn] })
    fun s => match insertRefusal s turn with
      | some error => .done (.error error)
      | none => .done (.ok turn)

/-- `insertTurn`, by a transaction that reads the clock as `createdAt`. -/
def insertTurn (tx : ι) (createdAt : ℤ) (input : CreateTurnInput) :
    Prog (TurnStore ι) InsertTurnError Turn := do
  beginTracking tx input
  let lastTurn ← .query fun s => findLastTurnInConversation s.turns input.conversationId
  let turn := newTurn sha256OfJcs createdAt input lastTurn
  insertRow tx turn
  commitTurn tx turn

end T3x.Storage
