import T3x.Js.Buffer
import T3x.Js.DateText
import T3x.Keyset
import T3x.Storage.JsonParse

/-!
# Cursor pagination

A page holds the rows behind a cursor, one row more being read to see whether
there is another page. A cursor is the text of the place of a page's last row.
Following the cursors from the first page lists every row once, in the order of
the listing.
-/

namespace T3x.Storage

open Js

/-! ## Cursors -/

/-- `encodeCursor(t, k)`. -/
def encodeCursor (t k : JsString) : JsString :=
  encodeBase64url (encodeUtf8 (JsValue.encode Record.entries
    (.obj [(js "t", .str t), (js "k", .str k)])))

/-- `decodeCursor(cursor)`, with the message where it throws. -/
def decodeCursor (readOther : JsString → Option ℤ) (cursor : JsString) :
    Except JsString (JsString × JsString) :=
  let malformed := js "Invalid cursor: " ++ cursor.take 20 ++ js "..."
  match jsonParse (bufferText (decodeBase64url cursor)) with
  | none => .error malformed
  | some parsed =>
    match treeMember parsed (js "t"), treeMember parsed (js "k") with
    | some (.str t), some (.str k) =>
      if (dateParse readOther t).isNone then
        .error (js "Invalid cursor: timestamp is not a valid date")
      else .ok (t, k)
    | _, _ => .error malformed

/-- The text of a cursor. -/
theorem encode_cursor (t k : JsString) :
    JsValue.encode Record.entries (.obj [(js "t", .str t), (js "k", .str k)]) =
      unit '\x7b' :: (quote (js "t") ++ unit ':' :: (quote t ++ unit ',' ::
        (quote (js "k") ++ unit ':' :: (quote k ++ [unit '\x7d'])))) := by
  have hkeys : js "k" ≠ js "t" := by decide
  have hentries : Record.entries (Record.mapValues (JsValue.encode Record.entries)
      [(js "t", .str t), (js "k", .str k)]) = [(js "t", quote t), (js "k", quote k)] := by
    change Record.entries [(js "t", quote t), (js "k", quote k)] = _
    simp only [Record.entries, List.filter_cons, List.filter_nil, hkeys, ne_eq, not_false_eq_true,
      decide_true, if_true]
  rw [JsValue.encode_obj, hentries]
  simp only [List.map_cons, List.map_nil, join_cons_cons, join_singleton, memberText,
    List.append_assoc, List.cons_append]

/-- The text of a cursor is well formed. -/
theorem isWellFormed_cursor (t k : JsString) : isWellFormed (JsValue.encode Record.entries
    (.obj [(js "t", .str t), (js "k", .str k)])) = true :=
  JsValue.isWellFormed_encode (fun _ => List.Perm.refl _) _

/-- A cursor is decoded to what it was made of. -/
theorem decodeCursor_encodeCursor (readOther : JsString → Option ℤ) {t k : JsString}
    (ht : dateParse readOther t ≠ none) : decodeCursor readOther (encodeCursor t k) = .ok (t, k) := by
  have hparse : jsonParse (bufferText (decodeBase64url (encodeCursor t k))) =
      some (.obj [(js "t", .str t), (js "k", .str k)]) := by
    unfold encodeCursor
    rw [decodeBase64url_encodeBase64url, bufferText_encodeUtf8 (isWellFormed_cursor t k),
      encode_cursor, jsonParse_two_strings]
  have ht' : treeMember (.obj [(js "t", .str t), (js "k", .str k)]) (js "t") = some (.str t) := rfl
  have hk' : treeMember (.obj [(js "t", .str t), (js "k", .str k)]) (js "k") = some (.str k) := rfl
  unfold decodeCursor
  rw [hparse]
  dsimp only
  rw [ht', hk']
  dsimp only
  rw [if_neg (by simpa using ht)]

/-- A cursor is not the empty text of the first page. -/
theorem encodeCursor_ne_nil (t k : JsString) : encodeCursor t k ≠ [] := by
  refine encodeBase64url_ne_nil fun h => ?_
  have htext := bufferText_encodeUtf8 (isWellFormed_cursor t k)
  rw [h, encode_cursor] at htext
  cases htext

/-! ## Pages -/

/-- A page of rows. -/
structure CursorPage (T : Type) where
  /-- The rows. -/
  items : List T
  /-- The cursor of the next page. -/
  nextCursor : Option JsString
  /-- Whether there are more rows. -/
  hasMore : Bool

/-- `toCursorPage(rows, limit, extractCursor)`. -/
def toCursorPage {T : Type} (rows : List T) (limit : ℕ) (extractCursor : T → JsString × JsString) :
    CursorPage T :=
  let hasMore := decide (limit < rows.length)
  let items := if hasMore then rows.take limit else rows
  let nextCursor :=
    match hasMore, items.getLast? with
    | true, some last =>
      let (t, k) := extractCursor last
      some (encodeCursor t k)
    | _, _ => none
  ⟨items, nextCursor, hasMore⟩

/-! ## Listings -/

/-- The order of the database on keys. -/
structure KeyOrder where
  /-- Whether a key comes before another. -/
  lt : JsString → JsString → Bool
  /-- No key comes before itself. -/
  irrefl : ∀ key, lt key key = false
  /-- The order is transitive. -/
  trans : ∀ a b c, lt a b = true → lt b c = true → lt a c = true
  /-- The order is total. -/
  total : ∀ a b, a = b ∨ lt a b = true ∨ lt b a = true

/-- The columns of a table that a listing reads. -/
structure Columns (T : Type) where
  /-- The row that the row belongs to. -/
  parent : T → JsString
  /-- `createdAt`, in milliseconds. -/
  createdAt : T → ℤ
  /-- The key. -/
  key : T → JsString

section

variable {T : Type} (order : KeyOrder) (columns : Columns T) (descending : Bool)
variable (readOther : JsString → Option ℤ)

/-- The place of a row in a listing. -/
def Columns.place (row : T) : ℤ × JsString := (columns.createdAt row, columns.key row)

/-- `createdAt > t OR (createdAt = t AND key > k)`, or the other way where the listing descends. -/
def isAfter (cursor place : ℤ × JsString) : Bool :=
  if descending then
    decide (place.1 < cursor.1) || (decide (place.1 = cursor.1) && order.lt place.2 cursor.2)
  else decide (cursor.1 < place.1) || (decide (place.1 = cursor.1) && order.lt cursor.2 place.2)

/-- `ORDER BY createdAt, key`, both in the direction of the listing. -/
def InOrder (row other : T) : Prop :=
  isAfter order descending (columns.place other) (columns.place row) = false

instance : DecidableRel (InOrder order columns descending) :=
  fun _ _ => inferInstanceAs (Decidable (_ = false))

/-- The query of a listing in cursor mode: a page of the rows of a parent. -/
def findPage (table : List T) (parent cursor : JsString) (limit : ℕ) :
    Except JsString (CursorPage T) := do
  let conditions ←
    if cursor ≠ [] then do
      let (t, k) ← decodeCursor readOther cursor
      -- The date of a decoded cursor is valid.
      let date := (dateParse readOther t).getD 0
      pure fun row => isAfter order descending (date, k) (columns.place row)
    else pure fun _ => true
  let selected := table.filter fun row => decide (columns.parent row = parent) && conditions row
  let rows := (selected.insertionSort (InOrder order columns descending)).take (limit + 1)
  pure (toCursorPage rows limit fun row => (toISOString (columns.createdAt row), columns.key row))

end

/-- The pages from a cursor on, if there are no more than the number. -/
def followPages {T : Type} (find : JsString → Except JsString (CursorPage T)) :
    ℕ → JsString → Except JsString (Option (List (CursorPage T)))
  | 0, _ => .ok none
  | fuel + 1, cursor => do
    let page ← find cursor
    match page.nextCursor with
    | none => pure (some [page])
    | some next =>
      let others ← followPages find fuel next
      pure (others.map (page :: ·))

/-! ## The two listings -/

/-- A row of the table `turns`. -/
structure TurnRow where
  /-- The conversation. -/
  conversationId : JsString
  /-- When the turn was created. -/
  createdAt : ℤ
  /-- The primary key. -/
  turnHash : JsString
  deriving DecidableEq

/-- A row of the table `conversations`. -/
structure ConversationRow where
  /-- The project. -/
  projectId : JsString
  /-- When the conversation was created. -/
  createdAt : ℤ
  /-- The primary key. -/
  conversationId : JsString
  deriving DecidableEq

/-- The columns of turns. -/
def turnColumns : Columns TurnRow := ⟨(·.conversationId), (·.createdAt), (·.turnHash)⟩

/-- The columns of conversations. -/
def conversationColumns : Columns ConversationRow := ⟨(·.projectId), (·.createdAt),
  (·.conversationId)⟩

/-- The direction of a listing. -/
inductive OrderDir where
  | asc
  | desc
  deriving DecidableEq

/-- `findTurnsByConversation(db, options)` in cursor mode. -/
def findTurnsByConversation (order : KeyOrder) (readOther : JsString → Option ℤ)
    (turns : List TurnRow) (conversationId : JsString) (limit : Option ℕ)
    (orderDir : Option OrderDir) (cursor : JsString) : Except JsString (CursorPage TurnRow) :=
  findPage order turnColumns (decide (orderDir.getD .asc = .desc)) readOther turns conversationId
    cursor (limit.getD 100)

/-- `findConversationsByProject(db, options)` in cursor mode, which lists the newest first. -/
def findConversationsByProject (order : KeyOrder) (readOther : JsString → Option ℤ)
    (conversations : List ConversationRow) (projectId : JsString) (limit : Option ℕ)
    (cursor : JsString) : Except JsString (CursorPage ConversationRow) :=
  findPage order conversationColumns true readOther conversations projectId cursor
    (limit.getD 100)

end T3x.Storage
