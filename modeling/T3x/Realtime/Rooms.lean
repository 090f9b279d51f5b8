import T3x.Js.Search
import T3x.Js.Json

/-!
# Rooms

Connections are grouped in rooms under logical keys. The first connection of a
room registers a listener on the channel of the room, and an event on the
channel is sent to the connections of the room that may receive it. A connection
disappears when it leaves, when its session is revoked, and when a send to it
fails.
-/

namespace T3x.Realtime

open Js

/-! ## Events and connections -/

/-- `RealtimeEventType`. -/
inductive RealtimeEventType where
  | draftChanged
  | extractionStarted
  | extractionDone
  | yopsApplied
  | commitCreated
  | branchAdvanced
  | conversationRenamed
  | presenceJoin
  | presenceLeave
  deriving DecidableEq, Repr

/-- `RealtimeEvent`, without its timestamp. -/
structure RealtimeEvent where
  /-- What happened. -/
  type : RealtimeEventType
  /-- The conversation. -/
  conversationId : JsString
  /-- The project, if one is given. -/
  projectId : Option JsString := none
  /-- The user, if one is given. -/
  userId : Option JsString := none
  /-- The payload, if one is given. -/
  payload : Option (Record JsValue) := none
  deriving DecidableEq

/-- `RoomConnection`, without its socket and the time it joined. -/
structure RoomConnection where
  /-- The connection. -/
  id : JsString
  /-- The user, if known. -/
  userId : Option JsString := none
  /-- The session that authenticated the socket, if any. -/
  sessionId : Option JsString := none
  /-- The kind and the id of the principal that owns the Workspace, if known. -/
  workspaceOwner : Option (JsString × JsString) := none
  /-- Whether authentication is disabled. -/
  authenticationDisabled : Bool := false
  deriving DecidableEq

/-- The text under a name of the payload, if a text is there. -/
def RealtimeEvent.payloadText (event : RealtimeEvent) (name : String) : Option JsString :=
  match event.payload.bind fun payload => Record.get payload (js name) with
  | some (.str text) => some text
  | _ => none

/-- `canReceiveRealtimeEvent(conn, event)`. -/
def canReceiveRealtimeEvent (conn : RoomConnection) (event : RealtimeEvent) : Bool :=
  match event.payloadText "workspace_id" with
  | none => true
  | some workspaceId =>
    if workspaceId = [] then true
    else if conn.authenticationDisabled then true
    else
      match event.payloadText "owner_principal_kind", event.payloadText "owner_principal_id" with
      | some ownerKind, some ownerId => decide (conn.workspaceOwner = some (ownerKind, ownerId))
      | _, _ => false

/-- `roomKeyToChannel(roomKey)`. -/
def roomKeyToChannel (roomKey : JsString) : JsString :=
  if startsWith roomKey (js "conv:") then js "room:" ++ roomKey.drop (js "conv:").length
  else if startsWith roomKey (js "project:") then
    js "room:project:" ++ roomKey.drop (js "project:").length
  else js "room:" ++ roomKey

/-- `presenceConversationIdFor(roomKey)`. -/
def presenceConversationIdFor (roomKey : JsString) : JsString :=
  if startsWith roomKey (js "conv:") then roomKey.drop (js "conv:").length
  else if startsWith roomKey (js "project:") then []
  else roomKey

/-! ## The state -/

/-- The listener that is made for a room. Listeners that are made at different times are different
functions. -/
structure Listener where
  /-- The room that the listener broadcasts to. -/
  roomKey : JsString
  /-- The number of listeners that were made before. -/
  serial : ℕ
  deriving DecidableEq

/-- The state of the room manager and of the event bus, with what the sockets got. -/
structure State where
  /-- The connections of each room, under their ids. -/
  rooms : Record (Record RoomConnection)
  /-- The listener of each room, with its channel. -/
  listeners : Record (JsString × Listener)
  /-- The listeners that are registered with the event bus, with their channels, in order. -/
  bus : List (JsString × Listener)
  /-- The number of listeners that were made. -/
  created : ℕ
  /-- The events that were delivered, with their connections, in order. -/
  delivered : List (RoomConnection × RealtimeEvent)

/-- The state of a process that starts. -/
def State.initial : State := ⟨[], [], [], 0, []⟩

/-- The connections of a room. -/
def State.room (s : State) (roomKey : JsString) : Record RoomConnection :=
  (Record.get s.rooms roomKey).getD []

/-- The state with other connections in a room. -/
def State.setRoom (s : State) (roomKey : JsString) (room : Record RoomConnection) : State :=
  { s with rooms := Record.mapSet s.rooms roomKey room }

/-- The loop of `broadcastToRoom` over the connections of a room: those that stay, and what is
delivered. The predicate says which sends fail. -/
def sendAll (fails : JsString → Bool) (event : RealtimeEvent) (exclude : Option JsString) :
    Record RoomConnection → Record RoomConnection × List (RoomConnection × RealtimeEvent)
  | [] => ([], [])
  | (id, conn) :: room =>
    let (rest, sent) := sendAll fails event exclude room
    if some id = exclude then ((id, conn) :: rest, sent)
    else if canReceiveRealtimeEvent conn event = false then ((id, conn) :: rest, sent)
    else if fails id then (rest, sent)
    else ((id, conn) :: rest, (conn, event) :: sent)

/-- `this.broadcastToRoom(roomKey, event, excludeConnectionId)`. -/
def broadcastToRoom (fails : JsString → Bool) (roomKey : JsString) (event : RealtimeEvent)
    (exclude : Option JsString) (s : State) : State :=
  match Record.get s.rooms roomKey with
  | none => s
  | some room =>
    let (rest, sent) := sendAll fails event exclude room
    { s.setRoom roomKey rest with delivered := s.delivered ++ sent }

/-- The event of a connection that joins or leaves a room. -/
def presenceEvent (type : RealtimeEventType) (roomKey : JsString) (conn : RoomConnection)
    (connectionId : JsString) : RealtimeEvent where
  type := type
  conversationId := presenceConversationIdFor roomKey
  userId := conn.userId
  payload := some [(js "connectionId", .str connectionId)]

/-- The first part of `join`: a new room, with its listener, if there is none. -/
def openRoom (roomKey : JsString) (s : State) : State :=
  if Record.has s.rooms roomKey then s
  else
    let channel := roomKeyToChannel roomKey
    let listener : Listener := ⟨roomKey, s.created⟩
    { s with
      rooms := Record.mapSet s.rooms roomKey []
      listeners := Record.mapSet s.listeners roomKey (channel, listener)
      bus := s.bus ++ [(channel, listener)]
      created := s.created + 1 }

/-- `roomManager.join(roomKey, conn)`. -/
def join (fails : JsString → Bool) (roomKey : JsString) (conn : RoomConnection) (s : State) :
    State :=
  let s := openRoom roomKey s
  let s := s.setRoom roomKey (Record.mapSet (s.room roomKey) conn.id conn)
  broadcastToRoom fails roomKey (presenceEvent .presenceJoin roomKey conn conn.id)
    (some conn.id) s

/-- `eventBus.off(channel, listener)`: the last registration of the listener is removed. -/
def off (entry : JsString × Listener) (bus : List (JsString × Listener)) :
    List (JsString × Listener) :=
  (bus.reverse.erase entry).reverse

/-- The last part of `leave`: an empty room goes, with its listener. -/
def closeRoom (roomKey : JsString) (s : State) : State :=
  if s.room roomKey = [] then
    match Record.get s.listeners roomKey with
    | none => { s with rooms := Record.erase s.rooms roomKey }
    | some entry =>
      { s with
        rooms := Record.erase s.rooms roomKey
        listeners := Record.erase s.listeners roomKey
        bus := off entry s.bus }
  else s

/-- `roomManager.leave(roomKey, connectionId)`. -/
def leave (fails : JsString → Bool) (roomKey connectionId : JsString) (s : State) : State :=
  match Record.get s.rooms roomKey with
  | none => s
  | some room =>
    let conn := Record.get room connectionId
    let s := s.setRoom roomKey (Record.erase room connectionId)
    let s := match conn with
      | none => s
      | some conn =>
        broadcastToRoom fails roomKey (presenceEvent .presenceLeave roomKey conn connectionId) none s
    closeRoom roomKey s

/-- The connections that a session authenticated, under their ids. -/
def sessionConnections (sessionId : JsString) (s : State) : Record RoomConnection :=
  let all := s.rooms.flatMap fun room => room.2
  (all.filter fun entry => decide (entry.2.sessionId = some sessionId)).foldl
    (fun connections entry => Record.mapSet connections entry.2.id entry.2) []

/-- One connection of a revoked session leaves every room. -/
def leaveAll (fails : JsString → JsString → Bool) (connectionId : JsString) (s : State) : State :=
  (s.rooms.map Prod.fst).foldl (fun s roomKey => leave (fails roomKey) roomKey connectionId s) s

/-- `roomManager.disconnectSession(sessionId)`. The sends of each connection's turn fail as its
predicate says; closing a socket changes no room. -/
def disconnectSession (fails : ℕ → JsString → JsString → Bool) (sessionId : JsString)
    (s : State) : State :=
  (sessionConnections sessionId s).zipIdx.foldl
    (fun s entry => leaveAll (fails entry.2) entry.1.2.id s) s

/-- `eventBus.emit(channel, event)`: each listener that is registered on the channel broadcasts
the event to its room. -/
def emit (fails : JsString → JsString → Bool) (channel : JsString) (event : RealtimeEvent)
    (s : State) : State :=
  (s.bus.filter fun entry => decide (entry.1 = channel)).foldl
    (fun s entry => broadcastToRoom (fails entry.2.roomKey) entry.2.roomKey event none s) s

/-- The channels of `eventBus.broadcast(event)`, in order. -/
def channelsOf (event : RealtimeEvent) : List JsString :=
  (js "room:" ++ event.conversationId) ::
    match event.projectId with
    | none => []
    | some projectId => if projectId = [] then [] else [js "room:project:" ++ projectId]

/-- `eventBus.broadcast(event)`. -/
def broadcast (fails : ℕ → JsString → JsString → Bool) (event : RealtimeEvent) (s : State) :
    State :=
  (channelsOf event).zipIdx.foldl (fun s channel => emit (fails channel.2) channel.1 event s) s

end T3x.Realtime
