import T3x.Realtime.InStep

/-!
# Runs of the room manager

Connections join and leave, sessions are revoked and events are broadcast, in
any order and with any sends failing. Every room key keeps one listener. The
room keys are those with a connection, and an event reaches only the rooms it is
for, as long as each broadcast spares a connection of every room and no id of a
conversation reads as the key of a project.
-/

namespace T3x.Realtime

open Js T3x.Run

/-! ## Operations -/

/-- An operation, with the sends that fail: by the turn in the operation where it has several, the
room, and the connection. -/
inductive Op where
  /-- A connection joins a room. -/
  | join (fails : JsString → Bool) (roomKey : JsString) (conn : RoomConnection)
  /-- A connection leaves a room. -/
  | leave (fails : JsString → Bool) (roomKey connectionId : JsString)
  /-- A session is revoked. -/
  | disconnectSession (fails : ℕ → JsString → JsString → Bool) (sessionId : JsString)
  /-- An event is broadcast. -/
  | broadcast (fails : ℕ → JsString → JsString → Bool) (event : RealtimeEvent)

/-- The state after an operation. -/
def apply (s : State) : Op → State
  | .join fails roomKey conn => join fails roomKey conn s
  | .leave fails roomKey connectionId => leave fails roomKey connectionId s
  | .disconnectSession fails sessionId => disconnectSession fails sessionId s
  | .broadcast fails event => broadcast fails event s

/-- The state after the operations. -/
def run (ops : List Op) : State := ops.foldl apply State.initial

/-! ## Logical rooms -/

/-- The room of a conversation whose id does not read as a project's, or the room of a project. -/
def IsRoomKey (roomKey : JsString) : Prop :=
  (∃ id, roomKey = js "conv:" ++ id ∧ startsWith id (js "project:") = false) ∨
    ∃ id, roomKey = js "project:" ++ id

/-- The channel of a conversation. -/
theorem roomKeyToChannel_conv (id : JsString) :
    roomKeyToChannel (js "conv:" ++ id) = js "room:" ++ id := by
  rw [roomKeyToChannel, if_pos (startsWith_iff.mpr (List.prefix_append _ _)), List.drop_left]

/-- The channel of a project. -/
theorem roomKeyToChannel_project (id : JsString) :
    roomKeyToChannel (js "project:" ++ id) = js "room:project:" ++ id := by
  have hconv : ¬startsWith (js "project:" ++ id) (js "conv:") = true := by
    have hhead : js "project:" = unit 'p' :: js "roject:" := by decide
    have hconvHead : js "conv:" = unit 'c' :: js "onv:" := by decide
    have hne : unit 'c' ≠ unit 'p' := by decide
    rw [startsWith_iff, hhead, hconvHead, List.cons_append, List.cons_prefix_cons]
    exact fun h => hne h.1
  rw [roomKeyToChannel, if_neg hconv, if_pos (startsWith_iff.mpr (List.prefix_append _ _)),
    List.drop_left]

/-- The channel of a project is that of the conversation whose id reads as the project's key. -/
theorem channel_project (id : JsString) :
    js "room:project:" ++ id = js "room:" ++ (js "project:" ++ id) := by
  have hparts : js "room:project:" = js "room:" ++ js "project:" := by decide
  rw [hparts, List.append_assoc]

/-- Logical rooms have different channels. -/
theorem roomKeyToChannel_injective {roomKey roomKey' : JsString} (h : IsRoomKey roomKey)
    (h' : IsRoomKey roomKey') (hchannel : roomKeyToChannel roomKey = roomKeyToChannel roomKey') :
    roomKey = roomKey' := by
  have hproject : ∀ id id' : JsString, startsWith id (js "project:") = false →
      id ≠ js "project:" ++ id' := by
    rintro id id' hid rfl
    rw [startsWith_iff.mpr (List.prefix_append _ _)] at hid
    cases hid
  rcases h with ⟨id, rfl, hid⟩ | ⟨id, rfl⟩ <;> rcases h' with ⟨id', rfl, hid'⟩ | ⟨id', rfl⟩
  · rw [roomKeyToChannel_conv, roomKeyToChannel_conv] at hchannel
    rw [List.append_cancel_left hchannel]
  · rw [roomKeyToChannel_conv, roomKeyToChannel_project, channel_project] at hchannel
    exact absurd (List.append_cancel_left hchannel) (hproject id id' hid)
  · rw [roomKeyToChannel_conv, roomKeyToChannel_project, channel_project] at hchannel
    exact absurd (List.append_cancel_left hchannel).symm (hproject id' id hid')
  · rw [roomKeyToChannel_project, roomKeyToChannel_project] at hchannel
    rw [List.append_cancel_left hchannel]

/-! ## The invariant -/

/-- The room keys are those with a connection, each with its one listener on its channel, and no
other listener is registered. -/
structure InStep (s : State) : Prop extends Linked s where
  /-- A room key is one with a connection. -/
  live : ∀ key, Record.has s.rooms key = true ↔ ∃ entry, entry ∈ s.room key

/-- What is delivered from a state on goes to connections of a room in this state. -/
def DeliversTo (s t : State) (roomKey : JsString) : Prop :=
  ∀ d ∈ t.delivered.drop s.delivered.length, ∃ id, (id, d.1) ∈ s.room roomKey

/-- What the broadcast of an event delivers on the channel of its conversation goes to connections
of the conversation's room, and then what it delivers on the channel of its project, if it has one,
to connections of the project's room. -/
def Confined (fails : ℕ → JsString → JsString → Bool) (event : RealtimeEvent) (s : State) :
    Prop :=
  let t := emit (fails 0) (js "room:" ++ event.conversationId) event s
  DeliversTo s t (js "conv:" ++ event.conversationId) ∧
    ∀ projectId ∈ event.projectId, projectId ≠ [] →
      DeliversTo t (emit (fails 1) (js "room:project:" ++ projectId) event t)
        (js "project:" ++ projectId)

/-- An operation is orderly in a state. A room that is joined is a logical room. The conversation
of an event that is broadcast has a logical room, and of each room a connection is spared on every
channel of the event that is the room's. -/
def Op.Orderly (s : State) : Op → Prop
  | .join _ roomKey _ => IsRoomKey roomKey
  | .leave _ _ _ => True
  | .disconnectSession _ _ => True
  | .broadcast fails event => startsWith event.conversationId (js "project:") = false ∧
      ∀ key, Record.has s.rooms key = true → ∃ entry ∈ s.room key,
        ∀ channel ∈ (channelsOf event).zipIdx, channel.1 = roomKeyToChannel key →
          spared (fails channel.2 key) event none entry = true

/-- Rooms are linked to their listeners, none is empty, and all are logical rooms. -/
structure Inv (s : State) : Prop where
  /-- Each room has its listener. -/
  linked : Linked s
  /-- No room is empty. -/
  occupied : Occupied s
  /-- The rooms are logical rooms. -/
  logical : ∀ key, Record.has s.rooms key = true → IsRoomKey key

/-- A process starts without rooms. -/
theorem inv_initial : Inv State.initial where
  linked := ⟨fun _ => rfl, fun _ h => absurd h List.not_mem_nil, fun _ h => by cases h⟩
  occupied _ h := by cases h
  logical _ h := by cases h

section

variable {s : State} {roomKey : JsString}

/-- The room keys after a leave are among those before it. -/
theorem has_of_leave {fails : JsString → Bool} {connectionId key : JsString}
    (h : Record.has (leave fails roomKey connectionId s).rooms key = true) :
    Record.has s.rooms key = true := by
  unfold leave at h
  split at h
  · exact h
  · next room hroom =>
    have hhas : Record.has s.rooms roomKey = true := Record.has_eq_true.mpr ⟨room, hroom⟩
    dsimp only at h
    rw [closeRoom_has, Bool.and_eq_true] at h
    replace h := h.1
    split at h
    · rwa [State.setRoom_has _ hhas] at h
    · rwa [broadcastToRoom_has, State.setRoom_has _ hhas] at h

/-- A leave keeps the invariant. -/
theorem Inv.leave (h : Inv s) (fails : JsString → Bool) (roomKey connectionId : JsString) :
    Inv (leave fails roomKey connectionId s) where
  linked := h.linked.leave
  occupied := h.occupied.leave
  logical key hkey := h.logical key (has_of_leave hkey)

/-- A join of a logical room keeps the invariant. -/
theorem Inv.join (h : Inv s) (fails : JsString → Bool) (conn : RoomConnection)
    (hroom : IsRoomKey roomKey) : Inv (join fails roomKey conn s) where
  linked := h.linked.join
  occupied := h.occupied.join
  logical key hkey := by
    have hopen : Record.has (openRoom roomKey s).rooms roomKey = true := by
      rw [openRoom_has, decide_eq_true rfl, Bool.true_or]
    unfold Realtime.join at hkey
    rw [broadcastToRoom_has, State.setRoom_has _ hopen, openRoom_has, Bool.or_eq_true,
      decide_eq_true_iff] at hkey
    rcases hkey with rfl | hkey
    · exact hroom
    · exact h.logical key hkey

/-- Connections that leave every room keep the invariant. -/
theorem Inv.leaveAll (h : Inv s) (fails : JsString → JsString → Bool) (connectionId : JsString) :
    Inv (leaveAll fails connectionId s) := by
  unfold Realtime.leaveAll
  generalize s.rooms.map Prod.fst = keys
  induction keys generalizing s with
  | nil => exact h
  | cons key keys ih => exact ih (h.leave (fails key) key connectionId)

/-- The revocation of a session keeps the invariant. -/
theorem Inv.disconnectSession (h : Inv s) (fails : ℕ → JsString → JsString → Bool)
    (sessionId : JsString) : Inv (disconnectSession fails sessionId s) := by
  unfold Realtime.disconnectSession
  generalize (sessionConnections sessionId s).zipIdx = turns
  induction turns generalizing s with
  | nil => exact h
  | cons turn turns ih => exact ih (h.leaveAll (fails turn.2) turn.1.2.id)

/-- A broadcast that spares a connection of every room keeps the invariant. -/
theorem Inv.broadcast (h : Inv s) {fails : ℕ → JsString → JsString → Bool} {event : RealtimeEvent}
    (horderly : (Op.broadcast fails event).Orderly s) : Inv (broadcast fails event s) := by
  obtain ⟨hlinked, hrooms⟩ := h.linked.emissions fails event (channelsOf event).zipIdx
  refine ⟨hlinked, fun key hkey => ?_, fun key hkey => ?_⟩
  · have hhas : Record.has s.rooms key = true := (hrooms key).1 ▸ hkey
    obtain ⟨entry, hentry, hspared⟩ := horderly.2 key hhas
    exact List.ne_nil_of_mem ((hrooms key).2 entry hentry hspared)
  · exact h.logical key ((hrooms key).1 ▸ hkey)

/-- Every orderly operation keeps the invariant. -/
theorem Inv.apply (h : Inv s) {op : Op} (horderly : op.Orderly s) : Inv (apply s op) := by
  cases op with
  | join fails roomKey conn => exact h.join fails conn horderly
  | leave fails roomKey connectionId => exact h.leave fails roomKey connectionId
  | disconnectSession fails sessionId => exact h.disconnectSession fails sessionId
  | broadcast fails event => exact h.broadcast horderly

/-- A room with a connection is there. -/
theorem has_of_mem_room {entry : JsString × RoomConnection} (h : entry ∈ s.room roomKey) :
    Record.has s.rooms roomKey = true := by
  by_contra hnone
  rw [Bool.not_eq_true, Record.has_eq_false] at hnone
  rw [State.room, hnone] at h
  cases h

/-- Rooms that are not empty are those with a connection. -/
theorem Inv.inStep (h : Inv s) : InStep s where
  toLinked := h.linked
  live key := ⟨fun hkey => List.exists_mem_of_ne_nil _ (h.occupied key hkey),
    fun ⟨_, hentry⟩ => has_of_mem_room hentry⟩

/-- An emission on the channel of a logical room delivers to its connections. -/
theorem Linked.deliversTo (h : Linked s) {fails : JsString → JsString → Bool}
    {event : RealtimeEvent} {channel : JsString}
    (hlogical : ∀ key, Record.has s.rooms key = true → IsRoomKey key) (hroom : IsRoomKey roomKey)
    (hchannel : roomKeyToChannel roomKey = channel) :
    DeliversTo s (Realtime.emit fails channel event s) roomKey := by
  obtain ⟨sent, hsent, hrooms⟩ := (broadcasts_emit fails channel event s).delivered
  intro d hd
  rw [hsent, List.drop_left] at hd
  obtain ⟨key, hkey, id, hmem⟩ := hrooms d hd
  obtain rfl := roomKeyToChannel_injective (hlogical key (has_of_mem_room hmem)) hroom
    ((h.roomKeyToChannel_of_mem hkey).trans hchannel.symm)
  exact ⟨id, hmem⟩

/-- A broadcast of an event whose conversation has a logical room is confined to its rooms. -/
theorem Inv.confined (h : Inv s) (fails : ℕ → JsString → JsString → Bool) {event : RealtimeEvent}
    (hevent : startsWith event.conversationId (js "project:") = false) :
    Confined fails event s := by
  refine ⟨h.linked.deliversTo h.logical (.inl ⟨_, rfl, hevent⟩) (roomKeyToChannel_conv _), ?_⟩
  intro projectId _ _
  have hfirst := broadcasts_emit (fails 0) (js "room:" ++ event.conversationId) event s
  refine Linked.deliversTo (h.linked.emit _ _ _) (fun key hkey => ?_) (.inr ⟨_, rfl⟩)
    (roomKeyToChannel_project _)
  exact h.logical key (hfirst.has key ▸ hkey)

end

/-- In every run of orderly operations rooms and listeners stay in step, and a broadcast from there
is confined to the rooms of its event. -/
theorem rooms_in_step {ops : List Op}
    (h : AllMeet apply (fun s op => op.Orderly s) State.initial ops) :
    InStep (run ops) ∧ ∀ fails event,
      startsWith event.conversationId (js "project:") = false → Confined fails event (run ops) := by
  have hinv : Inv (run ops) := h.invariant (fun s op horderly hs => hs.apply horderly) inv_initial
  exact ⟨hinv.inStep, fun fails event hevent => hinv.confined fails hevent⟩

/-- A connection without a session. -/
def firstConnection : RoomConnection := { id := js "c1" }

/-- An event of a conversation in a project. -/
def applied : RealtimeEvent where
  type := .yopsApplied
  conversationId := js "a"
  projectId := some (js "x")

/-- The sends of an operation that all succeed. -/
def allSucceed : ℕ → JsString → JsString → Bool := fun _ _ _ => false

/-- A connection joins a room and gets an event. -/
theorem rooms_in_step_join_broadcast :
    InStep (run [.join (fun _ => false) (js "conv:a") firstConnection,
      .broadcast allSucceed applied]) ∧
    ∀ fails event, startsWith event.conversationId (js "project:") = false →
      Confined fails event (run [.join (fun _ => false) (js "conv:a") firstConnection,
        .broadcast allSucceed applied]) := by
  refine rooms_in_step ⟨.inl ⟨js "a", by decide, by decide⟩, ⟨by decide, fun key hkey => ?_⟩, trivial⟩
  have hroom : key = js "conv:a" := by
    rw [apply, join, broadcastToRoom_has, State.setRoom_has _ (by decide), openRoom_has] at hkey
    simpa [State.initial, Record.has, Record.get] using hkey
  subst hroom
  refine ⟨(js "c1", firstConnection), by decide, fun channel _ _ => ?_⟩
  simp [spared, allSucceed]

/-- A broadcast whose send fails leaves a room without a connection, and the room of a conversation
whose id reads as a project's key gets the events of the project. -/
theorem not_rooms_in_step :
    ¬InStep (run [.join (fun _ => false) (js "conv:a") firstConnection,
      .broadcast (fun _ _ _ => true) applied]) ∧
    ¬Confined allSucceed applied
      (run [.join (fun _ => false) (js "conv:project:x") firstConnection]) := by
  constructor
  · intro h
    obtain ⟨entry, hentry⟩ := (h.live (js "conv:a")).mp (by decide)
    have hempty : (run [.join (fun _ => false) (js "conv:a") firstConnection,
      .broadcast (fun _ _ _ => true) applied]).room (js "conv:a") = [] := by decide
    rw [hempty] at hentry
    cases hentry
  · rintro ⟨-, h⟩
    obtain ⟨id, hmem⟩ := h (js "x") rfl (by decide) (firstConnection, applied) (by decide)
    have hempty : (emit (allSucceed 0) (js "room:" ++ applied.conversationId) applied
        (run [.join (fun _ => false) (js "conv:project:x") firstConnection])).room
          (js "project:" ++ js "x") = [] := by decide
    rw [hempty] at hmem
    cases hmem

end T3x.Realtime
