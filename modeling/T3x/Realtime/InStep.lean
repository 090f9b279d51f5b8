import T3x.Realtime.Rooms
import T3x.Run

/-!
# Rooms and listeners stay in step

Each room has one listener, on its channel, whatever the operations do. Every
operation but a broadcast also leaves no room empty, since a join spares the
connection that joins and a leave closes the room that it empties. A broadcast
leaves no room empty where it spares a connection of each.
-/

namespace T3x.Realtime

open Js

/-! ## What the operations do to a room -/

/-- The connections of a room that are set. -/
theorem State.setRoom_room (s : State) (roomKey key : JsString) (room : Record RoomConnection) :
    (s.setRoom roomKey room).room key = if key = roomKey then room else s.room key := by
  simp only [setRoom, State.room, Record.get_mapSet]
  split_ifs <;> rfl

/-- The connections of a room that is there are set. -/
theorem State.setRoom_has {s : State} {roomKey : JsString} (room : Record RoomConnection)
    (h : Record.has s.rooms roomKey = true) (key : JsString) :
    Record.has (s.setRoom roomKey room).rooms key = Record.has s.rooms key := by
  rw [setRoom, Record.has, Record.get_mapSet]
  split_ifs with hkey
  · rw [hkey, h]
    rfl
  · rfl

section

variable {fails : JsString → Bool} {roomKey : JsString} {event : RealtimeEvent}
  {exclude : Option JsString} {s : State}

/-- Whether a connection is spared in the broadcast of an event: it is excluded, it may not receive
the event, or the send to it succeeds. -/
def spared (fails : JsString → Bool) (event : RealtimeEvent) (exclude : Option JsString)
    (entry : JsString × RoomConnection) : Bool :=
  decide (some entry.1 = exclude) || !canReceiveRealtimeEvent entry.2 event || !fails entry.1

/-- The connections that stay are those that are spared. -/
theorem sendAll_fst (room : Record RoomConnection) :
    (sendAll fails event exclude room).1 = room.filter (spared fails event exclude) := by
  induction room with
  | nil => rfl
  | cons entry room ih =>
    obtain ⟨id, conn⟩ := entry
    rw [sendAll]
    dsimp only
    split_ifs with hexclude hreceive hfails
    · rw [List.filter_cons_of_pos (by simp [spared, hexclude]), ih]
    · rw [List.filter_cons_of_pos (by simp [spared, hreceive]), ih]
    · rw [List.filter_cons_of_neg (by simpa [spared, hexclude, hfails] using hreceive), ih]
    · rw [List.filter_cons_of_pos (by simp [spared, hfails]), ih]

/-- The event is delivered to connections of the room. -/
theorem mem_of_mem_sendAll_snd {room : Record RoomConnection} {d : RoomConnection × RealtimeEvent}
    (h : d ∈ (sendAll fails event exclude room).2) : ∃ id, (id, d.1) ∈ room := by
  induction room with
  | nil => cases h
  | cons entry room ih =>
    obtain ⟨id, conn⟩ := entry
    have hrest : d ∈ (sendAll fails event exclude room).2 → ∃ id', (id', d.1) ∈ (id, conn) :: room :=
      fun h => (ih h).imp fun _ hmem => List.mem_cons_of_mem _ hmem
    rw [sendAll] at h
    dsimp only at h
    split_ifs at h
    · exact hrest h
    · exact hrest h
    · exact hrest h
    · rcases List.mem_cons.mp h with rfl | h
      · exact ⟨id, List.mem_cons_self⟩
      · exact hrest h

/-- A broadcast registers and removes no listener. -/
@[simp] theorem broadcastToRoom_bus :
    (broadcastToRoom fails roomKey event exclude s).bus = s.bus := by
  unfold broadcastToRoom
  split <;> rfl

/-- A broadcast records and forgets no listener. -/
@[simp] theorem broadcastToRoom_listeners :
    (broadcastToRoom fails roomKey event exclude s).listeners = s.listeners := by
  unfold broadcastToRoom
  split <;> rfl

/-- A broadcast keeps the room keys. -/
@[simp] theorem broadcastToRoom_has (key : JsString) :
    Record.has (broadcastToRoom fails roomKey event exclude s).rooms key =
      Record.has s.rooms key := by
  unfold broadcastToRoom
  split
  · rfl
  · next room hroom => exact State.setRoom_has _ (Record.has_eq_true.mpr ⟨room, hroom⟩) key

/-- A broadcast keeps the connections of the room that are spared, and every other room. -/
theorem broadcastToRoom_room (key : JsString) :
    (broadcastToRoom fails roomKey event exclude s).room key =
      if key = roomKey then (s.room roomKey).filter (spared fails event exclude)
      else s.room key := by
  unfold broadcastToRoom
  split
  · next hnone =>
    split_ifs with hkey
    · simp [hkey, State.room, hnone]
    · rfl
  · next room hroom =>
    have hbefore : s.room roomKey = room := by
      rw [State.room, hroom]
      rfl
    rw [hbefore, ← sendAll_fst]
    exact s.setRoom_room roomKey key _

/-- A broadcast delivers to connections of the room. -/
theorem broadcastToRoom_delivered (fails : JsString → Bool) (roomKey : JsString)
    (event : RealtimeEvent) (exclude : Option JsString) (s : State) :
    ∃ sent, (broadcastToRoom fails roomKey event exclude s).delivered = s.delivered ++ sent ∧
      ∀ d ∈ sent, ∃ id, (id, d.1) ∈ s.room roomKey := by
  unfold broadcastToRoom
  split
  · exact ⟨[], (List.append_nil _).symm, fun _ hd => absurd hd List.not_mem_nil⟩
  · next room hroom =>
    refine ⟨_, rfl, fun d hd => ?_⟩
    rw [State.room, hroom]
    exact mem_of_mem_sendAll_snd hd

end

/-! ## Rooms and their listeners -/

/-- Each room has one listener that is registered with the event bus, on the channel of the room,
and this is the one that is recorded for it. No other listener is registered. -/
structure Linked (s : State) : Prop where
  /-- A listener is registered once for each room, and for no other key. -/
  registered : ∀ key, s.bus.countP (fun entry => decide (entry.2.roomKey = key)) =
    if Record.has s.rooms key then 1 else 0
  /-- Each listener is on the channel of its room. -/
  channels : ∀ entry ∈ s.bus, entry.1 = roomKeyToChannel entry.2.roomKey
  /-- The listener of a room is recorded. -/
  recorded : ∀ key, Record.has s.rooms key = true → ∃ entry,
    Record.get s.listeners key = some entry ∧ entry ∈ s.bus ∧ entry.2.roomKey = key

/-- No room is empty. -/
def Occupied (s : State) : Prop := ∀ key, Record.has s.rooms key = true → s.room key ≠ []

section

variable {s t : State} {roomKey : JsString} {event : RealtimeEvent} {exclude : Option JsString}

/-- What is registered is linked to the room keys alone. -/
theorem Linked.congr (h : Linked s) (hbus : t.bus = s.bus) (hlisteners : t.listeners = s.listeners)
    (hhas : ∀ key, Record.has t.rooms key = Record.has s.rooms key) : Linked t where
  registered key := by rw [hbus, hhas]; exact h.registered key
  channels := by rw [hbus]; exact h.channels
  recorded key hkey := by
    rw [hlisteners, hbus]
    exact h.recorded key (hhas key ▸ hkey)

/-- A broadcast keeps rooms and listeners linked. -/
theorem Linked.broadcastToRoom {fails : JsString → Bool} (h : Linked s) :
    Linked (broadcastToRoom fails roomKey event exclude s) :=
  h.congr broadcastToRoom_bus broadcastToRoom_listeners broadcastToRoom_has

/-- A room that is opened is there. -/
theorem openRoom_has (s : State) (roomKey key : JsString) : Record.has (openRoom roomKey s).rooms key =
    (decide (key = roomKey) || Record.has s.rooms key) := by
  unfold openRoom
  split_ifs with hhas
  · by_cases hkey : key = roomKey
    · simp [hkey, hhas]
    · simp [hkey]
  · simp only [Record.has, Record.get_mapSet]
    by_cases hkey : key = roomKey <;> simp [hkey]

/-- A room that is opened is empty if it was not there, and the others are as they were. -/
theorem openRoom_room (key : JsString) : (openRoom roomKey s).room key = s.room key := by
  unfold openRoom
  split_ifs with hhas
  · rfl
  · simp only [State.room, Record.get_mapSet]
    split_ifs with hkey
    · rw [Bool.not_eq_true, Record.has_eq_false] at hhas
      rw [hkey, hhas]
      rfl
    · rfl

/-- A room is opened with its listener. -/
theorem Linked.openRoom (h : Linked s) : Linked (openRoom roomKey s) := by
  by_cases hhas : Record.has s.rooms roomKey = true
  · rw [Realtime.openRoom, if_pos hhas]
    exact h
  · have hchanged : Realtime.openRoom roomKey s = { s with
        rooms := Record.mapSet s.rooms roomKey []
        listeners := Record.mapSet s.listeners roomKey
          (roomKeyToChannel roomKey, ⟨roomKey, s.created⟩)
        bus := s.bus ++ [(roomKeyToChannel roomKey, ⟨roomKey, s.created⟩)]
        created := s.created + 1 } := if_neg hhas
    have hkeys := openRoom_has s roomKey
    rw [hchanged] at hkeys ⊢
    refine ⟨fun key => ?_, fun entry hentry => ?_, fun key hkey => ?_⟩
    · have hcount := h.registered key
      rw [hkeys]
      dsimp only
      rw [List.countP_append, hcount]
      by_cases hkey : key = roomKey
      · subst hkey
        simp [hhas]
      · simp [hkey, Ne.symm hkey]
    · rcases List.mem_append.mp hentry with hentry | hentry
      · exact h.channels entry hentry
      · rw [List.mem_singleton.mp hentry]
    · by_cases hkeyEq : key = roomKey
      · exact ⟨_, by rw [Record.get_mapSet, if_pos hkeyEq],
          List.mem_append_right _ (List.mem_singleton.mpr rfl), hkeyEq.symm⟩
      · rw [hkeys, decide_eq_false hkeyEq, Bool.false_or] at hkey
        obtain ⟨entry, hget, hmem, hentry⟩ := h.recorded key hkey
        exact ⟨entry, by rw [Record.get_mapSet, if_neg hkeyEq, hget],
          List.mem_append_left _ hmem, hentry⟩

/-- A join keeps rooms and listeners linked. -/
theorem Linked.join {fails : JsString → Bool} {conn : RoomConnection} (h : Linked s) :
    Linked (join fails roomKey conn s) := by
  have hopen : Record.has (Realtime.openRoom roomKey s).rooms roomKey = true := by
    rw [openRoom_has, decide_eq_true rfl, Bool.true_or]
  unfold Realtime.join
  refine Linked.broadcastToRoom (h.openRoom.congr rfl rfl ?_)
  exact State.setRoom_has _ hopen

/-- A registration that is removed is removed once. -/
theorem off_perm (entry : JsString × Listener) (bus : List (JsString × Listener)) :
    (off entry bus).Perm (bus.erase entry) :=
  (List.reverse_perm _).trans ((List.reverse_perm bus).erase entry)

/-- Whether a room is there after the room that a connection left is closed if it is empty. -/
theorem closeRoom_has (s : State) (roomKey key : JsString) : Record.has (closeRoom roomKey s).rooms key =
    (Record.has s.rooms key && !(decide (key = roomKey) && decide (s.room roomKey = []))) := by
  unfold closeRoom
  split_ifs with hempty
  · split
    all_goals
      rw [Record.has, Record.get_erase]
      by_cases hkey : key = roomKey <;> simp [hkey, hempty, Record.has]
  · simp [hempty]

/-- The rooms that are not closed are as they were. -/
theorem closeRoom_room (key : JsString) : (closeRoom roomKey s).room key = s.room key := by
  unfold closeRoom
  split_ifs with hempty
  · split
    all_goals
      rw [State.room, Record.get_erase]
      split_ifs with hkey
      · rw [hkey, hempty]
        rfl
      · rfl
  · rfl

/-- A room is closed with its listener. -/
theorem Linked.closeRoom (h : Linked s) (hhas : Record.has s.rooms roomKey = true) :
    Linked (closeRoom roomKey s) := by
  have hkeys := closeRoom_has s roomKey
  by_cases hempty : s.room roomKey = []
  · obtain ⟨entry, hget, hmem, hentry⟩ := h.recorded roomKey hhas
    have hchanged : Realtime.closeRoom roomKey s = { s with
        rooms := Record.erase s.rooms roomKey
        listeners := Record.erase s.listeners roomKey
        bus := off entry s.bus } := by
      rw [Realtime.closeRoom, if_pos hempty, hget]
    rw [hchanged] at hkeys ⊢
    refine ⟨fun key => ?_, fun other hother => ?_, fun key hkey => ?_⟩
    · rw [hkeys]
      dsimp only
      rw [(off_perm entry s.bus).countP_eq, List.countP_erase, h.registered key]
      by_cases hkey : key = roomKey
      · subst hkey
        simp [hhas, hempty, hmem, hentry]
      · simp [hkey, hmem, hentry, Ne.symm hkey]
    · exact h.channels other (List.mem_of_mem_erase ((off_perm entry s.bus).mem_iff.mp hother))
    · rw [hkeys, decide_eq_true hempty, Bool.and_true, Bool.and_eq_true, Bool.not_eq_true',
        decide_eq_false_iff_not] at hkey
      obtain ⟨other, hotherGet, hotherMem, hotherKey⟩ := h.recorded key hkey.1
      refine ⟨other, by rw [Record.get_erase, if_neg hkey.2, hotherGet], ?_, hotherKey⟩
      refine (off_perm entry s.bus).mem_iff.mpr ((List.mem_erase_of_ne ?_).mpr hotherMem)
      rintro rfl
      exact hkey.2 (hotherKey.symm.trans hentry)
  · rw [Realtime.closeRoom, if_neg hempty]
    exact h

/-- A leave keeps rooms and listeners linked. -/
theorem Linked.leave {fails : JsString → Bool} {connectionId : JsString} (h : Linked s) :
    Linked (leave fails roomKey connectionId s) := by
  unfold Realtime.leave
  split
  · exact h
  · next room hroom =>
    have hhas : Record.has s.rooms roomKey = true := Record.has_eq_true.mpr ⟨room, hroom⟩
    have hset := State.setRoom_has (Record.erase room connectionId) hhas
    have hleft : Linked (s.setRoom roomKey (Record.erase room connectionId)) := h.congr rfl rfl hset
    have hthere := (hset roomKey).trans hhas
    dsimp only
    split
    · exact hleft.closeRoom hthere
    · exact hleft.broadcastToRoom.closeRoom ((broadcastToRoom_has _).trans hthere)

/-! ## Rooms that are not empty -/

/-- A join leaves no room empty that was not: it spares the connection that joins. -/
theorem Occupied.join {fails : JsString → Bool} {conn : RoomConnection} (h : Occupied s) :
    Occupied (join fails roomKey conn s) := by
  intro key hkey
  unfold Realtime.join at hkey ⊢
  rw [broadcastToRoom_room]
  by_cases hkeyEq : key = roomKey
  · subst hkeyEq
    rw [if_pos rfl]
    refine List.ne_nil_of_mem (a := (conn.id, conn)) (List.mem_filter.mpr ⟨?_, ?_⟩)
    · rw [State.setRoom_room, if_pos rfl]
      exact Record.mem_of_get (by rw [Record.get_mapSet, if_pos rfl])
    · simp [spared]
  · have hopen : Record.has (openRoom roomKey s).rooms roomKey = true := by
      rw [openRoom_has, decide_eq_true rfl, Bool.true_or]
    rw [broadcastToRoom_has, State.setRoom_has _ hopen, openRoom_has, decide_eq_false hkeyEq,
      Bool.false_or] at hkey
    rw [if_neg hkeyEq, State.setRoom_room, if_neg hkeyEq, openRoom_room]
    exact h key hkey

/-- A leave leaves no room empty that was not: it closes the room that it empties. -/
theorem Occupied.leave {fails : JsString → Bool} {connectionId : JsString} (h : Occupied s) :
    Occupied (leave fails roomKey connectionId s) := by
  unfold Realtime.leave
  split
  · exact h
  · next room hroom =>
    have hothers : ∀ t : State, (∀ key, key ≠ roomKey → t.room key = s.room key ∧
        Record.has t.rooms key = Record.has s.rooms key) → Occupied (closeRoom roomKey t) := by
      intro t ht key hkey
      rw [closeRoom_has, Bool.and_eq_true, Bool.not_eq_true', Bool.and_eq_false_iff,
        decide_eq_false_iff_not, decide_eq_false_iff_not] at hkey
      rw [closeRoom_room]
      by_cases hkeyEq : key = roomKey
      · subst hkeyEq
        exact hkey.2.resolve_left (not_not.mpr rfl)
      · rw [(ht key hkeyEq).1]
        exact h key ((ht key hkeyEq).2 ▸ hkey.1)
    have hhas : Record.has s.rooms roomKey = true := Record.has_eq_true.mpr ⟨room, hroom⟩
    have hset : ∀ key, key ≠ roomKey →
        (s.setRoom roomKey (Record.erase room connectionId)).room key = s.room key ∧
        Record.has (s.setRoom roomKey (Record.erase room connectionId)).rooms key =
          Record.has s.rooms key := fun key hkey =>
      ⟨by rw [State.setRoom_room, if_neg hkey], State.setRoom_has _ hhas key⟩
    dsimp only
    split
    · exact hothers _ hset
    · refine hothers _ fun key hkey => ?_
      rw [broadcastToRoom_room, if_neg hkey, broadcastToRoom_has]
      exact hset key hkey

end

/-! ## Broadcasts of the event bus -/

section

variable {fails : JsString → JsString → Bool} {event : RealtimeEvent} {s : State}

/-- Listeners that broadcast in turn leave rooms and listeners as they were, shrink rooms by
connections that are not spared, and deliver to connections of their rooms. -/
structure Broadcasts (fails : JsString → JsString → Bool) (event : RealtimeEvent)
    (keys : List JsString) (s t : State) : Prop where
  /-- No listener is registered or removed. -/
  bus : t.bus = s.bus
  /-- The listeners that are recorded stay. -/
  listeners : t.listeners = s.listeners
  /-- The room keys stay. -/
  has : ∀ key, Record.has t.rooms key = Record.has s.rooms key
  /-- No connection is added. -/
  subset : ∀ key, ∀ entry ∈ t.room key, entry ∈ s.room key
  /-- A connection that is spared stays. -/
  kept : ∀ key, ∀ entry ∈ s.room key,
    (key ∈ keys → spared (fails key) event none entry = true) → entry ∈ t.room key
  /-- The event is delivered to connections of the rooms. -/
  delivered : ∃ sent, t.delivered = s.delivered ++ sent ∧
    ∀ d ∈ sent, ∃ key ∈ keys, ∃ id, (id, d.1) ∈ s.room key

/-- No listener does nothing. -/
theorem Broadcasts.refl (s : State) : Broadcasts fails event [] s s where
  bus := rfl
  listeners := rfl
  has _ := rfl
  subset _ _ hentry := hentry
  kept _ _ hentry _ := hentry
  delivered := ⟨[], (List.append_nil _).symm, fun _ hd => absurd hd List.not_mem_nil⟩

/-- One listener broadcasts before the others. -/
theorem Broadcasts.cons {roomKey : JsString} {keys : List JsString} {t : State}
    (h : Broadcasts fails event keys
      (broadcastToRoom (fails roomKey) roomKey event none s) t) :
    Broadcasts fails event (roomKey :: keys) s t where
  bus := h.bus.trans broadcastToRoom_bus
  listeners := h.listeners.trans broadcastToRoom_listeners
  has key := (h.has key).trans (broadcastToRoom_has key)
  subset key entry hentry := by
    have hfirst := h.subset key entry hentry
    rw [broadcastToRoom_room] at hfirst
    split_ifs at hfirst with hkey
    · rw [hkey]
      exact (List.mem_filter.mp hfirst).1
    · exact hfirst
  kept key entry hentry hspared := by
    refine h.kept key entry ?_ fun hkey => hspared (List.mem_cons_of_mem _ hkey)
    rw [broadcastToRoom_room]
    split_ifs with hkey
    · subst hkey
      exact List.mem_filter.mpr ⟨hentry, hspared List.mem_cons_self⟩
    · exact hentry
  delivered := by
    obtain ⟨first, hfirst, hfirstRoom⟩ :=
      broadcastToRoom_delivered (fails roomKey) roomKey event none s
    obtain ⟨sent, hsent, hrooms⟩ := h.delivered
    refine ⟨first ++ sent, by rw [hsent, hfirst, List.append_assoc], fun d hd => ?_⟩
    rcases List.mem_append.mp hd with hd | hd
    · exact ⟨roomKey, List.mem_cons_self, hfirstRoom d hd⟩
    · obtain ⟨key, hkey, id, hmem⟩ := hrooms d hd
      refine ⟨key, List.mem_cons_of_mem _ hkey, id, ?_⟩
      rw [broadcastToRoom_room] at hmem
      split_ifs at hmem with hkeyEq
      · rw [hkeyEq]
        exact (List.mem_filter.mp hmem).1
      · exact hmem

/-- The listeners on a channel broadcast in turn. -/
theorem broadcasts_emit (fails : JsString → JsString → Bool) (channel : JsString)
    (event : RealtimeEvent) (s : State) :
    Broadcasts fails event ((s.bus.filter fun entry => decide (entry.1 = channel)).map
      fun entry => entry.2.roomKey) s (emit fails channel event s) := by
  unfold emit
  generalize s.bus.filter (fun entry => decide (entry.1 = channel)) = entries
  induction entries generalizing s with
  | nil => exact .refl s
  | cons entry entries ih => exact (ih _).cons

/-- The rooms whose listeners are on a channel. -/
theorem Linked.roomKeyToChannel_of_mem (h : Linked s) {channel key : JsString}
    (hkey : key ∈ (s.bus.filter fun entry => decide (entry.1 = channel)).map
      fun entry => entry.2.roomKey) : roomKeyToChannel key = channel := by
  obtain ⟨entry, hentry, rfl⟩ := List.mem_map.mp hkey
  obtain ⟨hmem, hchannel⟩ := List.mem_filter.mp hentry
  rw [← h.channels entry hmem]
  exact of_decide_eq_true hchannel

/-- An emission keeps rooms and listeners linked. -/
theorem Linked.emit (h : Linked s) (fails : JsString → JsString → Bool) (channel : JsString)
    (event : RealtimeEvent) : Linked (emit fails channel event s) :=
  have hemit := broadcasts_emit fails channel event s
  h.congr hemit.bus hemit.listeners hemit.has

/-- Emissions on channels keep rooms and listeners linked, the room keys, and the connections that
all of them spare. -/
theorem Linked.emissions (h : Linked s) (fails : ℕ → JsString → JsString → Bool)
    (event : RealtimeEvent) (channels : List (JsString × ℕ)) :
    Linked (channels.foldl (fun s channel => Realtime.emit (fails channel.2) channel.1 event s) s) ∧
    ∀ key, Record.has (channels.foldl
        (fun s channel => Realtime.emit (fails channel.2) channel.1 event s) s).rooms key =
          Record.has s.rooms key ∧
      ∀ entry ∈ s.room key, (∀ channel ∈ channels, channel.1 = roomKeyToChannel key →
          spared (fails channel.2 key) event none entry = true) →
        entry ∈ (channels.foldl
          (fun s channel => Realtime.emit (fails channel.2) channel.1 event s) s).room key := by
  induction channels generalizing s with
  | nil => exact ⟨h, fun key => ⟨rfl, fun _ hentry _ => hentry⟩⟩
  | cons channel channels ih =>
    obtain ⟨hlinked, hrooms⟩ := ih (h.emit (fails channel.2) channel.1 event)
    have hfirst := broadcasts_emit (fails channel.2) channel.1 event s
    refine ⟨hlinked, fun key => ⟨(hrooms key).1.trans (hfirst.has key), ?_⟩⟩
    intro entry hentry hspared
    obtain ⟨hchannel, hrest⟩ := List.forall_mem_cons.mp hspared
    refine (hrooms key).2 entry (hfirst.kept key entry hentry fun hkey => ?_) hrest
    exact hchannel (h.roomKeyToChannel_of_mem hkey).symm

end

end T3x.Realtime
