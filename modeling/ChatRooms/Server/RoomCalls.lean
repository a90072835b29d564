import ChatRooms.Lib.Logged
import ChatRooms.Server.Steps

/-!
# The calls of the room functions

`room_remove_user` searches without a branch for a user it does not find, `room_add_user` writes behind
the used cells, and two callers of `room_array_get_room` do not test its result.  The handlers are
written here once more with a note at each of these calls (`result_handleClientMessageLogged` and
`result_handleClientTerminationLogged` say that they are the same handlers), and `roomCalls_safe` says
that no call goes wrong, in any state of any run and for any event.
-/

namespace ChatRooms

/-- A call of a room function: the lookup of a user's room, a removal or an addition of a user through
the pointer to a room. -/
inductive RoomCall where
  | lookup (rooms : RoomArray) (user : User)
  | remove (rooms : RoomArray) (i : ℕ) (user : User)
  | add (rooms : RoomArray) (i : ℕ) (user : User)

/-- What the source relies on at a call without a test. -/
def RoomCall.Safe : RoomCall → Prop
  -- The room that a record names is found.
  | lookup rooms user => user.room ≠ invalidRoom →
    ∃ i room, roomArrayGetRoom rooms user.room.toNat = some i ∧ rooms.rooms[i]? = some room ∧
      room.id = user.room
  -- The search stops at a used cell that holds the user's id, and `num_users` is not decremented below 0.
  | remove rooms i user => ∃ room, rooms.rooms[i]? = some room ∧ room.id = user.room ∧
    (∃ k < room.numUsers, roomSearch room user.id room.numUsers 0 = .ok k ∧
      room.users.read k = .ok user.id) ∧
    1 ≤ room.numUsers ∧ (room.numUsers + 2 ^ 8 - 1) % 2 ^ 8 + 1 = room.numUsers
  -- A full room refuses the user; in any other, `users[num_users++]` is a cell of the array.
  | add rooms i user => ∃ room, rooms.rooms[i]? = some room ∧
    ((room.numUsers = maxUsersPerRoom ∧ roomAddUser room user = .ok none) ∨
      ∃ room' user', roomAddUser room user = .ok (some (room', user')) ∧
        room.numUsers < maxUsersPerRoom ∧ room.users.write room.numUsers user.id = .ok room'.users ∧
        room'.numUsers = room.numUsers + 1)

/-! ## The handlers with their calls -/

/-- `room_array_get_room(rooms, user->room)` -/
def lookupCall (rooms : RoomArray) (user : User) : Logged RoomCall (Option ℕ) :=
  .note (.lookup rooms user) (.ok (roomArrayGetRoom rooms user.room.toNat))

/-- `room_remove_user` -/
def removeCall (rooms : RoomArray) (i : ℕ) (user : User) : Logged RoomCall (Option (RoomArray × User)) :=
  .note (.remove rooms i user) (rooms.removeUser i user)

/-- `room_add_user` -/
def addCall (rooms : RoomArray) (i : ℕ) (user : User) : Logged RoomCall (Option (RoomArray × User)) :=
  .note (.add rooms i user) (rooms.addUser i user)

open Logged in
def handleChatMessageLogged (env : Env) (buf : Bytes) (user : User) (rooms : RoomArray) :
    Logged RoomCall (List Output × ℤ) := do
  if user.room = invalidRoom then return (← silent (sendReplyMessage env user.id notInRoomReply []), 0)
  else
    let msg ← silent (chatMessageDeserialize env.host buf env.locals.chat)
    let msg := { msg with timestamp := env.clock }
    let msg := { msg with name := ← silent (strcpy msg.name user.name) }
    match ← silent (chatMessageSerialize env.host env.heap msg) with
    | none => return ([], -1)
    | some (sendBuf, len) =>
      match ← lookupCall rooms user with
      | none => silent (.error .null)
      | some i =>
        let room ← silent (rooms.read i)
        silent (broadcast env room (.chat msg) sendBuf len room.numUsers 0)

open Logged in
def leaveRoomLogged (rooms : RoomArray) (user : User) : Logged RoomCall (RoomArray × User) := do
  if user.room ≠ invalidRoom then
    match ← lookupCall rooms user with
    | none => silent (.error .null)
    | some i => return (← removeCall rooms i user).getD (rooms, user)
  else return (rooms, user)

open Logged in
def handleJoinMessageLogged (env : Env) (buf : Bytes) (rooms : RoomArray) (user : User) :
    Logged RoomCall (RoomArray × User × List Output) := do
  let msg ← silent (joinMessageDeserialize buf env.locals.join)
  match roomArrayGetRoom rooms msg.roomId.toNat with
  | none =>
    return (rooms, user, ← silent (sendReplyMessage env user.id missingRoomReply [.int msg.roomId.toNat]))
  | some i =>
    let newRoom ← silent (rooms.read i)
    if user.room = newRoom.id then
      return (rooms, user, ← silent (sendReplyMessage env user.id alreadyInReply [.int newRoom.id.toNat]))
    else
      let (rooms, user) ← leaveRoomLogged rooms user
      match ← addCall rooms i user with
      | none =>
        return (rooms, user, ← silent (sendReplyMessage env user.id fullRoomReply [.int newRoom.id.toNat]))
      | some (rooms, user) =>
        return (rooms, user, ← silent (sendReplyMessage env user.id joinedReply [.int newRoom.id.toNat]))

open Logged in
def handleClientMessageLogged (env : Env) (client : Fd) (received : Received) (s : Server) :
    Logged RoomCall (Option (Server × List Output × ℤ)) :=
  match received with
  | .waits => return none
  | .failed => return some (s, [], -1)
  | .closed => return some (s, [], 0)
  | .message buf _ =>
    match userTableFind s.userTable client with
    | none => return some (s, [], -1)
    | some user => do
      match ← silent (getMessageType buf) with
      | .chat =>
        let (outs, status) ← handleChatMessageLogged env buf user s.rooms
        return some (s, outs, if status ≠ 0 then -1 else 1)
      | .join =>
        let (rooms, user, outs) ← handleJoinMessageLogged env buf s.rooms user
        return some ({ s with rooms, userTable := s.userTable.set user }, outs, 1)
      | .name =>
        let (user, outs) ← silent (handleNameMessage env buf user)
        return some ({ s with userTable := s.userTable.set user }, outs, 1)
      | .reply | .invalid => return some (s, [.invalidType], -1)

def handleClientTerminationLogged (env : Env) (client : Fd) (i : ℕ) (s : Server) :
    Logged RoomCall (Server × ℤ) :=
  match pollfdArrayDelete s.pollfds i env.realloc with
  | (pollfds, status) =>
    let s := { s with pollfds }
    if status ≠ 0 then return (s, -1)
    else
      match userTableFind s.userTable client with
      | none => return (s, -1)
      | some user => do
        match ← lookupCall s.rooms user with
        | none => return deleteUser client s
        | some r =>
          match ← removeCall s.rooms r user with
          | none => return (s, -1)
          | some (rooms, user) =>
            return deleteUser client { s with rooms, userTable := s.userTable.set user }

/-- The calls of the room functions that an event makes; a new connection makes none. -/
def roomCalls (env : Env) : Event → Server → List RoomCall
  | .connect _, _ => []
  | .terminate client i, s => (handleClientTerminationLogged env client i s).log
  | .message client received, s => (handleClientMessageLogged env client received s).log

/-! ## They are the handlers -/

theorem result_handleChatMessageLogged (env : Env) (buf : Bytes) (user : User) (rooms : RoomArray) :
    (handleChatMessageLogged env buf user rooms).result = handleChatMessage env buf user rooms := by
  unfold handleChatMessageLogged handleChatMessage
  split
  · exact Logged.result_bind_eq rfl fun outs => rfl
  · refine Logged.result_bind_eq rfl fun msg => Logged.result_bind_eq rfl fun name => ?_
    refine Logged.result_bind_eq rfl fun serialized => ?_
    cases serialized with
    | none => rfl
    | some frame =>
      change (lookupCall rooms user >>= _).result = _
      rw [Logged.result_bind, lookupCall, Logged.result_note, Checked.ok_bind]
      cases roomArrayGetRoom rooms user.room.toNat with
      | none => rfl
      | some i => exact Logged.result_bind_eq rfl fun room => rfl

theorem result_leaveRoomLogged (rooms : RoomArray) (user : User) :
    (leaveRoomLogged rooms user).result = leaveRoom rooms user := by
  unfold leaveRoomLogged leaveRoom
  split
  · rw [Logged.result_bind, lookupCall, Logged.result_note, Checked.ok_bind]
    cases roomArrayGetRoom rooms user.room.toNat with
    | none => rfl
    | some i => exact Logged.result_bind_eq rfl fun removed => rfl
  · rfl

theorem result_handleJoinMessageLogged (env : Env) (buf : Bytes) (rooms : RoomArray) (user : User) :
    (handleJoinMessageLogged env buf rooms user).result = handleJoinMessage env buf rooms user := by
  unfold handleJoinMessageLogged handleJoinMessage
  refine Logged.result_bind_eq rfl fun msg => ?_
  cases roomArrayGetRoom rooms msg.roomId.toNat with
  | none => exact Logged.result_bind_eq rfl fun outs => rfl
  | some i =>
    refine Logged.result_bind_eq rfl fun newRoom => ?_
    split
    · exact Logged.result_bind_eq rfl fun outs => rfl
    · refine Logged.result_bind_eq (result_leaveRoomLogged rooms user) fun left => ?_
      refine Logged.result_bind_eq rfl fun added => ?_
      cases added with
      | none => exact Logged.result_bind_eq rfl fun outs => rfl
      | some added => exact Logged.result_bind_eq rfl fun outs => rfl

theorem result_handleClientMessageLogged (env : Env) (client : Fd) (received : Received) (s : Server) :
    (handleClientMessageLogged env client received s).result = handleClientMessage env client received s := by
  cases received with
  | waits => rfl
  | failed => rfl
  | closed => rfl
  | message buf n =>
    unfold handleClientMessageLogged handleClientMessage
    cases userTableFind s.userTable client with
    | none => rfl
    | some user =>
      refine Logged.result_bind_eq rfl fun type => ?_
      cases type with
      | chat =>
        exact Logged.result_bind_eq (result_handleChatMessageLogged env buf user s.rooms) fun outs => rfl
      | join =>
        exact Logged.result_bind_eq (result_handleJoinMessageLogged env buf s.rooms user) fun result => rfl
      | name => exact Logged.result_bind_eq rfl fun result => rfl
      | reply => rfl
      | invalid => rfl

theorem result_handleClientTerminationLogged (env : Env) (client : Fd) (i : ℕ) (s : Server) :
    (handleClientTerminationLogged env client i s).result = handleClientTermination env client i s := by
  unfold handleClientTerminationLogged handleClientTermination
  obtain ⟨pollfds, status⟩ := pollfdArrayDelete s.pollfds i env.realloc
  dsimp only
  split
  · rfl
  · cases userTableFind s.userTable client with
    | none => rfl
    | some user =>
      dsimp only
      rw [Logged.result_bind, lookupCall, Logged.result_note, Checked.ok_bind]
      cases roomArrayGetRoom s.rooms user.room.toNat with
      | none => rfl
      | some r =>
        refine Logged.result_bind_eq rfl fun removed => ?_
        cases removed with
        | none => rfl
        | some removed => rfl

/-! ## Their calls are safe -/

namespace Agree

variable {rooms : RoomArray} {table : UserTable} (h : Agree rooms table)

include h

theorem lookup_safe {user : User} (hu : user ∈ table.users) : RoomCall.Safe (.lookup rooms user) := by
  intro hroom
  obtain ⟨i, room, hget, hi, -, hid⟩ := h.getRoom hroom (h.room_le user hu)
  exact ⟨i, room, hget, hi, hid⟩

/-- A user is removed from the room that its record names. -/
theorem remove_safe {user : User} (hu : user ∈ table.users) {i : ℕ}
    (hget : roomArrayGetRoom rooms user.room.toNat = some i) : RoomCall.Safe (.remove rooms i user) := by
  have hroom : ¬ (user.room = 0 ∨ numRooms < user.room.toNat) := by
    rw [← h.getRoom_eq_none, hget]
    exact Option.some_ne_none i
  rw [not_or, not_lt] at hroom
  obtain ⟨j, room, hget', hi, -, hid⟩ := h.getRoom hroom.1 hroom.2
  rw [hget, Option.some.injEq] at hget'
  subst hget'
  have hle := h.numUsers_le hi
  -- The record names the room, so the room holds the id, and the search finds it.
  have hmem : user.id ∈ room.members :=
    (h.members hi).mem_iff.2 (UserTable.mem_inRoom.2 ⟨user, hu, rfl, hid.symm⟩)
  have hidx : room.members.idxOf user.id < room.members.length := List.idxOf_lt_length_of_mem hmem
  have hlt : room.members.idxOf user.id < room.numUsers := by rwa [length_members hle] at hidx
  have hsearch : roomSearch room user.id room.numUsers 0 = .ok (room.members.idxOf user.id) := by
    rw [roomSearch_eq hle (Nat.zero_add _), List.drop_zero, Nat.zero_add]
  have hle25 : room.numUsers ≤ 25 := hle
  have hcell : room.members.idxOf user.id < room.users.toList.length := by
    rw [List.Vector.toList_length]
    omega
  have hread : room.users.read (room.members.idxOf user.id) = .ok user.id := by
    have hget : room.users.toList[room.members.idxOf user.id] = room.members[room.members.idxOf user.id] := by
      simp only [Room.members, List.getElem_take]
    rw [CArray.read_of_lt _ hcell, hget, List.getElem_idxOf]
  exact ⟨room, hi, hid, ⟨_, hlt, hsearch, hread⟩, by omega, by omega⟩

theorem add_safe {i : ℕ} {room : Room} (hi : rooms.rooms[i]? = some room) (user : User) :
    RoomCall.Safe (.add rooms i user) := by
  refine ⟨room, hi, ?_⟩
  -- The source tests for 25 alone; that no room ever holds more is the invariant.
  rcases (h.numUsers_le hi).eq_or_lt with hfull | hlt
  · exact .inl ⟨hfull, roomAddUser_eq_none hfull user⟩
  · have hwrite := CArray.write_of_lt room.users hlt user.id
    have hlt25 : room.numUsers < 25 := hlt
    exact .inr ⟨_, _, roomAddUser_of_lt hlt user, hlt, hwrite, Nat.mod_eq_of_lt (by omega)⟩

theorem handleChatMessageLogged_safe (env : Env) (buf : Bytes) {user : User} (hu : user ∈ table.users) :
    (handleChatMessageLogged env buf user rooms).All RoomCall.Safe := by
  unfold handleChatMessageLogged
  split
  · exact Logged.all_silent_bind fun outs _ => Logged.all_pure _
  · refine Logged.all_silent_bind fun msg _ => Logged.all_silent_bind fun name _ => ?_
    refine Logged.all_silent_bind fun serialized _ => ?_
    cases serialized with
    | none => exact Logged.all_pure _
    | some frame =>
      refine Logged.all_bind.2 ⟨Logged.all_note.2 (h.lookup_safe hu), fun found _ => ?_⟩
      cases found with
      | none => exact Logged.all_silent _
      | some i => exact Logged.all_silent_bind fun room _ => Logged.all_silent _

theorem leaveRoomLogged_safe {user : User} (hu : user ∈ table.users) :
    (leaveRoomLogged rooms user).All RoomCall.Safe := by
  unfold leaveRoomLogged
  split
  · refine Logged.all_bind.2 ⟨Logged.all_note.2 (h.lookup_safe hu), fun found hfound => ?_⟩
    cases found with
    | none => exact Logged.all_silent _
    | some i =>
      have hget : roomArrayGetRoom rooms user.room.toNat = some i := Except.ok.inj hfound
      exact Logged.all_bind.2 ⟨Logged.all_note.2 (h.remove_safe hu hget), fun removed _ => Logged.all_pure _⟩
  · exact Logged.all_pure _

theorem handleJoinMessageLogged_safe (env : Env) (buf : Bytes) {user : User} (hu : user ∈ table.users) :
    (handleJoinMessageLogged env buf rooms user).All RoomCall.Safe := by
  unfold handleJoinMessageLogged
  refine Logged.all_silent_bind fun msg _ => ?_
  cases hget : roomArrayGetRoom rooms msg.roomId.toNat with
  | none => exact Logged.all_silent_bind fun outs _ => Logged.all_pure _
  | some i =>
    refine Logged.all_silent_bind fun newRoom hread => ?_
    split
    · exact Logged.all_silent_bind fun outs _ => Logged.all_pure _
    · rename_i hother
      refine Logged.all_bind.2 ⟨h.leaveRoomLogged_safe hu, fun left hleft => ?_⟩
      -- The rooms agree with the users also between the removal and the addition.
      obtain ⟨left', hleave, hagree, hkeep⟩ := leaveRoom_spec h hu
      rw [result_leaveRoomLogged, hleave, Except.ok.injEq] at hleft
      have hcell : left'.rooms[i]? = some newRoom :=
        hkeep (RoomArray.read_eq_ok.1 hread) (Ne.symm hother)
      rw [← hleft]
      refine Logged.all_bind.2 ⟨Logged.all_note.2 (hagree.add_safe hcell _), fun added _ => ?_⟩
      cases added with
      | none => exact Logged.all_silent_bind fun outs _ => Logged.all_pure _
      | some added => exact Logged.all_silent_bind fun outs _ => Logged.all_pure _

end Agree

theorem handleClientMessageLogged_safe {s : Server} (h : Agree s.rooms s.userTable) (env : Env) (client : Fd)
    (received : Received) : (handleClientMessageLogged env client received s).All RoomCall.Safe := by
  cases received with
  | waits => exact Logged.all_pure _
  | failed => exact Logged.all_pure _
  | closed => exact Logged.all_pure _
  | message buf n =>
    unfold handleClientMessageLogged
    cases hfind : userTableFind s.userTable client with
    | none => exact Logged.all_pure _
    | some user =>
      have hu : user ∈ s.userTable.users := (userTableFind_eq_some.1 hfind).1
      refine Logged.all_silent_bind fun type _ => ?_
      cases type with
      | chat => exact Logged.all_bind.2 ⟨h.handleChatMessageLogged_safe env buf hu, fun _ _ => Logged.all_pure _⟩
      | join => exact Logged.all_bind.2 ⟨h.handleJoinMessageLogged_safe env buf hu, fun _ _ => Logged.all_pure _⟩
      | name => exact Logged.all_silent_bind fun result _ => Logged.all_pure _
      | reply => exact Logged.all_pure _
      | invalid => exact Logged.all_pure _

theorem handleClientTerminationLogged_safe {s : Server} (h : Agree s.rooms s.userTable) (env : Env)
    (client : Fd) (i : ℕ) : (handleClientTerminationLogged env client i s).All RoomCall.Safe := by
  unfold handleClientTerminationLogged
  obtain ⟨pollfds, status⟩ := pollfdArrayDelete s.pollfds i env.realloc
  dsimp only
  split
  · exact Logged.all_pure _
  · cases hfind : userTableFind s.userTable client with
    | none => exact Logged.all_pure _
    | some user =>
      have hu : user ∈ s.userTable.users := (userTableFind_eq_some.1 hfind).1
      refine Logged.all_bind.2 ⟨Logged.all_note.2 (h.lookup_safe hu), fun found hfound => ?_⟩
      cases found with
      | none => exact Logged.all_pure _
      | some r =>
        have hget : roomArrayGetRoom s.rooms user.room.toNat = some r := Except.ok.inj hfound
        refine Logged.all_bind.2 ⟨Logged.all_note.2 (h.remove_safe hu hget), fun removed _ => ?_⟩
        cases removed with
        | none => exact Logged.all_pure _
        | some removed => exact Logged.all_pure _

/-- Every call of a room function is safe: in every state of every run, whatever happens there, be it
handled with success or not. -/
theorem roomCalls_safe {s₀ s : Server} {trace : List (Turn Server (Env × Event) (List Output))}
    (h₀ : Initial pollfdArrayAppend s₀) (run : Run (Step pollfdArrayAppend) s₀ trace s) (env : Env)
    (event : Event) : ∀ call ∈ roomCalls env event s, call.Safe := by
  have h := run.agree h₀
  cases event with
  | connect fd => exact List.forall_mem_nil _
  | terminate client i => exact handleClientTerminationLogged_safe h env client i
  | message client received => exact handleClientMessageLogged_safe h env client received

/-- A client that is in room 2 asks for room 3: it is looked up, removed and added. -/
theorem roomCalls_safe_move : ∃ s trace, Run (Step pollfdArrayAppend) (.start 3) trace s ∧
    (roomCalls (.steady 0) (.message 4 (.message [0, 0, 0, 6, 3, 3] 6)) s).length = 3 ∧
    ∀ call ∈ roomCalls (.steady 0) (.message 4 (.message [0, 0, 0, 6, 3, 3] 6)) s, call.Safe :=
  have run := (Run.start.turn (.connect (.steady 0) 4 (by decide) rfl)).turn
    (.message (.steady 0) 4 (.message [0, 0, 0, 6, 3, 2] 6) rfl (by decide) (Env.steady_returned _ _))
  ⟨_, _, run, rfl, roomCalls_safe (Server.start_initial 3) run _ _⟩

end ChatRooms
