import ChatRooms.Lib.Format
import ChatRooms.Lib.Run
import ChatRooms.Net
import ChatRooms.PollfdArray

/-!
# The handlers of the server

The functions of `server.c` between accepting a connection and closing it.  A handler takes the data
it works on and returns what it leaves of it, together with its status and its `Output`s: the calls
of `sendall` in order, and the two log lines that say that a reply was truncated and that a message
had an invalid type.

What the C library and the kernel contribute to a call is its `Env`; what `accept` and `recvall`
return is an argument of its own.
-/

namespace ChatRooms

/-- What a handler does besides changing the server's data. -/
inductive Output where
  /-- One `sendall`: the message that was serialized, its buffer, and what the kernel took of it. -/
  | write (fd : Fd) (msg : Message) (sendBuf sent : Bytes)
  /-- `reply message truncated` -/
  | truncated
  /-- `invalid message type` -/
  | invalidType

/-- What the world outside contributes to one call of a handler.  `locals` and `totalReply` are the
previous contents of the handlers' uninitialised local variables. -/
structure Env where
  host : ByteOrder
  heap : Heap
  realloc : Realloc
  locals : Locals
  totalReply : CArray UInt8 replySizeLimit
  send : Fd → ℕ → SendAnswer
  clock : Timestamp

/-- How the `sendall` of an output ends. -/
def Output.sendEnd (env : Env) : Output → SendEnd
  | .write fd _ sendBuf _ => ChatRooms.sendEnd (env.send fd) sendBuf sendBuf.length
  | .truncated | .invalidType => .all

/-- Every `sendall` of a handler returned.  After one that does not, the definition of the handler goes on as after
a -1, and nothing looks at what it leaves. -/
def Returned (env : Env) (outs : List Output) : Prop := ∀ out ∈ outs, (out.sendEnd env).Returns

/-- `SIGPIPE` ends the process in a `sendall` of a handler. -/
def Killed (env : Env) (outs : List Output) : Prop := ∃ out ∈ outs, out.sendEnd env = .killed

instance (env : Env) (outs : List Output) : Decidable (Returned env outs) :=
  inferInstanceAs (Decidable (∀ out ∈ outs, (out.sendEnd env).Returns))

instance (env : Env) (outs : List Output) : Decidable (Killed env outs) :=
  inferInstanceAs (Decidable (∃ out ∈ outs, out.sendEnd env = .killed))

/-- A little-endian host where every call succeeds and the clock stands at `clock`. -/
def Env.steady (clock : Timestamp) : Env where
  host := .little
  heap := .steady
  realloc := .inPlace fun _ => ⟨0, 0, 0⟩
  locals := .filled 0
  totalReply := .fill fun _ => 0
  send _ _ := .accepted 1
  clock := clock

theorem Returned.not_killed {env : Env} {outs : List Output} (h : Returned env outs) : ¬ Killed env outs := by
  rintro ⟨out, hout, hkilled⟩
  have hreturns := h out hout
  rw [hkilled] at hreturns
  exact hreturns

theorem returned_of_accepted {env : Env} (hsend : ∀ fd call, (env.send fd call).Accepted) (outs : List Output) :
    Returned env outs := by
  intro out _
  cases out with
  | write fd msg sendBuf sent =>
    rw [Output.sendEnd, sendEnd_of_accepted (hsend fd)]
    exact trivial
  | truncated => exact trivial
  | invalidType => exact trivial

theorem Env.steady_accepts (clock : Timestamp) (fd : Fd) (call : ℕ) : ((steady clock).send fd call).Accepted :=
  trivial

theorem Env.steady_returned (clock : Timestamp) (outs : List Output) : Returned (.steady clock) outs :=
  returned_of_accepted (Env.steady_accepts clock) outs

/-! ## Replies -/

def sendReplyMessage (env : Env) (client : Fd) (reply : Bytes) (args : List FormatArg) :
    Checked (List Output) := do
  let (totalReply, len) ← vsnprintf env.totalReply reply args
  let warning := if len ≥ replySizeLimit then [Output.truncated] else []
  let msg : ReplyMessage := { reply := ← strcpy env.locals.reply.reply totalReply }
  match ← replyMessageSerialize env.host env.heap msg with
  | none => return warning
  | some (sendBuf, len) =>
    return warning ++ [.write client (.reply msg) sendBuf (sendall (env.send client) sendBuf len).1]

/-- `"you are not in a chat room: ..."` -/
def notInRoomReply : Bytes :=
  ascii "you are not in a chat room: type '/join [room number]' to join a room"

def nameReply : Bytes := ascii "set name to %s"

def missingRoomReply : Bytes := ascii "room %d does not exist"

def alreadyInReply : Bytes := ascii "you are already in room %d"

def fullRoomReply : Bytes := ascii "room %d is full"

def joinedReply : Bytes := ascii "you have joined room %d"

/-! ## Messages -/

/-- The loop of `handle_chat_message` over the users of a room from index `i` on, with `fuel` of them
to go; it ends with -1 at the first `sendall` that fails. -/
def broadcast (env : Env) (room : Room) (msg : Message) (sendBuf : Bytes) (len : ℕ) :
    ℕ → ℕ → Checked (List Output × ℤ)
  | 0, _ => return ([], 0)
  | fuel + 1, i => do
    let receiver ← room.users.read i
    match sendall (env.send receiver) sendBuf len with
    | (sent, none) => return ([.write receiver msg sendBuf sent], -1)
    | (sent, some _) =>
      let (outs, status) ← broadcast env room msg sendBuf len fuel (i + 1)
      return (.write receiver msg sendBuf sent :: outs, status)

def handleChatMessage (env : Env) (buf : Bytes) (user : User) (rooms : RoomArray) :
    Checked (List Output × ℤ) := do
  if user.room = invalidRoom then return (← sendReplyMessage env user.id notInRoomReply [], 0)
  else
    let msg ← chatMessageDeserialize env.host buf env.locals.chat
    let msg := { msg with timestamp := env.clock }
    let msg := { msg with name := ← strcpy msg.name user.name }
    match ← chatMessageSerialize env.host env.heap msg with
    | none => return ([], -1)
    | some (sendBuf, len) =>
      match roomArrayGetRoom rooms user.room.toNat with
      | none => .error .null
      | some i =>
        let room ← rooms.read i
        broadcast env room (.chat msg) sendBuf len room.numUsers 0

def handleNameMessage (env : Env) (buf : Bytes) (user : User) : Checked (User × List Output) := do
  let msg ← nameMessageDeserialize buf env.locals.name
  let user := { user with name := ← strcpy user.name msg.name }
  return (user, ← sendReplyMessage env user.id nameReply [.str msg.name.toList])

/-- `room_add_user` through a pointer to the room. -/
def RoomArray.addUser (rooms : RoomArray) (i : ℕ) (user : User) :
    Checked (Option (RoomArray × User)) := do
  let added ← roomAddUser (← rooms.read i) user
  return added.map fun (room, user) => (rooms.write i room, user)

/-- `room_remove_user` through a pointer to the room. -/
def RoomArray.removeUser (rooms : RoomArray) (i : ℕ) (user : User) :
    Checked (Option (RoomArray × User)) := do
  let removed ← roomRemoveUser (← rooms.read i) user
  return removed.map fun (room, user) => (rooms.write i room, user)

/-- The branch of `handle_join_message` that takes the user out of its current room. -/
def leaveRoom (rooms : RoomArray) (user : User) : Checked (RoomArray × User) :=
  if user.room ≠ invalidRoom then
    match roomArrayGetRoom rooms user.room.toNat with
    | none => .error .null
    | some i => do return (← rooms.removeUser i user).getD (rooms, user)
  else return (rooms, user)

def handleJoinMessage (env : Env) (buf : Bytes) (rooms : RoomArray) (user : User) :
    Checked (RoomArray × User × List Output) := do
  let msg ← joinMessageDeserialize buf env.locals.join
  match roomArrayGetRoom rooms msg.roomId.toNat with
  | none =>
    return (rooms, user, ← sendReplyMessage env user.id missingRoomReply [.int msg.roomId.toNat])
  | some i =>
    let newRoom ← rooms.read i
    if user.room = newRoom.id then
      return (rooms, user, ← sendReplyMessage env user.id alreadyInReply [.int newRoom.id.toNat])
    else
      let (rooms, user) ← leaveRoom rooms user
      match ← rooms.addUser i user with
      | none =>
        return (rooms, user, ← sendReplyMessage env user.id fullRoomReply [.int newRoom.id.toNat])
      | some (rooms, user) =>
        return (rooms, user, ← sendReplyMessage env user.id joinedReply [.int newRoom.id.toNat])

/-! ## The server's data -/

/-- The data of `main`, and the descriptors that the process has open. -/
structure Server where
  listener : Fd
  pollfds : PollfdArray
  rooms : RoomArray
  userTable : UserTable
  openFds : List Fd

/-- Handles what `recvall` returned; `none` when it does not return.  A status of 1 is success, 0
means that the client closed the connection, -1 is an error. -/
def handleClientMessage (env : Env) (client : Fd) (received : Received) (s : Server) :
    Checked (Option (Server × List Output × ℤ)) :=
  match received with
  | .waits => return none
  | .failed => return some (s, [], -1)
  | .closed => return some (s, [], 0)
  | .message buf _ =>
    match userTableFind s.userTable client with
    | none => return some (s, [], -1)
    | some user => do
      match ← getMessageType buf with
      | .chat =>
        let (outs, status) ← handleChatMessage env buf user s.rooms
        return some (s, outs, if status ≠ 0 then -1 else 1)
      | .join =>
        let (rooms, user, outs) ← handleJoinMessage env buf s.rooms user
        return some ({ s with rooms, userTable := s.userTable.set user }, outs, 1)
      | .name =>
        let (user, outs) ← handleNameMessage env buf user
        return some ({ s with userTable := s.userTable.set user }, outs, 1)
      | .reply | .invalid => return some (s, [.invalidType], -1)

/-! ## Connections -/

/-- A `pollfd_array_append`, for `main` to be run with the one of the source or another one. -/
abbrev Append := PollfdArray → Fd → Events → Realloc → PollfdArray × ℤ

/-- Handles a new connection; `accepted` is what `accept` returned. -/
def handleNewClient (append : Append) (env : Env) (accepted : Option Fd) (s : Server) :
    Checked (Server × ℤ) :=
  match accepted with
  | none => return (s, -1)
  | some sockfd =>
    match append s.pollfds sockfd pollin env.realloc with
    | (pollfds, status) =>
      if status ≠ 0 then return ({ s with pollfds }, -1)
      else do
        let s := { s with pollfds, openFds := sockfd :: s.openFds }
        match ← userTableAdd env.heap s.userTable sockfd with
        | none => return (s, -1)
        | some userTable => return ({ s with userTable }, 0)

/-- The end of `handle_client_termination`, from `user_table_delete` on. -/
def deleteUser (client : Fd) (s : Server) : Server × ℤ :=
  match userTableDelete s.userTable client with
  | none => (s, -1)
  | some userTable => ({ s with userTable, openFds := s.openFds.erase client }, 0)

def handleClientTermination (env : Env) (client : Fd) (i : ℕ) (s : Server) : Checked (Server × ℤ) :=
  match pollfdArrayDelete s.pollfds i env.realloc with
  | (pollfds, status) =>
    let s := { s with pollfds }
    if status ≠ 0 then return (s, -1)
    else
      match userTableFind s.userTable client with
      | none => return (s, -1)
      | some user =>
        match roomArrayGetRoom s.rooms user.room.toNat with
        | none => return deleteUser client s
        | some r => do
          match ← s.rooms.removeUser r user with
          | none => return (s, -1)
          | some (rooms, user) =>
            return deleteUser client { s with rooms, userTable := s.userTable.set user }

/-! ## Steps -/

/-- `NUM_ROOMS` -/
abbrev numRooms : ℕ := 5

/-- The states in which `main` enters its loop: the poll array holds the listener, there are
`NUM_ROOMS` empty rooms and no users. -/
structure Initial (append : Append) (s : Server) : Prop where
  rooms : ∃ heap, roomArrayInit heap numRooms = some s.rooms
  pollfds : ∃ heap a r, pollfdArrayInit heap = some a ∧ append a s.listener pollin r = (s.pollfds, 0)
  userTable : s.userTable = .empty
  openFds : s.listener ∈ s.openFds

/-- The state in which `main` enters its loop when every allocation succeeds. -/
def Server.start (listener : Fd) : Server where
  listener := listener
  pollfds := (pollfdArrayAppend
    ⟨List.replicate initialCapacity ⟨0, 0, 0⟩, 0, initialCapacity⟩ listener pollin .failed).1
  rooms :=
    ⟨(List.range numRooms).map fun i => ⟨UInt8.ofNat (i + 1), .fill fun _ => 0, 0⟩, numRooms⟩
  userTable := .empty
  openFds := [listener]

theorem Server.start_initial (listener : Fd) : Initial pollfdArrayAppend (.start listener) where
  rooms := ⟨.steady, rfl⟩
  pollfds := ⟨.steady, _, .failed, rfl, rfl⟩
  userTable := rfl
  openFds := List.mem_singleton.2 rfl

/-- What happens to the server: a new connection, the termination of a client by its index in the
poll array, or the result of `recvall` on a client's socket. -/
inductive Event where
  | connect (fd : Fd)
  | terminate (client : Fd) (i : ℕ)
  | message (client : Fd) (received : Received)

/-- The steps of the server: an event is handled without a fault, `main` does not exit, and every `sendall`
returns.  `accept` returns a descriptor that is not open. -/
inductive Step (append : Append) : Server → Env × Event → List Output → Server → Prop
  | connect (env : Env) (fd : Fd) {s s' : Server} (fresh : fd ∉ s.openFds)
      (handled : handleNewClient append env (some fd) s = .ok (s', 0)) :
      Step append s (env, .connect fd) [] s'
  | terminate (env : Env) (client : Fd) (i : ℕ) {s s' : Server}
      (handled : handleClientTermination env client i s = .ok (s', 0)) :
      Step append s (env, .terminate client i) [] s'
  | message (env : Env) (client : Fd) (received : Received) {s s' : Server} {outs : List Output}
      {status : ℤ}
      (handled : handleClientMessage env client received s = .ok (some (s', outs, status)))
      (success : status ≠ -1) (returned : Returned env outs) : Step append s (env, .message client received) outs s'

end ChatRooms
