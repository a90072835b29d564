import ChatRooms.Buffers
import ChatRooms.Server.Handlers

/-!
# The buffers of the server's messages

The handlers of messages once more, with the blocks that they use: each reads the `recv_buf` of its message, and
what is sent goes through a `send_buf` that is freed behind its last `sendall`, or where one fails.

A `Runs` lemma for each of them: it does what the plain one does, and leaves the blocks that it found.
-/

namespace ChatRooms.Heaped

variable {A : Type} [DecidableEq A] (malloc : Allocator A)

def sendReplyMessage (env : Env) (client : Fd) (reply : Bytes) (args : List FormatArg) :
    OnHeap A Fault (List Output) := do
  let (totalReply, len) ← OnHeap.lift (vsnprintf env.totalReply reply args)
  let warning := if len ≥ replySizeLimit then [Output.truncated] else []
  let msg : ReplyMessage := { reply := ← OnHeap.lift (strcpy env.locals.reply.reply totalReply) }
  match ← serialized malloc (replyMessageSerialize env.host env.heap msg) with
  | none => return warning
  | some (p, sendBuf, len) => do
    OnHeap.access p
    let (sent, _) := sendall (env.send client) sendBuf len
    OnHeap.free p
    return warning ++ [.write client (.reply msg) sendBuf sent]

/-- The loop of `handle_chat_message`; `send_buf` at `p` is freed behind it, or where a `sendall` fails. -/
def broadcast (p : A) (env : Env) (room : Room) (msg : Message) (sendBuf : Bytes) (len : ℕ) :
    ℕ → ℕ → OnHeap A Fault (List Output × ℤ)
  | 0, _ => do
    OnHeap.free p
    return ([], 0)
  | fuel + 1, i => do
    let receiver ← OnHeap.lift (room.users.read i)
    OnHeap.access p
    match sendall (env.send receiver) sendBuf len with
    | (sent, none) => do
      OnHeap.free p
      return ([.write receiver msg sendBuf sent], -1)
    | (sent, some _) =>
      let (outs, status) ← broadcast p env room msg sendBuf len fuel (i + 1)
      return (.write receiver msg sendBuf sent :: outs, status)

def handleChatMessage (env : Env) (recvBuf : A) (buf : Bytes) (user : User) (rooms : RoomArray) :
    OnHeap A Fault (List Output × ℤ) := do
  if user.room = invalidRoom then return (← sendReplyMessage malloc env user.id notInRoomReply [], 0)
  else
    OnHeap.access recvBuf
    let msg ← OnHeap.lift (chatMessageDeserialize env.host buf env.locals.chat)
    let msg := { msg with timestamp := env.clock }
    let msg := { msg with name := ← OnHeap.lift (strcpy msg.name user.name) }
    match ← serialized malloc (chatMessageSerialize env.host env.heap msg) with
    | none => return ([], -1)
    | some (p, sendBuf, len) =>
      match roomArrayGetRoom rooms user.room.toNat with
      | none => OnHeap.lift (.error .null)
      | some i =>
        let room ← OnHeap.lift (rooms.read i)
        broadcast p env room (.chat msg) sendBuf len room.numUsers 0

def handleNameMessage (env : Env) (recvBuf : A) (buf : Bytes) (user : User) :
    OnHeap A Fault (User × List Output) := do
  OnHeap.access recvBuf
  let msg ← OnHeap.lift (nameMessageDeserialize buf env.locals.name)
  let user := { user with name := ← OnHeap.lift (strcpy user.name msg.name) }
  return (user, ← sendReplyMessage malloc env user.id nameReply [.str msg.name.toList])

def handleJoinMessage (env : Env) (recvBuf : A) (buf : Bytes) (rooms : RoomArray) (user : User) :
    OnHeap A Fault (RoomArray × User × List Output) := do
  OnHeap.access recvBuf
  let msg ← OnHeap.lift (joinMessageDeserialize buf env.locals.join)
  match roomArrayGetRoom rooms msg.roomId.toNat with
  | none =>
    return (rooms, user, ← sendReplyMessage malloc env user.id missingRoomReply [.int msg.roomId.toNat])
  | some i =>
    let newRoom ← OnHeap.lift (rooms.read i)
    if user.room = newRoom.id then
      return (rooms, user, ← sendReplyMessage malloc env user.id alreadyInReply [.int newRoom.id.toNat])
    else
      let (rooms, user) ← OnHeap.lift (leaveRoom rooms user)
      match ← OnHeap.lift (rooms.addUser i user) with
      | none =>
        return (rooms, user, ← sendReplyMessage malloc env user.id fullRoomReply [.int newRoom.id.toNat])
      | some (rooms, user) =>
        return (rooms, user, ← sendReplyMessage malloc env user.id joinedReply [.int newRoom.id.toNat])

variable {live : Multiset A} (env : Env) {recvBuf : A}

theorem sendReplyMessage_runs (client : Fd) (reply : Bytes) (args : List FormatArg) :
    Runs live (sendReplyMessage malloc env client reply args) (ChatRooms.sendReplyMessage env client reply args)
      (Keeps live) := by
  apply Runs.lift_bind
  rintro ⟨totalReply, len⟩ _
  apply Runs.lift_bind
  intro stored _
  apply serialized_bind malloc
  · exact .pure ⟨rfl, rfl⟩
  · intro p sendBuf len
    apply Runs.access_bind (Multiset.mem_cons_self p live)
    exact .free_last_bind (.pure ⟨rfl, rfl⟩)

/-- What is left of a handler that ends with a reply. -/
theorem sendReplyMessage_bind {α : Type} (client : Fd) (reply : Bytes) (args : List FormatArg)
    (f : List Output → α) :
    Runs live (sendReplyMessage malloc env client reply args >>= fun outs => pure (f outs))
      (ChatRooms.sendReplyMessage env client reply args >>= fun outs => pure (f outs)) (Keeps live) := by
  apply (sendReplyMessage_runs malloc env client reply args).bind
  rintro outs _ _ - ⟨rfl, rfl⟩
  exact .pure ⟨rfl, rfl⟩

omit malloc in
theorem broadcast_runs (p : A) (room : Room) (msg : Message) (sendBuf : Bytes) (len fuel i : ℕ) :
    Runs (p ::ₘ live) (broadcast p env room msg sendBuf len fuel i)
      (ChatRooms.broadcast env room msg sendBuf len fuel i) (fun a b left => a = b ∧ left = live) := by
  induction fuel generalizing i with
  | zero => exact .free_last_bind (.pure ⟨rfl, rfl⟩)
  | succ fuel ih =>
    apply Runs.lift_bind
    intro receiver _
    apply Runs.access_bind (Multiset.mem_cons_self p live)
    obtain ⟨sent, result⟩ := sendall (env.send receiver) sendBuf len
    cases result with
    | none => exact .free_last_bind (.pure ⟨rfl, rfl⟩)
    | some _ =>
      apply (ih (i + 1)).bind
      rintro ⟨outs, status⟩ _ _ - ⟨rfl, rfl⟩
      exact .pure ⟨rfl, rfl⟩

theorem handleChatMessage_runs (hbuf : recvBuf ∈ live) (buf : Bytes) (user : User) (rooms : RoomArray) :
    Runs live (handleChatMessage malloc env recvBuf buf user rooms)
      (ChatRooms.handleChatMessage env buf user rooms) (Keeps live) := by
  unfold handleChatMessage ChatRooms.handleChatMessage
  by_cases hroom : user.room = invalidRoom
  · rw [if_pos hroom, if_pos hroom]
    exact sendReplyMessage_bind malloc env _ _ _ _
  · rw [if_neg hroom, if_neg hroom]
    apply Runs.access_bind hbuf
    apply Runs.lift_bind
    intro msg _
    apply Runs.lift_bind
    intro name _
    apply serialized_bind malloc
    · exact .pure ⟨rfl, rfl⟩
    · intro p sendBuf len
      dsimp only
      cases roomArrayGetRoom rooms user.room.toNat with
      | none => exact Runs.error Fault.null
      | some i => exact .lift_bind fun room _ => broadcast_runs env p room _ sendBuf len _ 0

theorem handleNameMessage_runs (hbuf : recvBuf ∈ live) (buf : Bytes) (user : User) :
    Runs live (handleNameMessage malloc env recvBuf buf user) (ChatRooms.handleNameMessage env buf user)
      (Keeps live) := by
  apply Runs.access_bind hbuf
  apply Runs.lift_bind
  intro msg _
  apply Runs.lift_bind
  intro name _
  exact sendReplyMessage_bind malloc env _ _ _ _

theorem handleJoinMessage_runs (hbuf : recvBuf ∈ live) (buf : Bytes) (rooms : RoomArray) (user : User) :
    Runs live (handleJoinMessage malloc env recvBuf buf rooms user)
      (ChatRooms.handleJoinMessage env buf rooms user) (Keeps live) := by
  apply Runs.access_bind hbuf
  apply Runs.lift_bind
  intro msg _
  cases roomArrayGetRoom rooms msg.roomId.toNat with
  | none => exact sendReplyMessage_bind malloc env _ _ _ _
  | some i =>
    apply Runs.lift_bind
    intro newRoom _
    by_cases hsame : user.room = newRoom.id
    · rw [if_pos hsame, if_pos hsame]
      exact sendReplyMessage_bind malloc env _ _ _ _
    · rw [if_neg hsame, if_neg hsame]
      apply Runs.lift_bind
      rintro ⟨rooms, user⟩ _
      apply Runs.lift_bind
      intro added _
      cases added with
      | none => exact sendReplyMessage_bind malloc env _ _ _ _
      | some added => exact sendReplyMessage_bind malloc env _ _ _ _

end ChatRooms.Heaped
