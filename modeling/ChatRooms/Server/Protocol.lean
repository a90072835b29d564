import ChatRooms.Client
import ChatRooms.Server.Steps

/-!
# The protocol between clients and server

Runs of the server in which every message is one that a client's serializer produced from strings
that fit.  Such a run is closed: the server commits no fault and meets no invalid message, the names
it stores stay C strings, and whatever it writes is decoded by the client to the strings the server
put in (`protocol_closed`).
-/

namespace ChatRooms

/-- What clients do: connect, disconnect, close or reset the connection, and send a message. -/
inductive ClientAction where
  | connect (fd : Fd)
  | disconnect (client : Fd) (i : ℕ)
  | close (client : Fd)
  | send (client : Fd) (msg : Message)

/-- A frame that the name, join or chat serializer of a client produced from a message whose strings
are terminated. -/
structure ClientFrame (host : ByteOrder) (msg : Message) (buf : Bytes) : Prop where
  term : msg.Terminated
  kind : msg.content.type ≠ .reply
  serialized : ∃ heap len, msg.serialize host heap = .ok (some (buf, len))

theorem ClientFrame.eq_frame {host : ByteOrder} {msg : Message} {buf : Bytes}
    (h : ClientFrame host msg buf) : buf = msg.content.frame host := by
  obtain ⟨heap, len, hser⟩ := h.serialized
  rw [serialize_eq host heap msg h.term] at hser
  split at hser
  · cases hser
    rfl
  · cases hser

/-- The steps of the server on what clients do, with one byte order on all hosts. -/
inductive ClientStep (host : ByteOrder) : Server → Env × ClientAction → List Output → Server → Prop
  | connect (env : Env) (fd : Fd) {s s' : Server} {outs : List Output}
      (step : Step pollfdArrayAppend s (env, .connect fd) outs s') :
      ClientStep host s (env, .connect fd) outs s'
  | disconnect (env : Env) (client : Fd) (i : ℕ) {s s' : Server} {outs : List Output}
      (step : Step pollfdArrayAppend s (env, .terminate client i) outs s') :
      ClientStep host s (env, .disconnect client i) outs s'
  | close (env : Env) (client : Fd) {s s' : Server} {outs : List Output}
      (step : Step pollfdArrayAppend s (env, .message client .closed) outs s') :
      ClientStep host s (env, .close client) outs s'
  | send (env : Env) (client : Fd) (msg : Message) {buf : Bytes} {s s' : Server} {outs : List Output}
      (henv : env.host = host) (frame : ClientFrame host msg buf)
      (step : Step pollfdArrayAppend s (env, .message client (.message buf buf.length)) outs s') :
      ClientStep host s (env, .send client msg) outs s'

/-- A trace of what clients do. -/
abbrev ClientTrace := List (Turn Server (Env × ClientAction) (List Output))

/-- What clients do are steps of the server. -/
theorem ClientStep.step {host : ByteOrder} {s s' : Server} {input : Env × ClientAction}
    {outs : List Output} (step : ClientStep host s input outs s') :
    ∃ event, Step pollfdArrayAppend s (input.1, event) outs s' := by
  cases step with
  | connect env fd step => exact ⟨_, step⟩
  | disconnect env client i step => exact ⟨_, step⟩
  | close env client step => exact ⟨_, step⟩
  | send env client msg henv frame step => exact ⟨_, step⟩

theorem ClientStep.agree {host : ByteOrder} {s s' : Server} {input : Env × ClientAction}
    {outs : List Output} (step : ClientStep host s input outs s') (h : Agree s.rooms s.userTable) :
    Agree s'.rooms s'.userTable := by
  obtain ⟨event, step⟩ := step.step
  exact step.agree h

theorem ClientStep.named {host : ByteOrder} {s s' : Server} {input : Env × ClientAction}
    {outs : List Output} (step : ClientStep host s input outs s') (h : Agree s.rooms s.userTable)
    (hnamed : Named s.userTable) : Named s'.userTable := by
  obtain ⟨event, step⟩ := step.step
  exact step.named h hnamed

/-! ## Requests -/

/-- The output is a write of the frame of a chat message or a reply whose strings are terminated. -/
def Deliverable (host : ByteOrder) (out : Output) : Prop :=
  ∃ fd msg sent, out = .write fd msg (msg.content.frame host) sent ∧ msg.Terminated ∧
    (msg.content.type = .chat ∨ msg.content.type = .reply)

theorem Replies.deliverable {env : Env} {client : Fd} {text : Bytes} {outs : List Output}
    (h : Replies env client text outs) : ∀ out ∈ outs, Deliverable env.host out := by
  rcases h with rfl | ⟨msg, hterm, hstr, rfl⟩
  · intro out hout
    cases hout
  · intro out hout
    obtain rfl := List.mem_singleton.1 hout
    have hcontent : (Message.reply msg).content = .reply text := by rw [Message.content, hstr]
    exact ⟨client, .reply msg, _, by rw [hcontent], hterm, .inr rfl⟩

/-- How a frame of a message is dispatched once its sender has been found. -/
theorem handleClientMessage_frame (env : Env) {client : Fd} {s : Server} {user : User}
    (hfind : userTableFind s.userTable client = some user) (msg : Message) (n : ℕ) :
    handleClientMessage env client (.message (msg.content.frame env.host) n) s =
      match msg with
      | .chat _ => do
        let (outs, status) ← handleChatMessage env (msg.content.frame env.host) user s.rooms
        return some (s, outs, if status ≠ 0 then -1 else 1)
      | .join _ => do
        let (rooms, user, outs) ← handleJoinMessage env (msg.content.frame env.host) s.rooms user
        return some ({ s with rooms, userTable := s.userTable.set user }, outs, 1)
      | .name _ => do
        let (user, outs) ← handleNameMessage env (msg.content.frame env.host) user
        return some ({ s with userTable := s.userTable.set user }, outs, 1)
      | .reply _ => .ok (some (s, [.invalidType], -1)) := by
  have htype : getMessageType (msg.content.frame env.host) = .ok msg.content.type :=
    getMessageType_frame _ _
  simp only [handleClientMessage, hfind, htype, Checked.ok_bind]
  cases msg <;> rfl

/-- A join frame carries its room id behind the type byte. -/
theorem getElem?_joinFrame (host : ByteOrder) (msg : JoinMessage) :
    ((Message.join msg).content.frame host)[5]? = some msg.roomId := by
  change (ByteOrder.big.store 4 6 ++ [MessageType.join.code, msg.roomId])[5]? = _
  rw [List.getElem?_append_right (by simp), ByteOrder.length_store]
  rfl

/-- The ways a request from a client's serializer is handled: a chat message outside every room, one
that is broadcast, one for which there is no memory, a join and a name message. -/
inductive Handled (env : Env) (s : Server) (user : User) : Message → Server → List Output → ℤ → Prop
  | outside (msg : ChatMessage) {outs : List Output} (room : user.room = invalidRoom)
      (reply : Replies env user.id notInRoomReply outs) : Handled env s user (.chat msg) s outs 1
  | broadcast (msg out : ChatMessage) {i : ℕ} {room : Room} {outs : List Output} {status : ℤ}
      (inside : user.room ≠ invalidRoom) (term : (Message.chat out).Terminated)
      (content : (Message.chat out).content =
        .chat env.clock (cstr user.name.toList) (cstr msg.text.toList))
      (cell : s.rooms.rooms[i]? = some room) (id : room.id = user.room)
      (sent : (outs, status) = broadcastTo env (.chat out) ((Message.chat out).content.frame env.host)
        ((Message.chat out).content.frame env.host).length room.members) :
      Handled env s user (.chat msg) s outs (if status ≠ 0 then -1 else 1)
  | noMemory (msg : ChatMessage) : Handled env s user (.chat msg) s [] (-1)
  | join (msg : JoinMessage) {rooms : RoomArray} {user' : User} {fmt : Bytes} {outs : List Output}
      (outcome : JoinOutcome s.rooms user msg.roomId user' fmt)
      (reply : Replies env user.id (roomText fmt msg.roomId) outs) :
      Handled env s user (.join msg) { s with rooms, userTable := s.userTable.set user' } outs 1
  | name (msg : NameMessage) {name : CArray UInt8 nameSizeLimit} {outs : List Output}
      (term : Terminated name) (eq : cstr name.toList = cstr msg.name.toList)
      (reply : Replies env user.id (ascii "set name to " ++ cstr msg.name.toList) outs) :
      Handled env s user (.name msg)
        { s with userTable := s.userTable.set { user with name } } outs 1

/-- A request from a client's serializer is handled, without a fault, in one of these ways. -/
theorem handleClientMessage_handled (env : Env) {client : Fd} {s : Server}
    (h : Agree s.rooms s.userTable) {user : User} (hfind : userTableFind s.userTable client = some user)
    (hname : Terminated user.name) {msg : Message} {buf : Bytes}
    (hframe : ClientFrame env.host msg buf) (n : ℕ) :
    ∃ s' outs status, handleClientMessage env client (.message buf n) s = .ok (some (s', outs, status)) ∧
      Handled env s user msg s' outs status := by
  obtain ⟨hu, -⟩ := userTableFind_eq_some.1 hfind
  have hterm := hframe.term
  rw [hframe.eq_frame, handleClientMessage_frame env hfind msg n]
  cases msg with
  | chat msg =>
    obtain ⟨houtside, hinside⟩ := handleChatMessage_spec env h hu hname hterm
    dsimp only
    by_cases hroom : user.room = invalidRoom
    · obtain ⟨outs, hchat, hrep⟩ := houtside hroom
      rw [hchat]
      exact ⟨s, outs, 1, rfl, .outside msg hroom hrep⟩
    · obtain ⟨out, i, room, hout, hcontent, hi, hid, hchat⟩ := hinside hroom
      rw [hchat]
      split
      · exact ⟨s, _, _, rfl, .broadcast msg out hroom hout hcontent hi hid rfl⟩
      · exact ⟨s, [], -1, rfl, .noMemory msg⟩
  | join msg =>
    obtain ⟨rooms', user', outs, fmt, hjoin, -, hout, hrep⟩ :=
      handleJoinMessage_spec env h hu (getElem?_joinFrame env.host msg)
    dsimp only
    rw [hjoin]
    exact ⟨_, outs, 1, rfl, .join msg hout hrep⟩
  | name msg =>
    obtain ⟨name, outs, hhandle, hnew, heq, hrep⟩ := handleNameMessage_spec env user hterm
    dsimp only
    rw [hhandle]
    exact ⟨_, outs, 1, rfl, .name msg hnew heq hrep⟩
  | reply msg => exact absurd rfl hframe.kind

theorem Handled.deliverable {env : Env} {s s' : Server} {user : User} {msg : Message}
    {outs : List Output} {status : ℤ} (h : Handled env s user msg s' outs status) :
    ∀ out ∈ outs, Deliverable env.host out := by
  cases h with
  | outside msg room reply => exact reply.deliverable
  | broadcast msg out inside term content cell id sent =>
    intro o ho
    have houts := congrArg Prod.fst sent
    dsimp only at houts
    rw [houts] at ho
    obtain ⟨receiver, -, rfl⟩ := mem_broadcastTo ho
    exact ⟨receiver, .chat out, _, rfl, term, .inl rfl⟩
  | noMemory => exact fun o ho => nomatch ho
  | join msg outcome reply => exact reply.deliverable
  | name msg term eq reply => exact reply.deliverable

/-- A step on a message of a client handles it in one of the ways of `Handled`. -/
theorem ClientStep.handled {host : ByteOrder} {s s' : Server} {env : Env} {client : Fd} {msg : Message}
    {outs : List Output} (step : ClientStep host s (env, .send client msg) outs s')
    (h : Agree s.rooms s.userTable) (hnamed : Named s.userTable) :
    env.host = host ∧ ∃ user status, userTableFind s.userTable client = some user ∧
      Handled env s user msg s' outs status ∧ status ≠ -1 := by
  cases step with
  | send _ _ _ henv frame step =>
    cases step with
    | message _ _ _ hhandle success =>
      subst henv
      obtain ⟨user, hfind⟩ := exists_sender hhandle success
      have hname := hnamed user (userTableFind_eq_some.1 hfind).1
      obtain ⟨s'', outs', status, hspec, hhandled⟩ :=
        handleClientMessage_handled env h hfind hname frame _
      rw [hspec, Except.ok.injEq, Option.some.injEq, Prod.mk.injEq, Prod.mk.injEq] at hhandle
      obtain ⟨rfl, rfl, rfl⟩ := hhandle
      exact ⟨rfl, user, status, hfind, hhandled, success⟩

/-! ## Runs of the protocol -/

theorem ClientRun.agree {host : ByteOrder} {s₀ s : Server} {trace : ClientTrace}
    (h₀ : Initial pollfdArrayAppend s₀) (run : Run (ClientStep host) s₀ trace s) :
    Agree s.rooms s.userTable ∧ Named s.userTable := by
  refine run.invariant (fun s => Agree s.rooms s.userTable ∧ Named s.userTable) ⟨h₀.agree, ?_⟩
    fun _ _ step h => ⟨step.agree h.1, step.named h.1 h.2⟩
  rw [h₀.userTable]
  exact fun _ hu => nomatch hu

/-- Clients and server speak a closed protocol.  After any run on frames from the clients'
serializers the stored names are C strings, and any further such frame is handled without a fault;
its outputs are neither a truncated reply nor the invalid-message branch but only frames whose
header is their length, made from strings that fit, which the client accepts and prints as they were
put in. -/
theorem protocol_closed {host : ByteOrder} {s₀ s : Server} {trace : ClientTrace}
    (h₀ : Initial pollfdArrayAppend s₀) (run : Run (ClientStep host) s₀ trace s) :
    (∀ u ∈ s.userTable.users, Terminated u.name) ∧
    ∀ (env : Env) (client : Fd) (msg : Message) (buf : Bytes) (n : ℕ), env.host = host →
      ClientFrame host msg buf →
      ∃ s' outs status,
        handleClientMessage env client (.message buf n) s = .ok (some (s', outs, status)) ∧
        ∀ out ∈ outs, ∃ fd msg sendBuf sent, out = .write fd msg sendBuf sent ∧ msg.Terminated ∧
          announced sendBuf = sendBuf.length ∧
          ∀ (locals : Locals) (n : ℕ), ∃ p,
            handleServerMessage host locals (.message sendBuf n) = .ok (some (some p, 0)) ∧
              p.Says msg := by
  obtain ⟨hagree, hnamed⟩ := ClientRun.agree h₀ run
  refine ⟨hnamed, fun env client msg buf n henv hframe => ?_⟩
  subst henv
  cases hfind : userTableFind s.userTable client with
  | none =>
    refine ⟨s, [], -1, ?_, fun out hout => nomatch hout⟩
    simp only [handleClientMessage, hfind]
    rfl
  | some user =>
  have hname := hnamed user (userTableFind_eq_some.1 hfind).1
  obtain ⟨s', outs, status, hhandle, hhandled⟩ :=
    handleClientMessage_handled env hagree hfind hname hframe n
  refine ⟨s', outs, status, hhandle, fun out hout => ?_⟩
  obtain ⟨fd, msg, sent, rfl, hterm, hkind⟩ := hhandled.deliverable out hout
  exact ⟨fd, msg, _, sent, rfl, hterm, announced_frame env.host hterm.fits,
    fun locals n => handleServerMessage_frame env.host locals hterm hkind n⟩

/-- A join frame for room 2. -/
theorem joinFrame_two : ClientFrame .little (.join ⟨2⟩) [0, 0, 0, 6, 3, 2] where
  term := trivial
  kind := by decide
  serialized := ⟨.steady, 6, rfl⟩

/-- One client connects and joins room 2, and then asks for it again. -/
theorem protocol_closed_join : ∃ s trace, Run (ClientStep .little) (.start 3) trace s ∧
    s.userTable.users.map User.room = [2] ∧ (∀ u ∈ s.userTable.users, Terminated u.name) ∧
    ∃ s' outs status, handleClientMessage (.steady 0) 4 (.message [0, 0, 0, 6, 3, 2] 6) s =
        .ok (some (s', outs, status)) ∧
      ∀ out ∈ outs, ∃ fd msg sendBuf sent, out = .write fd msg sendBuf sent ∧ msg.Terminated ∧
        announced sendBuf = sendBuf.length ∧
        ∀ (locals : Locals) (n : ℕ), ∃ p,
          handleServerMessage .little locals (.message sendBuf n) = .ok (some (some p, 0)) ∧
            p.Says msg := by
  have connect : Run (ClientStep .little) (.start 3) _ _ :=
    Run.start.turn (.connect (.steady 0) 4 (.connect (.steady 0) 4 (by decide) rfl))
  have run := connect.turn (.send (.steady 0) 4 (.join ⟨2⟩) rfl joinFrame_two
    (.message (.steady 0) 4 _ rfl (by decide) (Env.steady_returned _ _)))
  have h := protocol_closed (Server.start_initial 3) run
  exact ⟨_, _, run, rfl, h.1, h.2 (.steady 0) 4 (.join ⟨2⟩) _ 6 rfl joinFrame_two⟩

end ChatRooms
