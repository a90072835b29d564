import ChatRooms.Server.Isolation

/-!
# A receiver that fails

The loop of `handle_chat_message` ends at the first member of the room whose send fails, and the -1 that
it returns goes through `handle_client_message` to the main loop, which ends the process (`iterate_chat`).
So a chat message reaches the members and the server goes on exactly when it can be serialized and no send
fails: `broadcast_survives_iff`.
-/

namespace ChatRooms

/-- What the kernel took of the writes to a descriptor, one write after another. -/
def writesTo (fd : Fd) (outs : List Output) : List Bytes :=
  outs.filterMap fun out => match out with
    | .write receiver _ _ sent => if receiver = fd then some sent else none
    | _ => none

/-- An iteration handles a message of the client and the server goes on; and each of the receivers gets
the frame exactly once, unless the send to it fails. -/
def Survives (append : Append) (turn : TurnEnv) (i : ℕ) (s : MainState) (client : Fd) (received : Received)
    (frame : Bytes) (receivers : List Fd) : Prop :=
  ∃ s' outs, iterate append turn i s = .ok (.next s' (.handled client received outs)) ∧
    ∀ fd ∈ receivers, ¬ SendFails turn.env frame fd → writesTo fd outs = [frame]

theorem writesTo_cons (fd receiver : Fd) (msg : Message) (sendBuf sent : Bytes) (outs : List Output) :
    writesTo fd (.write receiver msg sendBuf sent :: outs) =
      if receiver = fd then sent :: writesTo fd outs else writesTo fd outs := by
  by_cases h : receiver = fd <;> simp [writesTo, h]

/-- A whole broadcast writes to each receiver once. -/
theorem writesTo_broadcast {receivers : List Fd} (hnodup : receivers.Nodup) (msg : Message) (frame : Bytes)
    {fd : Fd} (hfd : fd ∈ receivers) :
    writesTo fd (receivers.map fun receiver => .write receiver msg frame frame) = [frame] := by
  have hwrites : ∀ l : List Fd, writesTo fd (l.map fun receiver => .write receiver msg frame frame) =
      List.replicate (l.count fd) frame := by
    intro l
    induction l with
    | nil => rfl
    | cons receiver l ih =>
      rw [List.map_cons, writesTo_cons, ih, List.count_cons]
      by_cases hr : receiver = fd
      · rw [if_pos hr, if_pos (by simpa using hr), List.replicate_succ]
      · rw [if_neg hr, if_neg (by simpa using hr), Nat.add_zero]
  rw [hwrites, List.count_eq_one_of_mem hnodup hfd, List.replicate_one]

/-- A chat message of a user in a room that is handled has a terminated text. -/
theorem terminated_of_handled {env : Env} {buf : Bytes} {user : User} {rooms : RoomArray}
    {result : List Output × ℤ} (hroom : user.room ≠ invalidRoom) {msg : ChatMessage}
    (hdecode : chatMessageDeserialize env.host buf env.locals.chat = .ok msg)
    (h : handleChatMessage env buf user rooms = .ok result) : Terminated msg.text := by
  rw [handleChatMessage, if_neg hroom, hdecode, Checked.ok_bind] at h
  obtain ⟨name, -, h⟩ := Checked.bind_eq_ok.1 h
  obtain ⟨serialized, hser, -⟩ := Checked.bind_eq_ok.1 h
  obtain ⟨nameLen, -, hser⟩ := Checked.bind_eq_ok.1 hser
  obtain ⟨textLen, hlen, -⟩ := Checked.bind_eq_ok.1 hser
  exact (strlen_eq_ok.1 hlen).1

section Iteration

variable {append : Append} {turn : TurnEnv} {i : ℕ} {s : MainState} {pfd : Pollfd}
  (hread : s.server.pollfds.read i = .ok pfd) (hup : pfd.revents &&& pollhup = 0)
  (input : pfd.revents &&& pollin ≠ 0) (client : pfd.fd ≠ s.server.listener) {buf : Bytes} {n : ℕ}
  {stream : Stream} (recv : recvall turn.recv (s.streams pfd.fd) = (.message buf n, stream))
  (type : getMessageType buf = .ok .chat) {user : User}
  (hfind : userTableFind s.server.userTable pfd.fd = some user)

include hread hup input client recv type hfind

/-- The iteration at the entry of a client that has sent a chat message is the handler of the message; with
a status other than 0 it ends the process, and so it may where a send does not return. -/
theorem iterate_chat {frame : Bytes} {receivers : List Fd} :
    Survives append turn i s pfd.fd (.message buf n) frame receivers ↔
      ∃ outs, handleChatMessage turn.env buf user s.server.rooms = .ok (outs, 0) ∧ Returned turn.env outs ∧
        ∀ fd ∈ receivers, ¬ SendFails turn.env frame fd → writesTo fd outs = [frame] := by
  have handled : handleClientMessage turn.env pfd.fd (.message buf n) s.server =
      handleChatMessage turn.env buf user s.server.rooms >>= fun result =>
        .ok (some (s.server, result.1, if result.2 ≠ 0 then -1 else 1)) := by
    simp only [handleClientMessage, hfind, type, Checked.ok_bind]
    rfl
  have iterated : iterate append turn i s =
      handleChatMessage turn.env buf user s.server.rooms >>= fun result =>
        if Killed turn.env result.1 then .ok (.killed result.1)
        else if ¬ Returned turn.env result.1 then .ok .blocked
        else if result.2 = 0 then
          .ok (.next ⟨s.server, .entry (nextIndex i), Function.update s.streams pfd.fd stream⟩
            (.handled pfd.fd (.message buf n) result.1))
        else .ok (.exited result.1) := by
    rw [iterate, hread, Checked.ok_bind, if_neg (not_not.2 hup), if_pos input, if_neg client, recv]
    dsimp only
    rw [handled]
    cases hchat : handleChatMessage turn.env buf user s.server.rooms with
    | error fault => rfl
    | ok result =>
      obtain ⟨outs, status⟩ := result
      by_cases hstatus : status = 0 <;> simp [hstatus, Checked.ok_bind]
  unfold Survives
  rw [iterated]
  constructor
  · rintro ⟨s', outs, hnext, hall⟩
    obtain ⟨⟨outs', status⟩, hchat, hnext⟩ := Checked.bind_eq_ok.1 hnext
    dsimp only at hnext
    by_cases hkilled : Killed turn.env outs'
    · rw [if_pos hkilled] at hnext
      cases hnext
    rw [if_neg hkilled] at hnext
    by_cases hreturned : Returned turn.env outs'
    swap
    · rw [if_pos hreturned] at hnext
      cases hnext
    rw [if_neg (not_not.2 hreturned)] at hnext
    by_cases hstatus : status = 0
    · rw [if_pos hstatus] at hnext
      cases hnext
      exact ⟨outs, hstatus ▸ hchat, hreturned, hall⟩
    · rw [if_neg hstatus] at hnext
      cases hnext
  · rintro ⟨outs, hchat, hreturned, hall⟩
    rw [hchat, Checked.ok_bind, if_neg hreturned.not_killed, if_neg (not_not.2 hreturned), if_pos rfl]
    exact ⟨_, outs, rfl, hall⟩

end Iteration

/-- A failing receiver and the broadcast.  In every reachable state, for every chat message of a user in a
room: the server goes on, and every member of the room whose send does not fail gets the complete frame
exactly once, exactly when the text is terminated, there is memory for the frame, and the send to no
member fails. -/
theorem broadcast_survives_iff {append : Append} {s₀ s : MainState} {trace : MainTrace}
    (h₀ : MainInitial append s₀) (run : Run (MainStep append) s₀ trace s) (turn : TurnEnv) {i : ℕ}
    {pfd : Pollfd} (hread : s.server.pollfds.read i = .ok pfd) (hup : pfd.revents &&& pollhup = 0)
    (input : pfd.revents &&& pollin ≠ 0) (client : pfd.fd ≠ s.server.listener) {buf : Bytes} {n : ℕ}
    {stream : Stream} (recv : recvall turn.recv (s.streams pfd.fd) = (.message buf n, stream))
    (type : getMessageType buf = .ok .chat) {user : User}
    (hfind : userTableFind s.server.userTable pfd.fd = some user) (hroom : user.room ≠ invalidRoom)
    {msg : ChatMessage} (hdecode : chatMessageDeserialize turn.env.host buf turn.env.locals.chat = .ok msg)
    {frame : Bytes}
    (hframe : frame = (Content.chat turn.env.clock (cstr user.name.toList) (cstr msg.text.toList)).frame
      turn.env.host) :
    Survives append turn i s pfd.fd (.message buf n) frame (s.server.userTable.inRoom user.room) ↔
      Terminated msg.text ∧ turn.env.heap.serves frame.length = true ∧
        ∀ fd ∈ s.server.userTable.inRoom user.room, ¬ SendFails turn.env frame fd := by
  have h := run.connected h₀
  obtain ⟨hu, -⟩ := userTableFind_eq_some.1 hfind
  rw [iterate_chat hread hup input client recv type hfind]
  by_cases htext : Terminated msg.text
  · rw [and_iff_right htext]
    obtain ⟨out, j, room, -, hcontent, hcell, hid, hspec⟩ :=
      handleChatMessage_inside turn.env h.agree hu (h.named user hu) hroom hdecode htext
    rw [hcontent, ← hframe] at hspec
    have hmembers := h.agree.members hcell
    rw [hid] at hmembers
    rw [hspec]
    by_cases hserves : turn.env.heap.serves frame.length = true
    · rw [if_pos hserves, and_iff_right hserves]
      have hstatus : (broadcastTo turn.env (.chat out) frame frame.length room.members).2 = 0 ↔
          ∀ fd ∈ room.members, ¬ SendFails turn.env frame fd := broadcastTo_status_iff
      constructor
      · rintro ⟨outs, hbroadcast, -⟩ fd hfd
        apply hstatus.1
        · rw [Except.ok.inj hbroadcast]
        · exact hmembers.mem_iff.2 hfd
      · intro hall
        have hnone : ∀ fd ∈ room.members, ¬ SendFails turn.env frame fd :=
          fun fd hfd => hall fd (hmembers.mem_iff.1 hfd)
        refine ⟨_, congrArg Except.ok (broadcastTo_of_not_fails (.chat out) hnone), fun sent hsent => ?_,
          fun fd hfd _ => ?_⟩
        · obtain ⟨receiver, hreceiver, rfl⟩ := List.mem_map.1 hsent
          rw [Output.sendEnd, sendEnd_of_some (hnone receiver hreceiver)]
          exact trivial
        exact writesTo_broadcast (hmembers.nodup_iff.2 (UserTable.nodup_inRoom _ _)) _ _ (hmembers.mem_iff.2 hfd)
    · rw [if_neg hserves]
      refine iff_of_false ?_ fun hall => hserves hall.1
      rintro ⟨outs, hfailed, -⟩
      cases hfailed
  · refine iff_of_false ?_ fun hall => htext hall.1
    rintro ⟨outs, hchat, -⟩
    exact htext (terminated_of_handled hroom hdecode hchat)

/-! ## Two members -/

/-- Clients 4 and 5 are in room 2, and the chat message of 4 has been polled. -/
structure TwoMembers (s : MainState) : Prop where
  listener : s.server.listener = 3
  entry : s.pc = .entry 1 ∧ s.server.pollfds.read 1 = .ok ⟨4, pollin, pollin⟩
  stream : s.streams 4 = ⟨chatFrame, .open⟩
  members : s.server.rooms.rooms.map Room.members = [[], [4, 5], [], [], []]
  inRoom : s.server.userTable.inRoom 2 = [4, 5]
  sender : ∃ name, userTableFind s.server.userTable 4 = some ⟨4, 2, name⟩ ∧ cstr name.toList = anonymous

/-- The send to client 4 fails, and no other send. -/
def resetTurn : TurnEnv :=
  ⟨{ Env.steady 0 with send := fun fd _ => if fd = 4 then .failed else .accepted 1 }, .steady 19, none⟩

theorem resetTurn_accepts (call : ℕ) : (resetTurn.env.send 5 call).Accepted := trivial

set_option maxRecDepth 5000 in
/-- One of two members of a room sends a chat message.  When the send to the first one fails, the process ends
and the second one gets nothing. -/
theorem run_chatPolled : ∃ s trace, Run (MainStep pollfdArrayAppend) (.start 3) trace s ∧ TwoMembers s ∧
    ∃ outs, iterate pollfdArrayAppend resetTurn 1 s = .ok (.exited outs) ∧ writesTo 5 outs = [] := by
  obtain ⟨trace, both⟩ := run_twoMembers
  have run := ((both.turn (.arrive 4 chatFrame rfl)).turn
    (.poll (fun i => if i = 1 then pollin else 0) rfl)).turn
    (.turn 0 ⟨.steady 0, .steady 6, none⟩ rfl (by decide) .none rfl)
  exact ⟨_, _, run, ⟨rfl, ⟨rfl, rfl⟩, rfl, rfl, rfl, _, rfl, by decide⟩, _, rfl, rfl⟩

/-- The chat message `a` under the name `anonymous`. -/
def anonymousFrame : Bytes := (Content.chat 0 anonymous [97]).frame .little

/-- Without a failure both members get the frame. -/
theorem broadcast_survives_iff_both : ∃ s trace, Run (MainStep pollfdArrayAppend) (.start 3) trace s ∧
    TwoMembers s ∧ Survives pollfdArrayAppend ⟨.steady 0, .steady 19, none⟩ 1 s 4 (.message chatFrame 19)
      anonymousFrame [4, 5] := by
  obtain ⟨s, trace, run, htwo, -⟩ := run_chatPolled
  obtain ⟨name, hfind, hname⟩ := htwo.sender
  have hrecv : recvall (.steady 19) (s.streams 4) = (.message chatFrame 19, ⟨[], .open⟩) := by
    rw [htwo.stream]
    rfl
  have hclient : (4 : Fd) ≠ s.server.listener := by
    rw [htwo.listener]
    decide
  have hframe : anonymousFrame = (Content.chat 0 (cstr name.toList) [97]).frame .little := by
    rw [hname]
    rfl
  have h := broadcast_survives_iff (MainState.start_initial (by decide)) run
    ⟨.steady 0, .steady 19, none⟩ htwo.entry.2 (by decide) (by decide) hclient hrecv rfl hfind
    (by decide : (2 : UInt8) ≠ 0) (rfl : chatMessageDeserialize .little chatFrame (Locals.filled 0).chat = .ok _)
    hframe
  rw [htwo.inRoom] at h
  exact ⟨s, trace, run, htwo, h.2 ⟨by decide, rfl, fun fd _ => not_sendFails (Env.steady_accepts 0 fd) _⟩⟩

/-- The send to the first member fails: the process ends, and the second one, whose send would not fail,
gets nothing. -/
theorem broadcast_stops : ∃ s trace, Run (MainStep pollfdArrayAppend) (.start 3) trace s ∧ TwoMembers s ∧
    ¬ SendFails resetTurn.env anonymousFrame 5 ∧
    (∃ outs, iterate pollfdArrayAppend resetTurn 1 s = .ok (.exited outs) ∧ writesTo 5 outs = []) ∧
    ¬ Survives pollfdArrayAppend resetTurn 1 s 4 (.message chatFrame 19) anonymousFrame [4, 5] := by
  obtain ⟨s, trace, run, htwo, outs, hexit, hnothing⟩ := run_chatPolled
  refine ⟨s, trace, run, htwo, not_sendFails resetTurn_accepts _, ⟨outs, hexit, hnothing⟩, ?_⟩
  rintro ⟨s', outs', hnext, -⟩
  rw [hexit] at hnext
  cases hnext

end ChatRooms
