import ChatRooms.Server.Membership

/-!
# What the handlers do

One theorem for each handler of a message, under the agreement of rooms and users.

* `sendReplyMessage_spec`: a text that fits goes out whole, in one frame.
* `broadcast_eq`: the loop of `handle_chat_message` is a recursion over the members of the room;
  `handleChatMessage_outside` and `handleChatMessage_inside` say what goes to whom.
* `handleNameMessage_decoded`: a name that decodes is stored.
* `handleJoinMessage_effect`: the four outcomes of a join, and the rooms that it does not touch.
-/

namespace ChatRooms

/-! ## Replies -/

/-- The outputs of a reply: one frame that says `text`, or none if there was no memory for it. -/
def Replies (env : Env) (client : Fd) (text : Bytes) (outs : List Output) : Prop :=
  outs = [] ∨ ∃ msg : ReplyMessage, Terminated msg.reply ∧ cstr msg.reply.toList = text ∧
    outs = [.write client (.reply msg) ((Content.reply text).frame env.host)
      (sendall (env.send client) ((Content.reply text).frame env.host)
        ((Content.reply text).frame env.host).length).1]

/-- A text that fits is sent in one frame, when there is memory for it. -/
theorem sendReplyMessage_eq (env : Env) (client : Fd) {fmt text : Bytes} {args : List FormatArg}
    (htext : format fmt args = .ok text) (h0 : 0 ∉ text) (hlt : text.length < replySizeLimit) :
    ∃ msg : ReplyMessage, Terminated msg.reply ∧ cstr msg.reply.toList = text ∧
      sendReplyMessage env client fmt args =
        .ok (if env.heap.serves ((Content.reply text).frame env.host).length then
          [.write client (.reply msg) ((Content.reply text).frame env.host)
            (sendall (env.send client) ((Content.reply text).frame env.host)
              ((Content.reply text).frame env.host).length).1]
        else []) := by
  obtain ⟨total, hprint, hterm, htotal⟩ := vsnprintf_of_lt env.totalReply htext h0 hlt
  obtain ⟨v, hcopy, hv, hcstr⟩ := strcpy_of_lt env.locals.reply.reply hterm (by rw [htotal]; exact hlt)
  rw [htotal] at hcstr
  refine ⟨⟨v⟩, hv, hcstr, ?_⟩
  have hser := serialize_eq env.host env.heap (.reply ⟨v⟩) hv
  rw [Message.content, hcstr] at hser
  have hnot : ¬ text.length ≥ replySizeLimit := not_le.2 hlt
  simp only [sendReplyMessage, hprint, hcopy, Checked.ok_bind, if_neg hnot]
  change (Message.serialize env.host env.heap (.reply ⟨v⟩) >>= _) = _
  rw [hser]
  split
  · rfl
  · rfl

theorem sendReplyMessage_spec (env : Env) (client : Fd) {fmt text : Bytes} {args : List FormatArg}
    (htext : format fmt args = .ok text) (h0 : 0 ∉ text) (hlt : text.length < replySizeLimit) :
    ∃ outs, sendReplyMessage env client fmt args = .ok outs ∧ Replies env client text outs := by
  obtain ⟨msg, hterm, hcstr, hsend⟩ := sendReplyMessage_eq env client htext h0 hlt
  rw [hsend]
  split
  · exact ⟨_, rfl, .inr ⟨msg, hterm, hcstr, rfl⟩⟩
  · exact ⟨_, rfl, .inl rfl⟩

/-- A reply writes nothing but replies. -/
theorem mem_sendReplyMessage {env : Env} {client : Fd} {fmt : Bytes} {args : List FormatArg}
    {outs : List Output} (h : sendReplyMessage env client fmt args = .ok outs) {out : Output}
    (hout : out ∈ outs) : out = .truncated ∨ ∃ msg sendBuf sent, out = .write client (.reply msg) sendBuf sent := by
  obtain ⟨⟨total, len⟩, -, h⟩ := Checked.bind_eq_ok.1 h
  obtain ⟨reply, -, h⟩ := Checked.bind_eq_ok.1 h
  obtain ⟨serialized, -, h⟩ := Checked.bind_eq_ok.1 h
  have hwarning : out ∈ (if len ≥ replySizeLimit then [Output.truncated] else []) → out = .truncated := by
    split
    · exact List.mem_singleton.1
    · exact fun hmem => absurd hmem List.not_mem_nil
  cases serialized with
  | none =>
    cases h
    exact .inl (hwarning hout)
  | some frame =>
    cases h
    rcases List.mem_append.1 hout with hmem | hmem
    · exact .inl (hwarning hmem)
    · exact .inr ⟨_, _, _, List.mem_singleton.1 hmem⟩

theorem format_missingRoomReply (n : UInt8) : format missingRoomReply [.int n.toNat] =
    .ok (ascii "room " ++ (decimal n.toNat ++ ascii " does not exist")) := rfl

theorem format_alreadyInReply (n : UInt8) : format alreadyInReply [.int n.toNat] =
    .ok (ascii "you are already in room " ++ (decimal n.toNat ++ [])) := rfl

theorem format_fullRoomReply (n : UInt8) : format fullRoomReply [.int n.toNat] =
    .ok (ascii "room " ++ (decimal n.toNat ++ ascii " is full")) := rfl

theorem format_joinedReply (n : UInt8) : format joinedReply [.int n.toNat] =
    .ok (ascii "you have joined room " ++ (decimal n.toNat ++ [])) := rfl

/-- The four formats of `handle_join_message`. -/
def joinFormats : List Bytes := [missingRoomReply, alreadyInReply, fullRoomReply, joinedReply]

/-- A format of `handle_join_message` filled in with a room id. -/
def roomText (fmt : Bytes) (n : UInt8) : Bytes := (format fmt [.int n.toNat]).toOption.getD []

theorem roomText_of_format {fmt text : Bytes} {n : UInt8} (h : format fmt [.int n.toNat] = .ok text) :
    roomText fmt n = text := by
  rw [roomText, h]
  rfl

theorem format_room {fmt : Bytes} (hfmt : fmt ∈ joinFormats) (n : UInt8) :
    format fmt [.int n.toNat] = .ok (roomText fmt n) ∧ 0 ∉ roomText fmt n ∧
      (roomText fmt n).length < replySizeLimit := by
  have hdec : (decimal n.toNat).length ≤ 3 := by
    have := n.toNat_lt
    exact length_digits_le (by decide) (by omega)
  have hnul := nul_notMem_decimal n.toNat
  -- Each format is some text, the room id, and some more text.
  obtain ⟨before, after, htext, hb, ha, hlen⟩ : ∃ before after,
      format fmt [.int n.toNat] = .ok (before ++ (decimal n.toNat ++ after)) ∧ 0 ∉ before ∧
        0 ∉ after ∧ before.length + after.length < 90 := by
    simp only [joinFormats, List.mem_cons, List.not_mem_nil, or_false] at hfmt
    rcases hfmt with rfl | rfl | rfl | rfl
    · exact ⟨_, _, format_missingRoomReply n, by decide, by decide, by decide⟩
    · exact ⟨_, _, format_alreadyInReply n, by decide, by decide, by decide⟩
    · exact ⟨_, _, format_fullRoomReply n, by decide, by decide, by decide⟩
    · exact ⟨_, _, format_joinedReply n, by decide, by decide, by decide⟩
  have hroom : roomText fmt n = before ++ (decimal n.toNat ++ after) := roomText_of_format htext
  refine ⟨by rw [hroom, htext], ?_, ?_⟩
  · rw [hroom]
    simp only [List.mem_append, not_or]
    exact ⟨hb, hnul, ha⟩
  · rw [hroom, List.length_append, List.length_append]
    show _ < 100
    omega

/-! ## Chat messages -/

/-- The broadcast as a recursion over its receivers. -/
def broadcastTo (env : Env) (msg : Message) (sendBuf : Bytes) (len : ℕ) : List Fd → List Output × ℤ
  | [] => ([], 0)
  | receiver :: receivers =>
    match sendall (env.send receiver) sendBuf len with
    | (sent, none) => ([.write receiver msg sendBuf sent], -1)
    | (sent, some _) =>
      let (outs, status) := broadcastTo env msg sendBuf len receivers
      (.write receiver msg sendBuf sent :: outs, status)

theorem broadcast_eq (env : Env) {room : Room} (msg : Message) (sendBuf : Bytes) (len : ℕ)
    (hn : room.numUsers ≤ maxUsersPerRoom) {fuel i : ℕ} (hfuel : i + fuel = room.numUsers) :
    broadcast env room msg sendBuf len fuel i =
      .ok (broadcastTo env msg sendBuf len (room.members.drop i)) := by
  induction fuel generalizing i with
  | zero =>
    rw [broadcast, List.drop_eq_nil_of_le (by rw [length_members hn]; omega)]
    rfl
  | succ fuel ih =>
    have him : i < room.members.length := by
      rw [length_members hn]
      omega
    have hi : i < room.users.toList.length := by
      rw [List.Vector.toList_length]
      omega
    rw [broadcast, CArray.read_of_lt _ hi, Checked.ok_bind, List.drop_eq_getElem_cons him,
      broadcastTo]
    have hcell : room.users.toList[i] = room.members[i] := by
      simp only [Room.members, List.getElem_take]
    rw [hcell]
    obtain ⟨sent, result⟩ := sendall (env.send room.members[i]) sendBuf len
    cases result with
    | none => rfl
    | some n =>
      dsimp only
      rw [ih (by omega)]
      rfl

/-- Every output of a broadcast is a write of its frame to one of its receivers. -/
theorem mem_broadcastTo {env : Env} {msg : Message} {sendBuf : Bytes} {len : ℕ} {receivers : List Fd}
    {out : Output} (h : out ∈ (broadcastTo env msg sendBuf len receivers).1) :
    ∃ receiver ∈ receivers,
      out = .write receiver msg sendBuf (sendall (env.send receiver) sendBuf len).1 := by
  induction receivers with
  | nil => cases h
  | cons receiver receivers ih =>
    rw [broadcastTo] at h
    split at h
    · rename_i sent heq
      obtain rfl := List.mem_singleton.1 h
      exact ⟨receiver, List.mem_cons_self, by rw [heq]⟩
    · rename_i sent _ heq
      rcases List.mem_cons.1 h with rfl | h
      · exact ⟨receiver, List.mem_cons_self, by rw [heq]⟩
      · obtain ⟨r, hr, hout⟩ := ih h
        exact ⟨r, List.mem_cons_of_mem _ hr, hout⟩

/-- The `sendall` of a whole buffer to a receiver fails. -/
def SendFails (env : Env) (sendBuf : Bytes) (receiver : Fd) : Prop :=
  (sendall (env.send receiver) sendBuf sendBuf.length).2 = none

theorem not_sendFails {env : Env} {receiver : Fd} (h : ∀ call, (env.send receiver call).Accepted)
    (sendBuf : Bytes) : ¬ SendFails env sendBuf receiver := by
  rw [SendFails, sendall_of_accepted h]
  exact Option.some_ne_none _

/-- When the send to no receiver fails, every receiver gets the whole frame. -/
theorem broadcastTo_of_not_fails {env : Env} (msg : Message) {sendBuf : Bytes} {receivers : List Fd}
    (h : ∀ receiver ∈ receivers, ¬ SendFails env sendBuf receiver) :
    broadcastTo env msg sendBuf sendBuf.length receivers =
      (receivers.map fun receiver => .write receiver msg sendBuf sendBuf, 0) := by
  induction receivers with
  | nil => rfl
  | cons receiver receivers ih =>
    obtain ⟨n, hn⟩ := Option.ne_none_iff_exists'.1 (h receiver List.mem_cons_self)
    rw [broadcastTo, sendall_of_some hn]
    dsimp only
    rw [ih fun r hr => h r (List.mem_cons_of_mem _ hr)]
    rfl

/-- A broadcast ends with 0 exactly when the send to no receiver fails. -/
theorem broadcastTo_status_iff {env : Env} {msg : Message} {sendBuf : Bytes} {receivers : List Fd} :
    (broadcastTo env msg sendBuf sendBuf.length receivers).2 = 0 ↔
      ∀ receiver ∈ receivers, ¬ SendFails env sendBuf receiver := by
  refine ⟨fun h => ?_, fun h => by rw [broadcastTo_of_not_fails msg h]⟩
  induction receivers with
  | nil => exact fun r hr => absurd hr List.not_mem_nil
  | cons receiver receivers ih =>
    rw [broadcastTo] at h
    split at h
    · exact absurd (show (-1 : ℤ) = 0 from h) (by decide)
    · rename_i sent n heq
      intro r hr
      rcases List.mem_cons.1 hr with rfl | hr
      · rw [SendFails, heq]
        exact Option.some_ne_none _
      · exact ih h r hr

/-- When no send fails, every receiver gets the whole frame. -/
theorem broadcastTo_eq {env : Env} (hsend : ∀ fd call, (env.send fd call).Accepted) (msg : Message)
    (sendBuf : Bytes) (receivers : List Fd) :
    broadcastTo env msg sendBuf sendBuf.length receivers =
      (receivers.map fun receiver => .write receiver msg sendBuf sendBuf, 0) :=
  broadcastTo_of_not_fails msg fun receiver _ => not_sendFails (hsend receiver) sendBuf

/-- A user outside every room gets a reply, whatever it sent. -/
theorem handleChatMessage_outside (env : Env) (rooms : RoomArray) (buf : Bytes) {user : User}
    (hroom : user.room = invalidRoom) :
    ∃ outs, handleChatMessage env buf user rooms = .ok (outs, 0) ∧
      Replies env user.id notInRoomReply outs := by
  have htext : format notInRoomReply [] = .ok notInRoomReply := rfl
  obtain ⟨outs, hsend, hrep⟩ := sendReplyMessage_spec env user.id htext (by decide) (by decide)
  refine ⟨outs, ?_, hrep⟩
  rw [handleChatMessage, if_pos hroom, hsend]
  rfl

/-- A chat message that decodes to a terminated text goes to the members of the room, with the
server's time and the stored name. -/
theorem handleChatMessage_inside (env : Env) {rooms : RoomArray} {table : UserTable}
    (h : Agree rooms table) {user : User} (hu : user ∈ table.users) (hname : Terminated user.name)
    (hroom : user.room ≠ invalidRoom) {buf : Bytes} {msg : ChatMessage}
    (hdecode : chatMessageDeserialize env.host buf env.locals.chat = .ok msg)
    (htext : Terminated msg.text) :
    ∃ (out : ChatMessage) (i : ℕ) (room : Room), (Message.chat out).Terminated ∧
      (Message.chat out).content = .chat env.clock (cstr user.name.toList) (cstr msg.text.toList) ∧
      rooms.rooms[i]? = some room ∧ room.id = user.room ∧
      handleChatMessage env buf user rooms =
        .ok (if env.heap.serves ((Message.chat out).content.frame env.host).length then
          broadcastTo env (.chat out) ((Message.chat out).content.frame env.host)
            ((Message.chat out).content.frame env.host).length room.members
        else ([], -1)) := by
  obtain ⟨name, hcopy, hnameTerm, hnameCstr⟩ := strcpy_of_lt msg.name hname (length_cstr_lt hname)
  obtain ⟨i, room, hget, hi, hread, hid⟩ := h.getRoom hroom (h.room_le user hu)
  have hout : (Message.chat ⟨env.clock, name, msg.text⟩).Terminated := ⟨hnameTerm, htext⟩
  have hser := serialize_eq env.host env.heap _ hout
  refine ⟨⟨env.clock, name, msg.text⟩, i, room, hout, ?_, hi, hid, ?_⟩
  · rw [Message.content, hnameCstr]
  · change chatMessageSerialize env.host env.heap _ = _ at hser
    rw [handleChatMessage, if_neg hroom, hdecode, Checked.ok_bind]
    dsimp only
    rw [hcopy, Checked.ok_bind, hser, Checked.ok_bind]
    generalize (Message.chat ⟨env.clock, name, msg.text⟩).content.frame env.host = sendBuf
    by_cases hserves : env.heap.serves sendBuf.length = true
    · rw [if_pos hserves, if_pos hserves]
      dsimp only
      rw [hget]
      dsimp only
      rw [hread, Checked.ok_bind, broadcast_eq env _ _ _ (h.numUsers_le hi) (Nat.zero_add _),
        List.drop_zero]
    · rw [if_neg hserves, if_neg hserves]
      rfl

/-- However a chat message is handled, its frame goes to the members of the sender's room, or a reply to the
sender. -/
theorem mem_handleChatMessage {env : Env} {rooms : RoomArray} {table : UserTable} (h : Agree rooms table)
    {user : User} (hu : user ∈ table.users) {buf : Bytes} {outs : List Output} {status : ℤ}
    (handled : handleChatMessage env buf user rooms = .ok (outs, status)) {fd : Fd} {msg : Message}
    {sendBuf sent : Bytes} (hout : .write fd msg sendBuf sent ∈ outs) :
    (fd = user.id ∧ ∃ reply, msg = .reply reply) ∨
      (∃ chat, msg = .chat chat) ∧ user.room ≠ invalidRoom ∧ fd ∈ table.inRoom user.room := by
  unfold handleChatMessage at handled
  split at handled
  · obtain ⟨outs', hsend, handled⟩ := Checked.bind_eq_ok.1 handled
    cases handled
    rcases mem_sendReplyMessage hsend hout with hreply | ⟨reply, _, _, hreply⟩
    · cases hreply
    · cases hreply
      exact .inl ⟨rfl, reply, rfl⟩
  · rename_i hroom
    right
    obtain ⟨i, room, hget, hi, hread, hid⟩ := h.getRoom hroom (h.room_le user hu)
    obtain ⟨decoded, -, handled⟩ := Checked.bind_eq_ok.1 handled
    obtain ⟨name, -, handled⟩ := Checked.bind_eq_ok.1 handled
    obtain ⟨serialized, -, handled⟩ := Checked.bind_eq_ok.1 handled
    cases serialized with
    | none => cases handled; cases hout
    | some frame =>
      rw [hget] at handled
      dsimp only at handled
      rw [hread, Checked.ok_bind, broadcast_eq env _ _ _ (h.numUsers_le hi) (Nat.zero_add _),
        List.drop_zero, Except.ok.injEq] at handled
      rw [show outs = _ from congrArg Prod.fst handled.symm] at hout
      obtain ⟨receiver, hreceiver, hwrite⟩ := mem_broadcastTo hout
      cases hwrite
      rw [← hid]
      exact ⟨⟨_, rfl⟩, hid ▸ hroom, (h.members hi).mem_iff.1 hreceiver⟩

/-- What a chat message from a client's serializer is turned into: a user outside every room gets a
reply, and otherwise the frame goes to the members of the room. -/
theorem handleChatMessage_spec (env : Env) {rooms : RoomArray} {table : UserTable}
    (h : Agree rooms table) {user : User} (hu : user ∈ table.users) (hname : Terminated user.name)
    {msg : ChatMessage} (hterm : (Message.chat msg).Terminated) :
    (user.room = invalidRoom → ∃ outs,
      handleChatMessage env ((Message.chat msg).content.frame env.host) user rooms = .ok (outs, 0) ∧
        Replies env user.id notInRoomReply outs) ∧
    (user.room ≠ invalidRoom → ∃ (out : ChatMessage) (i : ℕ) (room : Room),
      (Message.chat out).Terminated ∧
        (Message.chat out).content =
          .chat env.clock (cstr user.name.toList) (cstr msg.text.toList) ∧
        rooms.rooms[i]? = some room ∧ room.id = user.room ∧
        handleChatMessage env ((Message.chat msg).content.frame env.host) user rooms =
          .ok (if env.heap.serves ((Message.chat out).content.frame env.host).length then
            broadcastTo env (.chat out) ((Message.chat out).content.frame env.host)
              ((Message.chat out).content.frame env.host).length room.members
          else ([], -1))) := by
  refine ⟨handleChatMessage_outside env rooms _, fun hroom => ?_⟩
  have hfits := hterm.fits
  obtain ⟨m, hdecode, -, -, htext, hcstr⟩ := chatMessageDeserialize_frame env.host
    (msg.timestamp.toNat % 2 ^ 32) env.locals.chat (by omega) hfits.1.1 hfits.1.2 hfits.2.1 hfits.2.2
  rw [← hcstr]
  exact handleChatMessage_inside env h hu hname hroom hdecode htext

/-! ## Name messages -/

/-- A stored name fits the reply about it. -/
theorem format_name {v : CArray UInt8 nameSizeLimit} (hterm : Terminated v) :
    format nameReply [.str v.toList] = .ok (ascii "set name to " ++ cstr v.toList) ∧
      0 ∉ ascii "set name to " ++ cstr v.toList ∧
      (ascii "set name to " ++ cstr v.toList).length < replySizeLimit := by
  refine ⟨?_, ?_, ?_⟩
  · have hlit : nameReply = ascii "set name to " ++ [37, 115] := rfl
    have hnul : 0 ∈ v.toList := hterm
    rw [hlit]
    simp [format, ascii, hnul]
  · exact List.not_mem_append (by decide) (nul_notMem_cstr _)
  · have hlen : (ascii "set name to ").length = 12 := rfl
    have hlt : (cstr v.toList).length < 50 := length_cstr_lt hterm
    rw [List.length_append, hlen]
    show _ < 100
    omega

/-- A name that decodes to a terminated string is stored, and the sender is told. -/
theorem handleNameMessage_decoded (env : Env) (user : User) {buf : Bytes} {msg : NameMessage}
    (hdecode : nameMessageDeserialize buf env.locals.name = .ok msg) (hterm : Terminated msg.name) :
    ∃ name outs, handleNameMessage env buf user = .ok ({ user with name }, outs) ∧ Terminated name ∧
      cstr name.toList = cstr msg.name.toList ∧
      Replies env user.id (ascii "set name to " ++ cstr msg.name.toList) outs := by
  obtain ⟨name, hcopy, hname, hcstr⟩ := strcpy_of_lt user.name hterm (length_cstr_lt hterm)
  obtain ⟨htext, h0, hlt⟩ := format_name hterm
  obtain ⟨outs, hsend, hrep⟩ := sendReplyMessage_spec env user.id htext h0 hlt
  refine ⟨name, outs, ?_, hname, hcstr, hrep⟩
  simp only [handleNameMessage, hdecode, Checked.ok_bind, Checked.pure_eq_ok, hcopy, hsend]

/-- A name from a client's serializer is stored. -/
theorem handleNameMessage_spec (env : Env) (user : User) {msg : NameMessage}
    (hterm : (Message.name msg).Terminated) :
    ∃ name outs, handleNameMessage env ((Message.name msg).content.frame env.host) user =
        .ok ({ user with name }, outs) ∧ Terminated name ∧
      cstr name.toList = cstr msg.name.toList ∧
      Replies env user.id (ascii "set name to " ++ cstr msg.name.toList) outs := by
  have hfits := hterm.fits
  obtain ⟨v, hdecode, hv, hcstr⟩ := stringMessageDeserialize_frame .name env.locals.name.name
    (by decide) hfits.1 hfits.2
  have hname : nameMessageDeserialize ((Message.name msg).content.frame env.host) env.locals.name =
      .ok ⟨v⟩ := by
    change nameMessageDeserialize (frame .name (stringBody _)) _ = _
    simp only [nameMessageDeserialize, hdecode, Checked.ok_bind, Checked.pure_eq_ok]
  rw [← hcstr]
  exact handleNameMessage_decoded env user hname hv

/-! ## Join messages -/

/-- Writing one room leaves the cells of the rooms with other ids. -/
theorem RoomArray.write_of_id_ne {rooms : RoomArray} (left : RoomArray) {i j : ℕ} {room other : Room}
    (hi : rooms.rooms[i]? = some room) (hj : rooms.rooms[j]? = some other) (hne : other.id ≠ room.id)
    (room' : Room) : (left.write i room').rooms[j]? = left.rooms[j]? := by
  apply List.getElem?_set_ne
  rintro rfl
  rw [hi, Option.some.injEq] at hj
  exact hne (congrArg Room.id hj.symm)

/-- A reply about a room is short enough to be sent whole. -/
theorem sendReplyMessage_room (env : Env) (client : Fd) {fmt : Bytes} (hfmt : fmt ∈ joinFormats) (n : UInt8) :
    ∃ outs, sendReplyMessage env client fmt [.int n.toNat] = .ok outs ∧
      Replies env client (roomText fmt n) outs := by
  obtain ⟨htext, h0, hlt⟩ := format_room hfmt n
  exact sendReplyMessage_spec env client htext h0 hlt

/-- Outside every room a user stays outside; from a room it is removed, and no other room changes. -/
theorem leaveRoom_spec {rooms : RoomArray} {table : UserTable} (h : Agree rooms table) {u : User}
    (hu : u ∈ table.users) :
    ∃ rooms', leaveRoom rooms u = .ok (rooms', { u with room := invalidRoom }) ∧
      Agree rooms' (table.set { u with room := invalidRoom }) ∧
      ∀ {i : ℕ} {room : Room}, rooms.rooms[i]? = some room → room.id ≠ u.room →
        rooms'.rooms[i]? = some room := by
  by_cases hroom : u.room = invalidRoom
  · have hsame : { u with room := invalidRoom } = u := by
      rw [← hroom]
    refine ⟨rooms, ?_, ?_, fun hi _ => hi⟩
    · rw [leaveRoom, if_neg (not_not.2 hroom), hsame]
      rfl
    · rwa [hsame, UserTable.set_self hu]
  · obtain ⟨i, room, room', hget, hi, hid, hremove, -, -, hagree⟩ := h.leave hu hroom
    refine ⟨rooms.write i room', ?_, hagree, fun {j r} hj hne => ?_⟩
    · rw [leaveRoom, if_pos hroom, hget]
      dsimp only
      rw [hremove]
      rfl
    · exact (RoomArray.write_of_id_ne rooms hi hj (hid.symm ▸ hne) room').trans hj

/-- What a join message for room `n` does to the record of the user that sent it, and which reply it
gets. -/
inductive JoinOutcome (rooms : RoomArray) (user : User) (n : UInt8) : User → Bytes → Prop
  | missing (absent : n = 0 ∨ numRooms < n.toNat) : JoinOutcome rooms user n user missingRoomReply
  | already (exists_ : n ≠ 0 ∧ n.toNat ≤ numRooms) (inside : user.room = n) :
      JoinOutcome rooms user n user alreadyInReply
  | full (exists_ : n ≠ 0 ∧ n.toNat ≤ numRooms) (outside : user.room ≠ n) {i : ℕ} {room : Room}
      (cell : rooms.rooms[i]? = some room) (id : room.id = n) (full : room.numUsers = maxUsersPerRoom) :
      JoinOutcome rooms user n { user with room := invalidRoom } fullRoomReply
  | joined (exists_ : n ≠ 0 ∧ n.toNat ≤ numRooms) (outside : user.room ≠ n) {i : ℕ} {room : Room}
      (cell : rooms.rooms[i]? = some room) (id : room.id = n) (free : room.numUsers < maxUsersPerRoom) :
      JoinOutcome rooms user n { user with room := n } joinedReply

theorem JoinOutcome.keeps {rooms : RoomArray} {user user' : User} {n : UInt8} {fmt : Bytes}
    (h : JoinOutcome rooms user n user' fmt) :
    user'.id = user.id ∧ user'.name = user.name ∧ fmt ∈ joinFormats := by
  cases h <;> exact ⟨rfl, rfl, by simp [joinFormats]⟩

/-- Whether the user's room changes or not, no other room does; and when it does not, no room does. -/
def RoomsKept (rooms rooms' : RoomArray) (user user' : User) : Prop :=
  ∀ {i : ℕ} {room : Room}, rooms.rooms[i]? = some room →
    user'.room = user.room ∨ room.id ≠ user.room ∧ room.id ≠ user'.room → rooms'.rooms[i]? = some room

/-- A join message sends the reply of its outcome, and changes no room but the one the user leaves and the
one it enters. -/
theorem handleJoinMessage_effect (env : Env) {rooms : RoomArray} {table : UserTable}
    (h : Agree rooms table) {user : User} (hu : user ∈ table.users) {buf : Bytes} {n : UInt8}
    (hbuf : buf[5]? = some n) :
    ∃ rooms' user' outs fmt, handleJoinMessage env buf rooms user = .ok (rooms', user', outs) ∧
      Agree rooms' (table.set user') ∧ JoinOutcome rooms user n user' fmt ∧
      RoomsKept rooms rooms' user user' ∧
      sendReplyMessage env user.id fmt [.int n.toNat] = .ok outs ∧
      Replies env user.id (roomText fmt n) outs := by
  have hreply (fmt : Bytes) (hfmt : fmt ∈ joinFormats) := sendReplyMessage_room env user.id hfmt n
  have hread : readByte buf (sizeofTotalMsgLen + sizeofMsgType) = .ok n := readByte_eq_ok.2 hbuf
  simp only [handleJoinMessage, joinMessageDeserialize, hread, Checked.ok_bind, Checked.pure_eq_ok]
  by_cases habsent : n = 0 ∨ numRooms < n.toNat
  · obtain ⟨outs, hsend, hrep⟩ := hreply missingRoomReply (by simp [joinFormats])
    refine ⟨rooms, user, outs, missingRoomReply, ?_, ?_, .missing habsent, fun hi _ => hi, hsend, hrep⟩
    · rw [h.getRoom_eq_none.2 habsent]
      dsimp only
      rw [hsend]
      rfl
    · rwa [UserTable.set_self hu]
  rw [not_or, not_lt] at habsent
  obtain ⟨i, room, hget, hi, hroom, hid⟩ := h.getRoom habsent.1 habsent.2
  simp only [hget, hroom, Checked.ok_bind, hid]
  by_cases hin : user.room = n
  · obtain ⟨outs, hsend, hrep⟩ := hreply alreadyInReply (by simp [joinFormats])
    refine ⟨rooms, user, outs, alreadyInReply, ?_, ?_, .already habsent hin, fun hi _ => hi, hsend, hrep⟩
    · rw [if_pos hin, hsend]
      rfl
    · rwa [UserTable.set_self hu]
  -- The user leaves its room before it is known whether the new one has a free cell.
  obtain ⟨left, hleave, hagree, hkeep⟩ := leaveRoom_spec h hu
  have hcell : left.rooms[i]? = some room := hkeep hi (by rw [hid]; exact Ne.symm hin)
  have hmem : { user with room := invalidRoom } ∈
      (table.set { user with room := invalidRoom }).users := UserTable.mem_set_self hu rfl
  rw [if_neg hin, hleave, Checked.ok_bind]
  dsimp only
  by_cases hfree : room.numUsers < maxUsersPerRoom
  · obtain ⟨room', hadd, -, -, hentered⟩ := hagree.enter hmem rfl hcell hfree
    obtain ⟨outs, hsend, hrep⟩ := hreply joinedReply (by simp [joinFormats])
    refine ⟨left.write i room', { user with room := n }, outs, joinedReply, ?_, ?_,
      .joined habsent hin hi hid hfree, ?_, hsend, hrep⟩
    · rw [hadd, Checked.ok_bind]
      dsimp only
      rw [hsend, hid]
      rfl
    · rw [hid] at hentered
      rwa [← UserTable.set_set table { user with room := invalidRoom } { user with room := n } rfl]
    · intro j other hj hother
      have hne := hother.resolve_left (Ne.symm hin)
      exact (RoomArray.write_of_id_ne left hi hj (hid.symm ▸ hne.2) room').trans (hkeep hj hne.1)
  · have hfull : room.numUsers = maxUsersPerRoom :=
      le_antisymm (h.numUsers_le hi) (not_lt.1 hfree)
    obtain ⟨outs, hsend, hrep⟩ := hreply fullRoomReply (by simp [joinFormats])
    refine ⟨left, { user with room := invalidRoom }, outs, fullRoomReply, ?_, hagree,
      .full habsent hin hi hid hfull, ?_, hsend, hrep⟩
    · rw [RoomArray.addUser, RoomArray.read_eq_ok.2 hcell, Checked.ok_bind, roomAddUser_eq_none hfull]
      simp only [Checked.ok_bind, Checked.pure_eq_ok, Option.map_none, hsend]
    · intro j other hj hother
      apply hkeep hj
      intro he
      rcases hother with hsame | hne
      · -- A user that was in no room leaves none.
        have hid0 := h.id hj
        rw [he, ← hsame] at hid0
        exact absurd hid0 (by simp)
      · exact hne.1 he

theorem handleJoinMessage_spec (env : Env) {rooms : RoomArray} {table : UserTable}
    (h : Agree rooms table) {user : User} (hu : user ∈ table.users) {buf : Bytes} {n : UInt8}
    (hbuf : buf[5]? = some n) :
    ∃ rooms' user' outs fmt, handleJoinMessage env buf rooms user = .ok (rooms', user', outs) ∧
      Agree rooms' (table.set user') ∧ JoinOutcome rooms user n user' fmt ∧
      Replies env user.id (roomText fmt n) outs := by
  obtain ⟨rooms', user', outs, fmt, hspec, hagree, hout, -, -, hrep⟩ :=
    handleJoinMessage_effect env h hu hbuf
  exact ⟨rooms', user', outs, fmt, hspec, hagree, hout, hrep⟩

end ChatRooms
