import ChatRooms.Chat
import ChatRooms.Framing
import ChatRooms.Lib.Simulation
import ChatRooms.Server.Protocol

/-!
# The server runs a chat

The user table stands for the participants of a chat (`Represents`), and whatever the server does for its clients
is a move of that chat: it writes to every descriptor the frames of what the move shows to its owner.

* `Handled.chatStep`: a request that is handled is the move that it asks for;
* `connected_chatStep` and `terminated_chatStep`: new and lost connections are arrivals and departures;
* `server_runs_chat`: every run of the server on what clients do is a run of the chat, and every further request
  of a client is answered as the chat prescribes.

The descriptors may be given to the participants by any function that tells the connected ones apart.
-/

namespace ChatRooms

/-! ## Participants -/

/-- What the record of a user says. -/
def User.person (u : User) : Person :=
  ⟨cstr u.name.toList, if u.room = invalidRoom then none else some u.room.toNat⟩

theorem User.person_room {u : User} {n : UInt8} (hn : n ≠ 0) : u.person.room = some n.toNat ↔ u.room = n := by
  by_cases hroom : u.room = invalidRoom
  · simp [person, hroom, hn.symm]
  · simp [person, hroom, UInt8.toNat_inj]

/-- The connected users are the participants; `conn` says whose a descriptor is. -/
structure Represents {ι : Type} (conn : Fd → ι) (table : UserTable) (chat : Chat ι) : Prop where
  inj : ∀ u ∈ table.users, ∀ v ∈ table.users, conn u.id = conn v.id → u.id = v.id
  iff : ∀ c p, chat c = some p ↔ ∃ u ∈ table.users, conn u.id = c ∧ u.person = p

namespace Represents

variable {ι : Type} {conn : Fd → ι} {table : UserTable} {chat : Chat ι}

theorem empty (conn : Fd → ι) : Represents conn .empty fun _ => none where
  inj := fun u hu => absurd hu List.not_mem_nil
  iff := by simp [UserTable.empty]

theorem known (h : Represents conn table chat) {u : User} (hu : u ∈ table.users) :
    chat (conn u.id) = some u.person :=
  (h.iff _ _).2 ⟨u, hu, rfl, rfl⟩

theorem eq_none (h : Represents conn table chat) {c : ι} (hc : ∀ u ∈ table.users, conn u.id ≠ c) :
    chat c = none := by
  cases hp : chat c with
  | none => rfl
  | some p =>
    obtain ⟨u, hu, hid, -⟩ := (h.iff c p).1 hp
    exact absurd hid (hc u hu)

theorem mem_inRoom (h : Represents conn table chat) {n : UInt8} (hn : n ≠ 0) (c : ι) :
    c ∈ chat.inRoom n.toNat ↔ c ∈ (table.inRoom n).map conn := by
  simp only [Chat.inRoom, Chat.roomOf, Set.mem_ofPred_eq, Option.bind_eq_some_iff, List.mem_map,
    UserTable.mem_inRoom]
  constructor
  · rintro ⟨p, hp, hroom⟩
    obtain ⟨u, hu, hid, rfl⟩ := (h.iff c p).1 hp
    exact ⟨u.id, ⟨u, hu, rfl, (User.person_room hn).1 hroom⟩, hid⟩
  · rintro ⟨_, ⟨u, hu, rfl, hroom⟩, rfl⟩
    exact ⟨u.person, h.known hu, (User.person_room hn).2 hroom⟩

/-- The descriptors in a room belong to different participants. -/
theorem nodup_inRoom (h : Represents conn table chat) (n : UInt8) : ((table.inRoom n).map conn).Nodup := by
  apply List.Nodup.map_on _ (table.nodup_inRoom n)
  intro x hx y hy hxy
  obtain ⟨u, hu, rfl, -⟩ := UserTable.mem_inRoom.1 hx
  obtain ⟨v, hv, rfl, -⟩ := UserTable.mem_inRoom.1 hy
  exact h.inj u hu v hv hxy

theorem encard_inRoom [DecidableEq ι] (h : Represents conn table chat) {n : UInt8} (hn : n ≠ 0) :
    (chat.inRoom n.toNat).encard = (table.inRoom n).length := by
  have hset : chat.inRoom n.toNat = ((table.inRoom n).map conn).toFinset := by
    ext c
    rw [h.mem_inRoom hn, Finset.mem_coe, List.mem_toFinset]
  rw [hset, Set.encard_coe_eq_coe_finsetCard, List.toFinset_card_of_nodup (h.nodup_inRoom n), List.length_map]

section Edits

variable [DecidableEq ι]

/-- The record of a user changes. -/
theorem set (h : Represents conn table chat) {u v : User} (hu : u ∈ table.users) (hid : v.id = u.id) :
    Represents conn (table.set v) (Function.update chat (conn u.id) (some v.person)) where
  inj := by
    have hsame : ∀ w ∈ (table.set v).users, ∃ w' ∈ table.users, w'.id = w.id := by
      intro w hw
      rcases UserTable.mem_set.1 hw with ⟨rfl, -⟩ | ⟨hw, -⟩
      · exact ⟨u, hu, hid.symm⟩
      · exact ⟨w, hw, rfl⟩
    intro x hx y hy hxy
    obtain ⟨x', hx', hxid⟩ := hsame x hx
    obtain ⟨y', hy', hyid⟩ := hsame y hy
    rw [← hxid, ← hyid] at hxy ⊢
    exact h.inj x' hx' y' hy' hxy
  iff := by
    intro c p
    by_cases hc : c = conn u.id
    · subst hc
      rw [Function.update_self, Option.some.injEq]
      constructor
      · rintro rfl
        exact ⟨v, UserTable.mem_set_self hu hid, by rw [hid], rfl⟩
      · rintro ⟨w, hw, hwc, rfl⟩
        rcases UserTable.mem_set.1 hw with ⟨rfl, -⟩ | ⟨hw, hne⟩
        · rfl
        · exact absurd ((h.inj w hw u hu hwc).trans hid.symm) hne
    · rw [Function.update_of_ne hc, h.iff]
      constructor
      · rintro ⟨w, hw, rfl, hp⟩
        refine ⟨w, UserTable.mem_set.2 (.inr ⟨hw, fun he => hc ?_⟩), rfl, hp⟩
        rw [he, hid]
      · rintro ⟨w, hw, rfl, hp⟩
        rcases UserTable.mem_set.1 hw with ⟨rfl, -⟩ | ⟨hw, -⟩
        · exact absurd (by rw [hid]) hc
        · exact ⟨w, hw, rfl, hp⟩

/-- A descriptor that nobody has is given to a new participant. -/
theorem add (h : Represents conn table chat) {heap : Heap} {fd : Fd} {table' : UserTable} {conn' : Fd → ι}
    (hadd : userTableAdd heap table fd = .ok (some table')) (hold : ∀ u ∈ table.users, conn' u.id = conn u.id)
    (hnew : ∀ u ∈ table.users, conn u.id ≠ conn' fd) :
    Represents conn' table' (Function.update chat (conn' fd) (some ⟨anonymous, none⟩)) := by
  obtain ⟨-, name, -, hname, husers⟩ := userTableAdd_eq_some hadd
  have hmem : ∀ w, w ∈ table'.users ↔ w ∈ table.users ∨ w = ⟨fd, invalidRoom, name⟩ := by
    intro w
    rw [husers, List.mem_append, List.mem_singleton]
  constructor
  · intro x hx y hy hxy
    rcases (hmem x).1 hx with hx | rfl
    · rcases (hmem y).1 hy with hy | rfl
      · rw [hold x hx, hold y hy] at hxy
        exact h.inj x hx y hy hxy
      · rw [hold x hx] at hxy
        exact absurd hxy (hnew x hx)
    · rcases (hmem y).1 hy with hy | rfl
      · rw [hold y hy] at hxy
        exact absurd hxy.symm (hnew y hy)
      · rfl
  · intro c p
    by_cases hc : c = conn' fd
    · subst hc
      rw [Function.update_self, Option.some.injEq]
      constructor
      · rintro rfl
        exact ⟨_, (hmem _).2 (.inr rfl), rfl, by simp [User.person, hname]⟩
      · rintro ⟨w, hw, hwc, rfl⟩
        rcases (hmem w).1 hw with hw | rfl
        · rw [hold w hw] at hwc
          exact absurd hwc (hnew w hw)
        · simp [User.person, hname]
    · rw [Function.update_of_ne hc, h.iff]
      constructor
      · rintro ⟨w, hw, hwc, hp⟩
        exact ⟨w, (hmem w).2 (.inl hw), by rw [hold w hw, hwc], hp⟩
      · rintro ⟨w, hw, hwc, hp⟩
        rcases (hmem w).1 hw with hw | rfl
        · exact ⟨w, hw, by rw [← hold w hw, hwc], hp⟩
        · exact absurd hwc.symm hc

/-- A user is deleted. -/
theorem delete (h : Represents conn table chat) {client : Fd} (hmem : client ∈ table.ids) {table' : UserTable}
    (hrest : ∀ v, v ∈ table'.users ↔ v ∈ table.users ∧ v.id ≠ client) :
    Represents conn table' (Function.update chat (conn client) none) where
  inj := fun x hx y hy hxy => h.inj x ((hrest x).1 hx).1 y ((hrest y).1 hy).1 hxy
  iff := by
    obtain ⟨u, hu, rfl⟩ := List.mem_map.1 hmem
    intro c p
    by_cases hc : c = conn u.id
    · subst hc
      rw [Function.update_self]
      constructor
      · intro hp
        cases hp
      · rintro ⟨w, hw, hwc, -⟩
        obtain ⟨hw, hne⟩ := (hrest w).1 hw
        exact absurd (h.inj w hw u hu hwc) hne
    · rw [Function.update_of_ne hc, h.iff]
      constructor
      · rintro ⟨w, hw, rfl, hp⟩
        exact ⟨w, (hrest w).2 ⟨hw, fun he => hc (by rw [he])⟩, rfl, hp⟩
      · rintro ⟨w, hw, hwc, hp⟩
        exact ⟨w, ((hrest w).1 hw).1, hwc, hp⟩

end Edits

end Represents

/-! ## What is written -/

/-- The message that shows something. -/
def Printed.content : Printed → Content
  | .chat timestamp name text => .chat timestamp name text
  | .reply text => .reply text

/-- The frame of the message that shows something. -/
def Printed.frame (host : ByteOrder) (p : Printed) : Bytes := p.content.frame host

/-- What was written to the descriptors of a participant, one write after another. -/
def sentTo {ι : Type} [DecidableEq ι] (conn : Fd → ι) (c : ι) (outs : List Output) : List Bytes :=
  outs.filterMap fun out => match out with
    | .write fd _ _ sent => if conn fd = c then some sent else none
    | _ => none

/-- The memory serves every block below 64 KiB, and the kernel takes what is sent. -/
structure Serving (env : Env) : Prop where
  heap : ∀ n, 0 < n → n < 2 ^ 16 → env.heap.serves n = true
  send : ∀ fd call, (env.send fd call).Accepted

/-- A frame is no larger than that. -/
theorem Serving.serves_frame {env : Env} (serving : Serving env) {msg : Message} (hterm : msg.Terminated) :
    env.heap.serves (msg.content.frame env.host).length = true := by
  have hbody := length_body_le env.host hterm.fits
  apply serving.heap _ (length_frame_pos env.host _)
  rw [Content.frame, length_frame]
  omega

/-- With memory a reply is sent. -/
theorem sendReplyMessage_ne_nil {env : Env} (serving : Serving env) {client : Fd} {fmt : Bytes}
    {args : List FormatArg} {outs : List Output} (h : sendReplyMessage env client fmt args = .ok outs) :
    outs ≠ [] := by
  obtain ⟨⟨total, len⟩, -, h⟩ := Checked.bind_eq_ok.1 h
  obtain ⟨reply, hcopy, h⟩ := Checked.bind_eq_ok.1 h
  obtain ⟨serialized, hser, h⟩ := Checked.bind_eq_ok.1 h
  have hterm : (Message.reply ⟨reply⟩).Terminated :=
    (cstr_of_toList_eq (nul_notMem_cstr _) (strcpy_eq_ok.1 hcopy).2.2).1
  have hall := serialize_eq env.host env.heap (.reply ⟨reply⟩) hterm
  rw [if_pos (serving.serves_frame hterm)] at hall
  obtain rfl := Except.ok.inj (hser.symm.trans hall)
  cases h
  simp

/-- A message that is handled is answered, unless it is a chat message of a user in a room. -/
theorem answered {env : Env} (serving : Serving env) {client : Fd} {buf : Bytes} {n : ℕ}
    {s s' : Server} {outs : List Output} {status : ℤ} (h : Agree s.rooms s.userTable) {user : User}
    (hfind : userTableFind s.userTable client = some user)
    (handled : handleClientMessage env client (.message buf n) s = .ok (some (s', outs, status)))
    (success : status ≠ -1) : outs ≠ [] ∨ getMessageType buf = .ok .chat ∧ user.room ≠ invalidRoom := by
  rcases handleClientMessage_dispatched handled with ⟨-, -, hstatus⟩ | ⟨user', hfind', hdispatched⟩
  · exact absurd hstatus success
  obtain rfl := Option.some.inj (hfind.symm.trans hfind')
  cases hdispatched with
  | chat type hchat =>
    by_cases hroom : user.room = invalidRoom
    · rw [handleChatMessage, if_pos hroom] at hchat
      obtain ⟨outs', hsend, hchat⟩ := Checked.bind_eq_ok.1 hchat
      cases hchat
      exact .inl (sendReplyMessage_ne_nil serving hsend)
    · exact .inr ⟨type, hroom⟩
  | join type hjoin =>
    obtain ⟨roomId, hroomId⟩ := exists_roomId hjoin
    obtain ⟨rooms', user', outs', fmt, hspec, -, -, -, hsend, -⟩ :=
      handleJoinMessage_effect env h (userTableFind_eq_some.1 hfind).1 hroomId
    obtain rfl : outs = outs' := congrArg (fun r => r.2.2) (Except.ok.inj (hjoin.symm.trans hspec))
    exact .inl (sendReplyMessage_ne_nil serving hsend)
  | name type hname =>
    obtain ⟨-, -, -, args, hsend⟩ := handleNameMessage_eq_ok hname
    exact .inl (sendReplyMessage_ne_nil serving hsend)
  | invalid => exact absurd rfl success

/-- A reply that is sent whole is a frame for who asked, and for nobody else. -/
theorem Replies.sentTo_eq {ι : Type} [DecidableEq ι] {env : Env} (serving : Serving env) {client : Fd}
    {text : Bytes} {outs : List Output} (h : Replies env client text outs) (hne : outs ≠ []) (conn : Fd → ι) :
    (Content.reply text).Fits ∧
      ∀ c, sentTo conn c outs = (replyTo (conn client) text c).map (Printed.frame env.host) := by
  rcases h with rfl | ⟨msg, hterm, hstr, rfl⟩
  · exact absurd rfl hne
  · have hfits : (Message.reply msg).content.Fits := Message.Terminated.fits hterm
    rw [Message.content, hstr] at hfits
    refine ⟨hfits, fun c => ?_⟩
    rw [sendall_of_accepted (serving.send client)]
    by_cases hc : c = conn client
    · simp [sentTo, replyTo, hc, Printed.frame, Printed.content]
    · simp [sentTo, replyTo, hc, Ne.symm hc]

/-- A broadcast is a frame for each participant in the room. -/
theorem sentTo_broadcast {ι : Type} [DecidableEq ι] (conn : Fd → ι) (c : ι) (msg : Message) (sendBuf : Bytes)
    (receivers : List Fd) :
    sentTo conn c (receivers.map fun receiver => .write receiver msg sendBuf sendBuf) =
      List.replicate ((receivers.map conn).count c) sendBuf := by
  induction receivers with
  | nil => rfl
  | cons receiver receivers ih =>
    have hcons : sentTo conn c (.write receiver msg sendBuf sendBuf ::
        receivers.map fun receiver => .write receiver msg sendBuf sendBuf) =
          (if conn receiver = c then [sendBuf] else []) ++
            sentTo conn c (receivers.map fun receiver => .write receiver msg sendBuf sendBuf) := by
      by_cases hr : conn receiver = c <;> simp [sentTo, hr]
    rw [List.map_cons, List.map_cons, List.count_cons, hcons, ih]
    by_cases hr : conn receiver = c
    · simp [hr, List.replicate_succ]
    · simp [hr]

/-! ## Requests -/

/-- What a message asks for. -/
def Message.request? : Message → Option ChatRequest
  | .chat msg => some (.say (cstr msg.text.toList))
  | .name msg => some (.name (cstr msg.name.toList))
  | .join msg => some (.join msg.roomId.toNat)
  | .reply _ => none

/-- The frames for a participant are those of what is shown to it, and they decode to it; `now` is the time in
the chat messages among them. -/
def Shows {ι : Type} [DecidableEq ι] (conn : Fd → ι) (host : ByteOrder) (now : Timestamp) (outs : List Output)
    (shown : ι → List Printed) : Prop :=
  ∀ c, sentTo conn c outs = (shown c).map (Printed.frame host) ∧
    ∀ p ∈ shown c, p.content.Fits ∧ (0 ≤ now.toInt ∧ now.toInt < 2 ^ 32 → p.content.TimestampFits)

theorem Replies.shows {ι : Type} [DecidableEq ι] {env : Env} (serving : Serving env) {client : Fd} {text : Bytes}
    {outs : List Output} (h : Replies env client text outs) (hne : outs ≠ []) (conn : Fd → ι) :
    Shows conn env.host env.clock outs (replyTo (conn client) text) := by
  obtain ⟨hfits, hsent⟩ := h.sentTo_eq serving hne conn
  refine fun c => ⟨hsent c, fun p hp => ?_⟩
  obtain rfl : p = .reply text := by
    unfold replyTo at hp
    split at hp
    · exact List.mem_singleton.1 hp
    · cases hp
  exact ⟨hfits, fun _ => trivial⟩

section Requests

variable {ι : Type} [DecidableEq ι] {conn : Fd → ι} {env : Env} {s s' : Server} {user : User} {chat : Chat ι}

/-- What a broadcast writes is shown in the room of its sender. -/
theorem shows_broadcast (serving : Serving env) (hagree : Agree s.rooms s.userTable)
    (hrep : Represents conn s.userTable chat) {out : ChatMessage} (term : (Message.chat out).Terminated)
    {name text : Bytes} (content : (Message.chat out).content = .chat env.clock name text) {i : ℕ} {room : Room}
    (cell : s.rooms.rooms[i]? = some room) (inside : room.id ≠ invalidRoom) {outs : List Output} {status : ℤ}
    (sent : (outs, status) = broadcastTo env (.chat out) ((Message.chat out).content.frame env.host)
      ((Message.chat out).content.frame env.host).length room.members) :
    Shows conn env.host env.clock outs (chat.shownIn room.id.toNat (.chat env.clock name text)) := by
  have hfits := term.fits
  rw [broadcastTo_eq serving.send, Prod.mk.injEq, content] at sent
  rw [content] at hfits
  intro c
  constructor
  · have hcount : (room.members.map conn).count c = ((s.userTable.inRoom room.id).map conn).count c :=
      ((hagree.members cell).map conn).count_eq c
    have hmem : chat.roomOf c = some room.id.toNat ↔ c ∈ (s.userTable.inRoom room.id).map conn :=
      hrep.mem_inRoom inside c
    rw [sent.1, sentTo_broadcast, hcount, Chat.shownIn]
    by_cases hc : chat.roomOf c = some room.id.toNat
    · rw [if_pos hc, List.count_eq_one_of_mem (hrep.nodup_inRoom _) (hmem.1 hc)]
      rfl
    · rw [if_neg hc, List.count_eq_zero_of_not_mem fun h => hc (hmem.2 h)]
      rfl
  · intro p hp
    obtain rfl : p = .chat env.clock name text := by
      unfold Chat.shownIn at hp
      split at hp
      · exact List.mem_singleton.1 hp
      · cases hp
    exact ⟨hfits, fun hnow => hnow⟩

/-- The number of users of a room is the number of participants in it. -/
theorem encard_room (hagree : Agree s.rooms s.userTable) (hrep : Represents conn s.userTable chat) {i : ℕ}
    {room : Room} (cell : s.rooms.rooms[i]? = some room) (hid : room.id ≠ 0) :
    (chat.inRoom room.id.toNat).encard = room.numUsers := by
  rw [hrep.encard_inRoom hid, ← (hagree.members cell).length_eq, length_members (hagree.numUsers_le cell)]

/-- A join that has an outcome is the move of the chat with this outcome. -/
theorem JoinOutcome.chatStep {n : UInt8} {user' : User} {fmt : Bytes} (hagree : Agree s.rooms s.userTable)
    (hrep : Represents conn s.userTable chat) (hu : user ∈ s.userTable.users)
    (h : JoinOutcome s.rooms user n user' fmt) (now : Timestamp) :
    ∃ chat', ChatStep numRooms maxUsersPerRoom chat (.request (conn user.id) (.join n.toNat) now)
        (replyTo (conn user.id) (roomText fmt n)) chat' ∧
      Represents conn (s.userTable.set user') chat' := by
  have known := hrep.known hu
  have hpos : n ≠ 0 → 0 < n.toNat := by
    intro hn
    exact Nat.pos_of_ne_zero fun he => hn (UInt8.toNat_inj.1 he)
  cases h with
  | missing absent =>
    rw [roomText_of_format (format_missingRoomReply n), UserTable.set_self hu]
    refine ⟨chat, .missing _ _ _ known (absent.imp (fun hn => ?_) id), hrep⟩
    rw [hn]
    rfl
  | already exists_ inside =>
    rw [roomText_of_format (format_alreadyInReply n), List.append_nil, UserTable.set_self hu]
    exact ⟨chat, .already _ _ _ known ⟨hpos exists_.1, exists_.2⟩ ((User.person_room exists_.1).2 inside), hrep⟩
  | full exists_ outside cell id full =>
    rw [roomText_of_format (format_fullRoomReply n)]
    have hout : user.person.room ≠ some n.toNat := fun he => outside ((User.person_room exists_.1).1 he)
    refine ⟨_, .full _ _ _ known ⟨hpos exists_.1, exists_.2⟩ hout ?_, hrep.set hu rfl⟩
    rw [← id, encard_room hagree hrep cell (by rw [id]; exact exists_.1), full]
  | joined exists_ outside cell id free =>
    rw [roomText_of_format (format_joinedReply n), List.append_nil]
    have hout : user.person.room ≠ some n.toNat := fun he => outside ((User.person_room exists_.1).1 he)
    have hset := hrep.set hu (v := { user with room := n }) rfl
    have hperson : ({ user with room := n } : User).person = { user.person with room := some n.toNat } := by
      simp [User.person, exists_.1]
    rw [hperson] at hset
    refine ⟨_, .joined _ _ _ known ⟨hpos exists_.1, exists_.2⟩ hout ?_, hset⟩
    rw [← id, encard_room hagree hrep cell (by rw [id]; exact exists_.1)]
    exact_mod_cast free

/-- A request that is handled is the move of the chat that it asks for. -/
theorem Handled.chatStep {msg : Message} {outs : List Output} {status : ℤ}
    (h : Handled env s user msg s' outs status) (serving : Serving env) (hagree : Agree s.rooms s.userTable)
    (hrep : Represents conn s.userTable chat) (hu : user ∈ s.userTable.users) (success : status ≠ -1)
    (hanswered : outs ≠ [] ∨ msg.content.type = .chat ∧ user.room ≠ invalidRoom) {r : ChatRequest}
    (asked : msg.request? = some r) :
    ∃ shown chat', ChatStep numRooms maxUsersPerRoom chat (.request (conn user.id) r env.clock) shown chat' ∧
      Represents conn s'.userTable chat' ∧ Shows conn env.host env.clock outs shown := by
  have known := hrep.known hu
  cases h with
  | outside msg room reply =>
    have hne : outs ≠ [] := hanswered.resolve_right fun hin => hin.2 room
    cases asked
    refine ⟨_, chat, .outside _ _ _ known (by simp [User.person, room]), hrep, reply.shows serving hne conn⟩
  | broadcast msg out inside term content cell id sent =>
    cases asked
    have hshows := shows_broadcast serving hagree hrep term content cell (by rw [id]; exact inside) sent
    rw [id] at hshows
    exact ⟨_, chat, .said _ _ _ known ((User.person_room inside).2 rfl), hrep, hshows⟩
  | noMemory => exact absurd rfl success
  | join msg outcome reply =>
    have hne : outs ≠ [] := hanswered.resolve_right fun hin => by simp [Message.content, Content.type] at hin
    cases asked
    obtain ⟨chat', step, hrep'⟩ := outcome.chatStep hagree hrep hu env.clock
    exact ⟨_, chat', step, hrep', reply.shows serving hne conn⟩
  | @name msg name outs term eq reply =>
    have hne : outs ≠ [] := hanswered.resolve_right fun hin => by simp [Message.content, Content.type] at hin
    cases asked
    have hset := hrep.set hu (v := { user with name }) rfl
    have hperson : ({ user with name } : User).person = { user.person with name := cstr msg.name.toList } := by
      simp [User.person, eq]
    rw [hperson] at hset
    exact ⟨_, _, .name _ _ _ known, hset, reply.shows serving hne conn⟩

/-- A message of a client asks for something. -/
theorem ClientFrame.request {host : ByteOrder} {msg : Message} {buf : Bytes} (h : ClientFrame host msg buf) :
    ∃ r, msg.request? = some r := by
  cases msg with
  | chat msg => exact ⟨_, rfl⟩
  | name msg => exact ⟨_, rfl⟩
  | join msg => exact ⟨_, rfl⟩
  | reply msg => exact absurd rfl h.kind

/-- A message of a client that is handled with success is the move that it asks for. -/
theorem message_chatStep (serving : Serving env) (hagree : Agree s.rooms s.userTable) (hnamed : Named s.userTable)
    (hrep : Represents conn s.userTable chat) {client : Fd} {msg : Message} {buf : Bytes} {n : ℕ}
    {outs : List Output} {status : ℤ} (frame : ClientFrame env.host msg buf)
    (handled : handleClientMessage env client (.message buf n) s = .ok (some (s', outs, status)))
    (success : status ≠ -1) {r : ChatRequest} (asked : msg.request? = some r) :
    ∃ shown chat', ChatStep numRooms maxUsersPerRoom chat (.request (conn client) r env.clock) shown chat' ∧
      Represents conn s'.userTable chat' ∧ Shows conn env.host env.clock outs shown := by
  obtain ⟨user, hfind⟩ := exists_sender handled success
  obtain ⟨hu, rfl⟩ := userTableFind_eq_some.1 hfind
  obtain ⟨s'', outs', status', hspec, hhandled⟩ :=
    handleClientMessage_handled env hagree hfind (hnamed user hu) frame n
  rw [hspec, Except.ok.injEq, Option.some.injEq, Prod.mk.injEq, Prod.mk.injEq] at handled
  obtain ⟨rfl, rfl, rfl⟩ := handled
  apply hhandled.chatStep serving hagree hrep hu success _ asked
  rcases answered serving hagree hfind hspec success with hne | ⟨htype, hroom⟩
  · exact .inl hne
  · rw [frame.eq_frame, Content.frame, getMessageType_frame, Except.ok.injEq] at htype
    exact .inr ⟨htype, hroom⟩

/-- A message of a connected client is handled with success. -/
theorem message_handled (serving : Serving env) (hagree : Agree s.rooms s.userTable) (hnamed : Named s.userTable)
    {client : Fd} (connected : client ∈ s.userTable.ids) {msg : Message} {buf : Bytes}
    (frame : ClientFrame env.host msg buf) (n : ℕ) :
    ∃ s' outs, handleClientMessage env client (.message buf n) s = .ok (some (s', outs, 1)) := by
  obtain ⟨user, hu, rfl⟩ := List.mem_map.1 connected
  have hfind : userTableFind s.userTable user.id = some user := userTableFind_eq_some.2 ⟨hu, rfl⟩
  obtain ⟨s', outs, status, hspec, hhandled⟩ :=
    handleClientMessage_handled env hagree hfind (hnamed user hu) frame n
  cases hhandled with
  | outside msg room reply => exact ⟨_, _, hspec⟩
  | broadcast msg out inside term content cell id sent =>
    rw [broadcastTo_eq serving.send, Prod.mk.injEq] at sent
    rw [sent.2] at hspec
    exact ⟨_, _, hspec⟩
  | noMemory msg =>
    -- There is memory, so the message has been broadcast.
    obtain ⟨houtside, hinside⟩ := handleChatMessage_spec env hagree hu (hnamed user hu) frame.term
    rw [frame.eq_frame, handleClientMessage_frame env hfind] at hspec
    by_cases hroom : user.room = invalidRoom
    · obtain ⟨outs, hchat, -⟩ := houtside hroom
      simp [hchat, Checked.ok_bind] at hspec
    · obtain ⟨out, i, room, hterm, -, -, -, hchat⟩ := hinside hroom
      rw [if_pos (serving.serves_frame hterm), broadcastTo_eq serving.send] at hchat
      simp [hchat, Checked.ok_bind] at hspec
  | join msg outcome reply => exact ⟨_, _, hspec⟩
  | name msg term eq reply => exact ⟨_, _, hspec⟩

/-! ## Connections -/

/-- A new connection is an arrival. -/
theorem connected_chatStep {append : Append} {fd : Fd} (hrep : Represents conn s.userTable chat)
    (handled : handleNewClient append env (some fd) s = .ok (s', 0)) (conn' : Fd → ι)
    (hold : ∀ u ∈ s.userTable.users, conn' u.id = conn u.id)
    (hnew : ∀ u ∈ s.userTable.users, conn u.id ≠ conn' fd) :
    ∃ chat', ChatStep numRooms maxUsersPerRoom chat (.connect (conn' fd)) (fun _ => []) chat' ∧
      Represents conn' s'.userTable chat' := by
  obtain ⟨fd', pollfds, table', hfd, -, hadd, rfl⟩ := handleNewClient_eq_zero handled
  cases hfd
  exact ⟨_, .connect _ (hrep.eq_none hnew), hrep.add hadd hold hnew⟩

/-- A termination is a departure. -/
theorem terminated_chatStep {client : Fd} {i : ℕ} (hagree : Agree s.rooms s.userTable)
    (hrep : Represents conn s.userTable chat)
    (handled : handleClientTermination env client i s = .ok (s', 0)) :
    ∃ chat', ChatStep numRooms maxUsersPerRoom chat (.leave (conn client)) (fun _ => []) chat' ∧
      Represents conn s'.userTable chat' := by
  obtain ⟨-, hmem, rooms', table', rfl, -, hrest⟩ := handleClientTermination_eq_zero hagree handled
  obtain ⟨u, hu, rfl⟩ := List.mem_map.1 hmem
  exact ⟨_, .leave _ (hrep.known hu), hrep.delete hmem hrest⟩

end Requests

/-! ## Runs -/

/-- What a step of the server and its outputs are as moves of the chat; the participants are the descriptors. -/
def Moves (host : ByteOrder) :
    (Env × ClientAction) × List Output → List (ChatEvent Fd × (Fd → List Printed)) → Prop
  | ((_, .connect fd), outs), part => outs = [] ∧ part = [(.connect fd, fun _ => [])]
  | ((_, .disconnect client _), outs), part => outs = [] ∧ part = [(.leave client, fun _ => [])]
  | ((_, .close _), outs), part => outs = [] ∧ part = []
  | ((env, .send client msg), outs), part => ∃ r shown, msg.request? = some r ∧
      part = [(.request client r env.clock, shown)] ∧ Shows id host env.clock outs shown

/-- The server at a moment of a run, as a chat of the descriptors. -/
structure IsChat (s : Server) (chat : Chat Fd) : Prop where
  agree : Agree s.rooms s.userTable
  named : Named s.userTable
  users : Represents id s.userTable chat

/-- What clients do are moves of the chat, when the memory serves and no send fails. -/
theorem ClientStep.simulation (host : ByteOrder) :
    Simulation (fun s input outs s' => ClientStep host s input outs s' ∧ Serving input.1)
      (ChatStep numRooms maxUsersPerRoom) IsChat (Moves host) := by
  rintro s s' chat ⟨env, action⟩ outs h ⟨step, serving⟩
  have hagree := step.agree h.agree
  have hnamed := step.named h.agree h.named
  cases step with
  | connect env fd step =>
    cases step with
    | connect _ _ fresh handled =>
      obtain ⟨fd', pollfds, table', hfd, -, hadd, -⟩ := handleNewClient_eq_zero handled
      cases hfd
      have hnew : ∀ u ∈ s.userTable.users, u.id ≠ fd := by
        intro u hu he
        exact (userTableAdd_eq_some hadd).1 (he ▸ UserTable.mem_ids hu)
      obtain ⟨chat', hmove, hrep⟩ := connected_chatStep h.users handled id (fun _ _ => rfl) hnew
      exact ⟨_, chat', Run.start.turn hmove, ⟨rfl, rfl⟩, hagree, hnamed, hrep⟩
  | disconnect env client i step =>
    cases step with
    | terminate _ _ _ handled =>
      obtain ⟨chat', hmove, hrep⟩ := terminated_chatStep h.agree h.users handled
      exact ⟨_, chat', Run.start.turn hmove, ⟨rfl, rfl⟩, hagree, hnamed, hrep⟩
  | close env client step =>
    cases step with
    | message _ _ _ handled _ =>
      cases handled
      exact ⟨[], chat, .start, ⟨rfl, rfl⟩, h⟩
  | send env client msg henv frame step =>
    cases step with
    | message _ _ _ handled success returned =>
      subst henv
      obtain ⟨r, asked⟩ := frame.request
      obtain ⟨shown, chat', hmove, hrep, hshows⟩ :=
        message_chatStep serving h.agree h.named h.users frame handled success asked
      exact ⟨_, chat', Run.start.turn hmove, ⟨r, shown, asked, rfl, hshows⟩, hagree, hnamed, hrep⟩

/-- The server runs a chat.  Every run on what clients do, with memory and without failing sends, is a run of
the chat move by move, and what is written to a descriptor are the frames of what is shown to it; no room is ever
over its capacity.  Whatever a connected client sends next is handled, and answered as the chat prescribes. -/
theorem server_runs_chat {host : ByteOrder} {s₀ s : Server} {trace : ClientTrace}
    (h₀ : Initial pollfdArrayAppend s₀) (run : Run (ClientStep host) s₀ trace s)
    (serving : ∀ t ∈ trace, Serving t.event.1) :
    ∃ chatTrace chat, Run (ChatStep numRooms maxUsersPerRoom) (fun _ => none) chatTrace chat ∧
      PartsMatch (Moves host) (labels trace) (labels chatTrace) ∧ Represents id s.userTable chat ∧
      (∀ n, (chat.inRoom n).encard ≤ maxUsersPerRoom) ∧
      ∀ (env : Env) (client : Fd) (msg : Message) (buf : Bytes) (n : ℕ), env.host = host → Serving env →
        client ∈ s.userTable.ids → ClientFrame host msg buf →
        ∃ s' outs r shown chat', handleClientMessage env client (.message buf n) s = .ok (some (s', outs, 1)) ∧
          msg.request? = some r ∧
          ChatStep numRooms maxUsersPerRoom chat (.request client r env.clock) shown chat' ∧
          Represents id s'.userTable chat' ∧ Shows id host env.clock outs shown := by
  have hstart : IsChat s₀ fun _ => none := by
    refine ⟨h₀.agree, ?_, ?_⟩
    · rw [h₀.userTable]
      exact fun _ hu => absurd hu List.not_mem_nil
    · rw [h₀.userTable]
      exact .empty id
  obtain ⟨chatTrace, chat, hrun, hmatch, h⟩ :=
    (ClientStep.simulation host).run hstart (run.restrict fun t ht step => ⟨step, serving t ht⟩)
  refine ⟨chatTrace, chat, hrun, hmatch, h.users, Chat.inRoom_le hrun, ?_⟩
  rintro env client msg buf n rfl hserving connected frame
  obtain ⟨s', outs, handled⟩ := message_handled hserving h.agree h.named connected frame n
  obtain ⟨r, asked⟩ := frame.request
  obtain ⟨shown, chat', hmove, hrep, hshows⟩ :=
    message_chatStep hserving h.agree h.named h.users frame handled (by decide) asked
  exact ⟨s', outs, r, shown, chat', handled, asked, hmove, hrep, hshows⟩

/-- A client that connects and joins room 2 is a participant in room 2, and the only one. -/
theorem server_runs_chat_join : ∃ chatTrace chat,
    Run (ChatStep numRooms maxUsersPerRoom) (fun _ : Fd => none) chatTrace chat ∧
      chat 4 = some ⟨anonymous, some 2⟩ ∧ chat 5 = none := by
  have connect : Run (ClientStep .little) (.start 3) _ _ :=
    Run.start.turn (.connect (.steady 0) 4 (.connect (.steady 0) 4 (by decide) rfl))
  have run := connect.turn (.send (.steady 0) 4 (.join ⟨2⟩) rfl joinFrame_two
    (.message (.steady 0) 4 _ rfl (by decide) (Env.steady_returned _ _)))
  have steady : Serving (.steady 0) := ⟨fun _ hn _ => decide_eq_true hn, Env.steady_accepts 0⟩
  obtain ⟨chatTrace, chat, hrun, -, hrep, -⟩ := server_runs_chat (Server.start_initial 3) run (by
    intro t ht
    simp only [List.nil_append, List.mem_append, List.mem_singleton] at ht
    rcases ht with rfl | rfl <;> exact steady)
  refine ⟨chatTrace, chat, hrun, (hrep.iff _ _).2 ⟨_, List.mem_singleton_self _, rfl, rfl⟩, hrep.eq_none ?_⟩
  intro u hu
  rw [List.mem_singleton.1 hu]
  decide

end ChatRooms
