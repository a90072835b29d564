import ChatRooms.Server.Specs

/-!
# Steps and runs of the server

What a step can do to the server's data, handler by handler, and what every run keeps.

* `handleClientMessage_dispatched`: a message is handled by its type;
  `handleClientMessage_cases`: it changes at most the rooms and the record of its sender.
* `handleClientTermination_spec`: a termination of a connected client removes it everywhere.
* `handleNewClient_eq_zero`: a new client is appended to the poll array and added to the table.
* `Step.connections`: what a step does to the connected users and the open descriptors.
* `rooms_agree`: rooms and users agree in every state of every run.
-/

namespace ChatRooms

/-! ## What a step does -/

/-- Every stored name is a C string. -/
def Named (table : UserTable) : Prop := ∀ u ∈ table.users, Terminated u.name

theorem Named.set {table : UserTable} (h : Named table) {u : User} (hu : Terminated u.name) :
    Named (table.set u) := by
  intro v hv
  rcases UserTable.mem_set.1 hv with ⟨rfl, -⟩ | ⟨hv, -⟩
  · exact hu
  · exact h v hv

/-- The ways in which a message of a connected user is handled without a fault, by its type. -/
inductive Dispatched (env : Env) (buf : Bytes) (s : Server) (user : User) :
    Server → List Output → ℤ → Prop
  | chat {outs : List Output} {result : ℤ} (type : getMessageType buf = .ok .chat)
      (handled : handleChatMessage env buf user s.rooms = .ok (outs, result)) :
      Dispatched env buf s user s outs (if result ≠ 0 then -1 else 1)
  | join {rooms' : RoomArray} {user' : User} {outs : List Output} (type : getMessageType buf = .ok .join)
      (handled : handleJoinMessage env buf s.rooms user = .ok (rooms', user', outs)) :
      Dispatched env buf s user { s with rooms := rooms', userTable := s.userTable.set user' } outs 1
  | name {user' : User} {outs : List Output} (type : getMessageType buf = .ok .name)
      (handled : handleNameMessage env buf user = .ok (user', outs)) :
      Dispatched env buf s user { s with userTable := s.userTable.set user' } outs 1
  | invalid : Dispatched env buf s user s [.invalidType] (-1)

/-- A message that is handled without a fault comes from nobody, or is dispatched by its type. -/
theorem handleClientMessage_dispatched {env : Env} {client : Fd} {buf : Bytes} {n : ℕ} {s s' : Server}
    {outs : List Output} {status : ℤ} (handled : handleClientMessage env client (.message buf n) s =
      .ok (some (s', outs, status))) :
    (s' = s ∧ outs = [] ∧ status = -1) ∨
      ∃ user, userTableFind s.userTable client = some user ∧ Dispatched env buf s user s' outs status := by
  cases hfind : userTableFind s.userTable client with
  | none =>
    simp only [handleClientMessage, hfind] at handled
    cases handled
    exact .inl ⟨rfl, rfl, rfl⟩
  | some user =>
    refine .inr ⟨user, rfl, ?_⟩
    simp only [handleClientMessage, hfind] at handled
    obtain ⟨type, htype, handled⟩ := Checked.bind_eq_ok.1 handled
    cases type with
    | chat =>
      obtain ⟨⟨outs', result⟩, hchat, handled⟩ := Checked.bind_eq_ok.1 handled
      cases handled
      exact .chat htype hchat
    | join =>
      obtain ⟨⟨rooms', user', outs'⟩, hjoin, handled⟩ := Checked.bind_eq_ok.1 handled
      cases handled
      exact .join htype hjoin
    | name =>
      obtain ⟨⟨user', outs'⟩, hname, handled⟩ := Checked.bind_eq_ok.1 handled
      cases handled
      exact .name htype hname
    | reply =>
      cases handled
      exact .invalid
    | invalid =>
      cases handled
      exact .invalid

/-- A join that committed no fault has read a room id. -/
theorem exists_roomId {env : Env} {buf : Bytes} {rooms : RoomArray} {user : User}
    {result : RoomArray × User × List Output} (h : handleJoinMessage env buf rooms user = .ok result) :
    ∃ n, buf[5]? = some n := by
  obtain ⟨msg, hmsg, -⟩ := Checked.bind_eq_ok.1 h
  obtain ⟨n, hn, -⟩ := Checked.bind_eq_ok.1 hmsg
  exact ⟨n, readByte_eq_ok.1 hn⟩

/-- A name that is stored is a C string, and the rest of the record stays. -/
theorem handleNameMessage_eq_ok {env : Env} {buf : Bytes} {user user' : User} {outs : List Output}
    (h : handleNameMessage env buf user = .ok (user', outs)) :
    ∃ name, Terminated name ∧ user' = { user with name } ∧
      ∃ args, sendReplyMessage env user.id nameReply args = .ok outs := by
  obtain ⟨msg, -, h⟩ := Checked.bind_eq_ok.1 h
  obtain ⟨name, hcopy, h⟩ := Checked.bind_eq_ok.1 h
  obtain ⟨outs', hsend, h⟩ := Checked.bind_eq_ok.1 h
  cases h
  exact ⟨name, (cstr_of_toList_eq (nul_notMem_cstr _) (strcpy_eq_ok.1 hcopy).2.2).1, rfl, _, hsend⟩

/-- Handling a message changes nothing but the sender's record and the rooms, and these agree.  A
name that is stored is a C string. -/
theorem handleClientMessage_cases {env : Env} {client : Fd} {received : Received} {s s' : Server}
    {outs : List Output} {status : ℤ} (h : Agree s.rooms s.userTable)
    (handled : handleClientMessage env client received s = .ok (some (s', outs, status))) :
    s' = s ∨ ∃ user ∈ s.userTable.users, user.id = client ∧ ∃ rooms' user', user'.id = user.id ∧
      (user'.name = user.name ∨ Terminated user'.name) ∧ Agree rooms' (s.userTable.set user') ∧
      s' = { s with rooms := rooms', userTable := s.userTable.set user' } := by
  cases received with
  | waits => cases handled
  | failed =>
    cases handled
    exact .inl rfl
  | closed =>
    cases handled
    exact .inl rfl
  | message buf recvd =>
    rcases handleClientMessage_dispatched handled with ⟨rfl, -, -⟩ | ⟨user, hfind, hdispatched⟩
    · exact .inl rfl
    obtain ⟨hu, hid⟩ := userTableFind_eq_some.1 hfind
    cases hdispatched with
    | chat => exact .inl rfl
    | invalid => exact .inl rfl
    | join type hjoin =>
      obtain ⟨n, hn⟩ := exists_roomId hjoin
      obtain ⟨r, u, o, fmt, hspec, hagree, hout, -⟩ := handleJoinMessage_spec env h hu hn
      rw [hspec, Except.ok.injEq, Prod.mk.injEq, Prod.mk.injEq] at hjoin
      obtain ⟨rfl, rfl, rfl⟩ := hjoin
      exact .inr ⟨user, hu, hid, r, u, hout.keeps.1, .inl hout.keeps.2.1, hagree, rfl⟩
    | name type hname =>
      obtain ⟨name, hterm, rfl, -⟩ := handleNameMessage_eq_ok hname
      exact .inr ⟨user, hu, hid, s.rooms, { user with name }, rfl, .inr hterm, h.set hu rfl rfl, rfl⟩

/-- What is written for a message is a reply to its sender, or for a chat message a chat to a user in a room. -/
theorem mem_handleClientMessage {env : Env} {client : Fd} {buf : Bytes} {n : ℕ} {s s' : Server}
    {outs : List Output} {status : ℤ} (h : Agree s.rooms s.userTable)
    (handled : handleClientMessage env client (.message buf n) s = .ok (some (s', outs, status)))
    {fd : Fd} {msg : Message} {sendBuf sent : Bytes} (hout : .write fd msg sendBuf sent ∈ outs) :
    (fd = client ∧ ∃ reply, msg = .reply reply) ∨ (∃ chat, msg = .chat chat) ∧ getMessageType buf = .ok .chat ∧
      ∃ user ∈ s.userTable.users, user.id = fd ∧ user.room ≠ invalidRoom := by
  rcases handleClientMessage_dispatched handled with ⟨-, rfl, -⟩ | ⟨user, hfind, hdispatched⟩
  · cases hout
  obtain ⟨hu, rfl⟩ := userTableFind_eq_some.1 hfind
  have hreply {fmt : Bytes} {args : List FormatArg} (hsend : sendReplyMessage env user.id fmt args = .ok outs) :
      fd = user.id ∧ ∃ reply, msg = .reply reply := by
    rcases mem_sendReplyMessage hsend hout with he | ⟨reply, _, _, he⟩
    · cases he
    · cases he
      exact ⟨rfl, reply, rfl⟩
  cases hdispatched with
  | chat type hchat =>
    rcases mem_handleChatMessage h hu hchat hout with hsent | ⟨hmsg, hroom, hmem⟩
    · exact .inl hsent
    · obtain ⟨receiver, hreceiver, hid, hsame⟩ := UserTable.mem_inRoom.1 hmem
      exact .inr ⟨hmsg, type, receiver, hreceiver, hid, hsame ▸ hroom⟩
  | join type hjoin =>
    obtain ⟨room, hroom⟩ := exists_roomId hjoin
    obtain ⟨_, _, _, _, hspec, -, -, -, hsend, -⟩ := handleJoinMessage_effect env h hu hroom
    rw [hspec, Except.ok.injEq, Prod.mk.injEq, Prod.mk.injEq] at hjoin
    obtain ⟨-, -, rfl⟩ := hjoin
    exact .inl (hreply hsend)
  | name type hname =>
    obtain ⟨-, -, -, args, hsend⟩ := handleNameMessage_eq_ok hname
    exact .inl (hreply hsend)
  | invalid => cases List.mem_singleton.1 hout

/-- A message that was handled with success has a sender in the table. -/
theorem exists_sender {env : Env} {client : Fd} {buf : Bytes} {n : ℕ} {s s' : Server}
    {outs : List Output} {status : ℤ} (handled : handleClientMessage env client (.message buf n) s =
      .ok (some (s', outs, status))) (success : status ≠ -1) :
    ∃ user, userTableFind s.userTable client = some user := by
  rcases handleClientMessage_dispatched handled with ⟨-, -, rfl⟩ | ⟨user, hfind, -⟩
  · exact absurd rfl success
  · exact ⟨user, hfind⟩

/-- The termination of a connected client at an index inside the poll array succeeds, and removes its
record, its membership and the entry. -/
theorem handleClientTermination_spec (env : Env) {s : Server} (h : Agree s.rooms s.userTable)
    {user : User} (hu : user ∈ s.userTable.users) {i : ℕ} (hi : i < s.pollfds.len) :
    ∃ rooms' table', handleClientTermination env user.id i s =
        .ok ({ s with
          pollfds := (pollfdArrayDelete s.pollfds i env.realloc).1
          rooms := rooms'
          userTable := table'
          openFds := s.openFds.erase user.id }, 0) ∧
      Agree rooms' table' ∧ ∀ v, v ∈ table'.users ↔ v ∈ s.userTable.users ∧ v.id ≠ user.id := by
  obtain ⟨pollfds, hdel⟩ := pollfdArrayDelete_of_lt hi env.realloc
  have hfind : userTableFind s.userTable user.id = some user := userTableFind_eq_some.2 ⟨hu, rfl⟩
  unfold handleClientTermination
  rw [hdel]
  dsimp only
  rw [if_neg (not_not.2 rfl), hfind]
  dsimp only
  by_cases hroom : user.room = 0
  · obtain ⟨table', hdelete, hagree, hmem⟩ := h.delete hu hroom
    refine ⟨s.rooms, table', ?_, hagree, hmem⟩
    rw [h.getRoom_eq_none.2 (.inl hroom)]
    simp only [deleteUser, hdelete, Checked.pure_eq_ok]
  · obtain ⟨r, room, room', hget, -, -, hremove, -, -, hagree⟩ := h.leave hu hroom
    have hmem : { user with room := invalidRoom } ∈
        (s.userTable.set { user with room := invalidRoom }).users := UserTable.mem_set_self hu rfl
    obtain ⟨table', hdelete, hagree', hrest⟩ := hagree.delete hmem rfl
    refine ⟨s.rooms.write r room', table', ?_, hagree', fun v => ?_⟩
    · rw [hget]
      simp only [hremove, Checked.ok_bind, deleteUser, hdelete, Checked.pure_eq_ok]
    · rw [hrest, UserTable.mem_set]
      constructor
      · rintro ⟨⟨rfl, -⟩ | ⟨hv, -⟩, hne⟩
        · exact absurd rfl hne
        · exact ⟨hv, hne⟩
      · rintro ⟨hv, hne⟩
        exact ⟨.inr ⟨hv, hne⟩, hne⟩

/-- A termination that succeeds is one of a connected client, at an index inside the poll array, and
removes the client everywhere. -/
theorem handleClientTermination_eq_zero {env : Env} {client : Fd} {i : ℕ} {s s' : Server}
    (h : Agree s.rooms s.userTable)
    (handled : handleClientTermination env client i s = .ok (s', 0)) :
    i < s.pollfds.len ∧ client ∈ s.userTable.ids ∧ ∃ rooms' table',
      s' = { s with
        pollfds := (pollfdArrayDelete s.pollfds i env.realloc).1
        rooms := rooms'
        userTable := table'
        openFds := s.openFds.erase client } ∧
      Agree rooms' table' ∧ ∀ v, v ∈ table'.users ↔ v ∈ s.userTable.users ∧ v.id ≠ client := by
  obtain ⟨hi, user, hu, rfl⟩ : i < s.pollfds.len ∧ ∃ user ∈ s.userTable.users, user.id = client := by
    unfold handleClientTermination at handled
    by_cases hi : i ≥ s.pollfds.len
    · rw [pollfdArrayDelete_of_ge hi] at handled
      cases handled
    · refine ⟨by omega, ?_⟩
      generalize pollfdArrayDelete s.pollfds i env.realloc = deleted at handled
      obtain ⟨pollfds, status⟩ := deleted
      dsimp only at handled
      split at handled
      · cases handled
      · cases hfind : userTableFind s.userTable client with
        | none =>
          rw [hfind] at handled
          cases handled
        | some user => exact ⟨user, userTableFind_eq_some.1 hfind⟩
  obtain ⟨rooms', table', hspec, hagree, hmem⟩ := handleClientTermination_spec env h hu hi
  rw [hspec, Except.ok.injEq, Prod.mk.injEq] at handled
  exact ⟨hi, UserTable.mem_ids hu, rooms', table', handled.1.symm, hagree, hmem⟩

/-- A new connection that succeeds has been appended to the poll array and added to the table. -/
theorem handleNewClient_eq_zero {append : Append} {env : Env} {accepted : Option Fd} {s s' : Server}
    (handled : handleNewClient append env accepted s = .ok (s', 0)) :
    ∃ fd pollfds table', accepted = some fd ∧
      append s.pollfds fd pollin env.realloc = (pollfds, 0) ∧
      userTableAdd env.heap s.userTable fd = .ok (some table') ∧
      s' = { s with pollfds, userTable := table', openFds := fd :: s.openFds } := by
  cases accepted with
  | none => cases handled
  | some fd =>
    unfold handleNewClient at handled
    dsimp only at handled
    generalize happ : append s.pollfds fd pollin env.realloc = appended at handled
    obtain ⟨pollfds, status⟩ := appended
    dsimp only at handled
    split at handled
    · cases handled
    · rename_i hstatus
      rw [not_not] at hstatus
      subst hstatus
      obtain ⟨added, hadd, handled⟩ := Checked.bind_eq_ok.1 handled
      cases added with
      | none => cases handled
      | some table' =>
        cases handled
        exact ⟨fd, pollfds, table', rfl, happ, hadd, rfl⟩

/-! ## Runs -/

theorem Initial.agree {append : Append} {s : Server} (h : Initial append s) :
    Agree s.rooms s.userTable := by
  obtain ⟨heap, hrooms⟩ := h.rooms
  unfold roomArrayInit at hrooms
  split at hrooms
  · rw [Option.some.injEq] at hrooms
    have hcell : ∀ {i : ℕ} {room : Room}, s.rooms.rooms[i]? = some room →
        i < 5 ∧ room = { id := UInt8.ofNat (i + 1), users := .fill fun _ => 0, numUsers := 0 } := by
      intro i room hi
      rw [← hrooms] at hi
      obtain ⟨hlt, hroom⟩ := List.getElem?_eq_some_iff.1 hi
      rw [List.length_map, List.length_range] at hlt
      change i < 5 at hlt
      rw [List.getElem_map, List.getElem_range, if_pos (show i < 5 % 2 ^ 8 by omega)] at hroom
      exact ⟨hlt, hroom.symm⟩
    rw [h.userTable]
    refine ⟨by rw [← hrooms]; rfl, by rw [← hrooms]; rfl, ?_, ?_, ?_, fun _ hu => nomatch hu⟩
    · intro i room hi
      obtain ⟨hlt, rfl⟩ := hcell hi
      show (UInt8.ofNat (i + 1)).toNat = i + 1
      rw [UInt8.toNat_ofNat']
      omega
    · intro i room hi
      obtain ⟨-, rfl⟩ := hcell hi
      exact Nat.zero_le _
    · intro i room hi
      obtain ⟨-, rfl⟩ := hcell hi
      exact .refl _
  · cases hrooms

/-- Every step keeps rooms and users in agreement. -/
theorem Step.agree {append : Append} {s s' : Server} {input : Env × Event} {outs : List Output}
    (step : Step append s input outs s') (h : Agree s.rooms s.userTable) :
    Agree s'.rooms s'.userTable := by
  cases step with
  | connect env fd fresh handled =>
    obtain ⟨_, pollfds, table', -, -, hadd, rfl⟩ := handleNewClient_eq_zero handled
    exact h.add hadd
  | terminate env client i handled =>
    obtain ⟨-, -, rooms', table', rfl, hagree, -⟩ := handleClientTermination_eq_zero h handled
    exact hagree
  | message env client received handled success returned =>
    rcases handleClientMessage_cases h handled with rfl | ⟨user, -, -, rooms', user', -, -, hagree, rfl⟩
    · exact h
    · exact hagree

/-- Every step keeps the stored names C strings. -/
theorem Step.named {append : Append} {s s' : Server} {input : Env × Event} {outs : List Output}
    (step : Step append s input outs s') (h : Agree s.rooms s.userTable) (hnamed : Named s.userTable) :
    Named s'.userTable := by
  cases step with
  | connect env fd fresh handled =>
    obtain ⟨_, pollfds, table', -, -, hadd, rfl⟩ := handleNewClient_eq_zero handled
    obtain ⟨-, name, hterm, -, husers⟩ := userTableAdd_eq_some hadd
    intro u hu
    change u ∈ table'.users at hu
    rw [husers] at hu
    rcases List.mem_append.1 hu with hu | hu
    · exact hnamed u hu
    · obtain rfl := List.mem_singleton.1 hu
      exact hterm
  | terminate env client i handled =>
    obtain ⟨-, -, rooms', table', rfl, -, hmem⟩ := handleClientTermination_eq_zero h handled
    exact fun v hv => hnamed v ((hmem v).1 hv).1
  | message env client received handled success returned =>
    rcases handleClientMessage_cases h handled with rfl | ⟨user, hu, -, rooms', user', -, hname, -, rfl⟩
    · exact hnamed
    · refine hnamed.set ?_
      rcases hname with hname | hterm
      · rw [hname]
        exact hnamed user hu
      · exact hterm

/-- What an event does to the connected users and the open descriptors. -/
inductive Connections (s s' : Server) : Event → Prop
  | opened (fd : Fd) (ids : s'.userTable.ids = s.userTable.ids ++ [fd])
      (openFds : s'.openFds = fd :: s.openFds) : Connections s s' (.connect fd)
  | closed (client : Fd) (i : ℕ) (inside : i < s.pollfds.len) (mem : client ∈ s.userTable.ids)
      (ids : ∀ fd, fd ∈ s'.userTable.ids ↔ fd ∈ s.userTable.ids ∧ fd ≠ client)
      (openFds : s'.openFds = s.openFds.erase client) : Connections s s' (.terminate client i)
  | kept (client : Fd) (received : Received) (ids : s'.userTable.ids = s.userTable.ids)
      (openFds : s'.openFds = s.openFds) : Connections s s' (.message client received)

theorem Step.connections {append : Append} {s s' : Server} {env : Env} {event : Event}
    {outs : List Output} (step : Step append s (env, event) outs s') (h : Agree s.rooms s.userTable) :
    s'.listener = s.listener ∧ Connections s s' event := by
  cases step with
  | connect _ fd fresh handled =>
    obtain ⟨_, pollfds, table', hfd, -, hadd, rfl⟩ := handleNewClient_eq_zero handled
    cases hfd
    obtain ⟨-, name, -, -, husers⟩ := userTableAdd_eq_some hadd
    refine ⟨rfl, .opened fd ?_ rfl⟩
    change table'.users.map User.id = _
    rw [husers, List.map_append]
    rfl
  | terminate _ client i handled =>
    obtain ⟨hi, hc, rooms', table', rfl, -, hmem⟩ := handleClientTermination_eq_zero h handled
    exact ⟨rfl, .closed client i hi hc (UserTable.mem_ids_iff_of_users hmem) rfl⟩
  | message _ client received handled success returned =>
    rcases handleClientMessage_cases h handled with rfl | ⟨user, -, -, rooms', user', -, -, -, rfl⟩
    · exact ⟨rfl, .kept client received rfl rfl⟩
    · exact ⟨rfl, .kept client received (UserTable.ids_set _ _) rfl⟩

theorem Run.agree {append : Append} {s₀ s : Server} {trace : List (Turn Server (Env × Event) (List Output))}
    (h₀ : Initial append s₀) (run : Run (Step append) s₀ trace s) : Agree s.rooms s.userTable :=
  run.invariant (fun s => Agree s.rooms s.userTable) h₀.agree fun _ _ step => step.agree

/-- In every state that connections, terminations and messages lead to, in any order and with any
room ids, rooms and users agree: a user is in the room its record names, once, and in no other; the
ids listed in rooms are those of connected users; and no room is over its capacity. -/
theorem rooms_agree {s₀ s : Server} {trace : List (Turn Server (Env × Event) (List Output))}
    (h₀ : Initial pollfdArrayAppend s₀) (run : Run (Step pollfdArrayAppend) s₀ trace s) :
    (∀ u ∈ s.userTable.users, (u.room = 0 ∨ 1 ≤ u.room.toNat ∧ u.room.toNat ≤ numRooms) ∧
      ∀ r ∈ s.rooms.rooms, r.members.count u.id = if u.room = r.id then 1 else 0) ∧
    s.rooms.rooms.map Room.id = [1, 2, 3, 4, 5] ∧
    ∀ r ∈ s.rooms.rooms, (∀ id ∈ r.members, ∃ u ∈ s.userTable.users, u.id = id) ∧
      r.numUsers ≤ maxUsersPerRoom := by
  have h := run.agree h₀
  refine ⟨fun u hu => ⟨?_, fun r hr => ?_⟩, ?_, fun r hr => ?_⟩
  · have hle := h.room_le u hu
    by_cases h0 : u.room = 0
    · exact .inl h0
    · have hpos : u.room.toNat ≠ 0 := fun he => h0 (UInt8.toNat_inj.1 he)
      exact .inr ⟨by omega, hle⟩
  · obtain ⟨i, hi⟩ := List.getElem?_of_mem hr
    have hperm := h.members hi
    rw [hperm.count_eq]
    split
    · rename_i hroom
      exact List.count_eq_one_of_mem (UserTable.nodup_inRoom _ _)
        (UserTable.mem_inRoom.2 ⟨u, hu, rfl, hroom⟩)
    · rename_i hroom
      refine List.count_eq_zero.2 fun hmem => hroom ?_
      obtain ⟨v, hv, hid, hvr⟩ := UserTable.mem_inRoom.1 hmem
      rwa [List.inj_on_of_nodup_map s.userTable.nodup hv hu hid] at hvr
  · have hlen : s.rooms.rooms.length = 5 := h.length
    apply List.ext_getElem
    · rw [List.length_map, hlen]
      rfl
    · intro i h1 h2
      have hi : i < s.rooms.rooms.length := by rwa [List.length_map] at h1
      have hid := h.id (List.getElem?_eq_getElem hi)
      rw [List.getElem_map, ← UInt8.toNat_inj, hid]
      obtain rfl | rfl | rfl | rfl | rfl : i = 0 ∨ i = 1 ∨ i = 2 ∨ i = 3 ∨ i = 4 := by omega
      all_goals rfl
  · obtain ⟨i, hi⟩ := List.getElem?_of_mem hr
    refine ⟨fun id hid => ?_, h.numUsers_le hi⟩
    obtain ⟨u, hu, hid, -⟩ := UserTable.mem_inRoom.1 ((h.members hi).mem_iff.1 hid)
    exact ⟨u, hu, hid⟩

/-- One client connects and joins room 2. -/
theorem rooms_agree_join : ∃ s trace, Run (Step pollfdArrayAppend) (.start 3) trace s ∧
    s.userTable.ids = [4] ∧ (s.rooms.rooms.map Room.members) = [[], [4], [], [], []] ∧
    ∀ u ∈ s.userTable.users, (u.room = 0 ∨ 1 ≤ u.room.toNat ∧ u.room.toNat ≤ numRooms) ∧
      ∀ r ∈ s.rooms.rooms, r.members.count u.id = if u.room = r.id then 1 else 0 :=
  have run := (Run.start.turn (.connect (.steady 0) 4 (by decide) rfl)).turn
    (.message (.steady 0) 4 (.message [0, 0, 0, 6, 3, 2] 6) rfl (by decide) (Env.steady_returned _ _))
  ⟨_, _, run, rfl, rfl, (rooms_agree (Server.start_initial 3) run).1⟩

/-- Clients 4 and 5 are in room 2, and client 6 is in room 1. -/
structure ThreeUsers (s : Server) : Prop where
  members : s.rooms.rooms.map Room.members = [[6], [4, 5], [], [], []]
  inRoom : s.userTable.inRoom 1 = [6]
  user : ∃ u, userTableFind s.userTable 4 = some u ∧ u.room = 2

/-- Three clients connect and join two rooms. -/
theorem run_threeUsers : ∃ s trace, Run (Step pollfdArrayAppend) (.start 3) trace s ∧ ThreeUsers s :=
  have connected := ((Run.start.turn (.connect (.steady 0) 4 (by decide) rfl)).turn
    (.connect (.steady 0) 5 (by decide) rfl)).turn (.connect (.steady 0) 6 (by decide) rfl)
  have joined := ((connected.turn
    (.message (.steady 0) 4 (.message [0, 0, 0, 6, 3, 2] 6) rfl (by decide) (Env.steady_returned _ _))).turn
    (.message (.steady 0) 5 (.message [0, 0, 0, 6, 3, 2] 6) rfl (by decide) (Env.steady_returned _ _))).turn
    (.message (.steady 0) 6 (.message [0, 0, 0, 6, 3, 1] 6) rfl (by decide) (Env.steady_returned _ _))
  ⟨_, _, joined, rfl, rfl, _, rfl, rfl⟩

end ChatRooms
