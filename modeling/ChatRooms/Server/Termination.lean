import ChatRooms.Server.Join
import ChatRooms.Server.PollSet

/-!
# Termination of a client

With an append that has its documented effect, `handle_client_termination` succeeds for every client in
the poll set and removes it from the rooms, the user table and the poll set, and nothing else:
`Removed`.  A connection that gets the same descriptor later is in no room and gets no chat message
until it joins: `termination_leaves_no_trace`.
-/

namespace ChatRooms

/-! ## What is removed -/

/-- The client of an entry has been removed from the rooms, the user table and the poll set, and
everything else is the same. -/
structure Removed (pfd : Pollfd) (s s' : Server) : Prop where
  members : ∀ room ∈ s'.rooms.rooms, pfd.fd ∉ room.members
  table : userTableFind s'.userTable pfd.fd = none
  polled : pfd.fd ∉ s'.pollfds.descriptors
  users : ∀ u : User, u.id ≠ pfd.fd → (u ∈ s'.userTable.users ↔ u ∈ s.userTable.users)
  length : s'.rooms.rooms.length = s.rooms.rooms.length
  rooms : ∀ {i : ℕ} {room : Room}, s.rooms.rooms[i]? = some room → ∃ room',
    s'.rooms.rooms[i]? = some room' ∧ room'.id = room.id ∧ room'.members.Perm (room.members.erase pfd.fd)
  entries : (pfd :: s'.pollfds.entries).Perm s.pollfds.entries

/-- A room of a table from which one user was deleted. -/
theorem UserTable.inRoom_of_delete {t t' : UserTable} {c : Fd}
    (h : ∀ v, v ∈ t'.users ↔ v ∈ t.users ∧ v.id ≠ c) (n : UInt8) :
    (t'.inRoom n).Perm ((t.inRoom n).erase c) := by
  apply (List.perm_ext_iff_of_nodup (t'.nodup_inRoom n) ((t.nodup_inRoom n).erase c)).2
  intro fd
  rw [(t.nodup_inRoom n).mem_erase_iff, UserTable.mem_inRoom, UserTable.mem_inRoom]
  constructor
  · rintro ⟨u, hu, rfl, hroom⟩
    obtain ⟨hmem, hne⟩ := (h u).1 hu
    exact ⟨hne, u, hmem, rfl, hroom⟩
  · rintro ⟨hne, u, hu, rfl, hroom⟩
    exact ⟨u, (h u).2 ⟨hu, hne⟩, rfl, hroom⟩

/-- The termination of a client in the poll set succeeds and removes it. -/
theorem PollSet.removed {s : Server} (h : PollSet s) (env : Env) {i : ℕ} {pfd : Pollfd} (hi : 1 ≤ i)
    (hlt : i < s.pollfds.len) (hread : s.pollfds.read i = .ok pfd) :
    ∃ s', handleClientTermination env pfd.fd i s = .ok (s', 0) ∧ PollSet s' ∧ Removed pfd s s' := by
  have hc := h.client hi hlt hread
  obtain ⟨user, hu, hid⟩ := List.mem_map.1 hc
  have hagree := h.connected.agree
  obtain ⟨rooms', table', hspec, hagree', hmem⟩ := handleClientTermination_spec env hagree hu hlt
  rw [hid] at hspec hmem
  have hstep : Step documentedAppend s (env, .terminate pfd.fd i) [] _ := .terminate _ _ _ hspec
  have hset := h.terminate (h.connected.step hstep fun _ he => by cases he) hread hspec
  refine ⟨_, hspec, hset, ?_⟩
  have hids : pfd.fd ∉ table'.ids := fun hmem' =>
    ((UserTable.mem_ids_iff_of_users hmem _).1 hmem').2 rfl
  have hother : pfd.fd ≠ s.listener := fun he => h.connected.listener (he ▸ hc)
  refine ⟨fun room hroom hlisted => ?_, userTableFind_eq_none.2 hids, ?_, fun u hne => ?_,
    hagree'.length.trans hagree.length.symm, fun {j room} hj => ?_, ?_⟩
  · obtain ⟨j, hj⟩ := List.getElem?_of_mem hroom
    obtain ⟨u, hu', hid', -⟩ := UserTable.mem_inRoom.1 ((hagree'.members hj).mem_iff.1 hlisted)
    exact hids (hid' ▸ UserTable.mem_ids hu')
  · rw [hset.mem_descriptors, not_or]
    exact ⟨hother, hids⟩
  · rw [hmem]
    exact and_iff_left hne
  · have hj' : j < rooms'.rooms.length := by
      rw [hagree'.length, ← hagree.length]
      exact (List.getElem?_eq_some_iff.1 hj).1
    have hcell := List.getElem?_eq_getElem hj'
    have hroom : rooms'.rooms[j].id = room.id := by
      apply UInt8.toNat_inj.1
      rw [hagree'.id hcell, hagree.id hj]
    refine ⟨_, hcell, hroom, ?_⟩
    calc rooms'.rooms[j].members.Perm (table'.inRoom room.id) := hroom ▸ hagree'.members hcell
      _ |>.Perm ((s.userTable.inRoom room.id).erase pfd.fd) := UserTable.inRoom_of_delete hmem _
      _ |>.Perm (room.members.erase pfd.fd) := ((hagree.members hj).erase _).symm
  · obtain ⟨hlen, hentry⟩ := List.getElem?_eq_some_iff.1 ((PollfdArray.read_eq_ok hlt).1 hread)
    dsimp only
    rw [(entries_delete h.wf hlt h.len_lt env.realloc).2, ← hentry]
    exact cons_swapRemove_perm hlen

/-! ## The descriptor afterwards -/

/-- No record with the id names a room. -/
def Outside (c : Fd) (s : Server) : Prop := ∀ u ∈ s.userTable.users, u.id = c → u.room = invalidRoom

/-- In the turn a join message of the client is handled, and it joins the room. -/
def Joins (c : Fd) (t : MainTurn) : Prop :=
  ∃ buf n outs user room, t.output = .handled c (.message buf n) outs ∧ getMessageType buf = .ok .join ∧
    buf[5]? = some room ∧ userTableFind t.before.server.userTable c = some user ∧
    dictatedAnswer t.before.server.userTable user room = .joined

/-- No chat message is written to the client in the turn. -/
def NoChat (c : Fd) (t : MainTurn) : Prop :=
  ∀ client received outs, t.output = .handled client received outs →
    ∀ msg sendBuf sent, .write c (.chat msg) sendBuf sent ∉ outs

/-- The records after a message was handled: they are those from before, except that the sender's has
another name, or what its join has made of it. -/
theorem handleClientMessage_record {env : Env} {client : Fd} {buf : Bytes} {n : ℕ} {s s' : Server}
    {outs : List Output} {status : ℤ} (h : Agree s.rooms s.userTable)
    (handled : handleClientMessage env client (.message buf n) s = .ok (some (s', outs, status)))
    {v : User} (hv : v ∈ s'.userTable.users) :
    v ∈ s.userTable.users ∨ ∃ user, userTableFind s.userTable client = some user ∧ v.id = client ∧
      (v.room = user.room ∨ getMessageType buf = .ok .join ∧ ∃ room, buf[5]? = some room ∧
        v = (dictatedAnswer s.userTable user room).record user room) := by
  rcases handleClientMessage_dispatched handled with ⟨rfl, -, -⟩ | ⟨user, hfind, hdispatched⟩
  · exact .inl hv
  obtain ⟨hu, hid⟩ := userTableFind_eq_some.1 hfind
  cases hdispatched with
  | chat => exact .inl hv
  | invalid => exact .inl hv
  | join type hjoin =>
    obtain ⟨room, hroom⟩ := exists_roomId hjoin
    obtain ⟨rooms', outs', hspec, -⟩ := handleJoinMessage_dictated env h hu hroom
    rw [hspec, Except.ok.injEq, Prod.mk.injEq, Prod.mk.injEq] at hjoin
    obtain ⟨rfl, rfl, rfl⟩ := hjoin
    rcases UserTable.mem_set.1 hv with ⟨rfl, -⟩ | ⟨hv, -⟩
    · refine .inr ⟨user, hfind, ?_, .inr ⟨type, room, hroom, rfl⟩⟩
      rw [← hid]
      cases dictatedAnswer s.userTable user room <;> rfl
    · exact .inl hv
  | name type hname =>
    obtain ⟨name, -, rfl, -⟩ := handleNameMessage_eq_ok hname
    rcases UserTable.mem_set.1 hv with ⟨rfl, -⟩ | ⟨hv, -⟩
    · exact .inr ⟨user, hfind, hid, .inl rfl⟩
    · exact .inl hv

namespace Outside

/-- A turn in which the client does not join leaves it outside every room, and brings it no chat. -/
theorem turn {append : Append} {c : Fd} {t : MainTurn} (h : Connected t.before.server)
    (houtside : Outside c t.before.server) (step : MainStep append t.before t.event t.output t.after)
    (hjoins : ¬ Joins c t) : Outside c t.after.server ∧ NoChat c t := by
  obtain ⟨s, event, effect, s'⟩ := t
  dsimp only at h houtside step hjoins ⊢
  have quiet (hquiet : ∀ client received outs, effect ≠ .handled client received outs) :
      NoChat c ⟨s, event, effect, s'⟩ :=
    fun client received outs he => absurd he (hquiet client received outs)
  have gone {env : Env} {client : Fd} {i : ℕ} {server : Server}
      (handled : handleClientTermination env client i s.server = .ok (server, 0)) : Outside c server := by
    obtain ⟨-, -, rooms', table', rfl, -, hmem⟩ := handleClientTermination_eq_zero h.agree handled
    exact fun u hu hid => houtside u ((hmem u).1 hu).1 hid
  cases step with
  | arrive fd bytes unended => exact ⟨houtside, quiet (by simp)⟩
  | finish fd ending unended => exact ⟨houtside, quiet (by simp)⟩
  | poll revents pc => exact ⟨houtside, quiet (by simp)⟩
  | endPass i pc outside => exact ⟨houtside, quiet (by simp)⟩
  | turn i env pc inside fresh iterated =>
    obtain ⟨pfd, -, iter⟩ := iterated_of_next iterated
    cases iter with
    | hangup hup handled => exact ⟨gone handled, quiet (by simp)⟩
    | closed hup input client recv handled => exact ⟨gone handled, quiet (by simp)⟩
    | idle hup input => exact ⟨houtside, quiet (by simp)⟩
    | connected hup input listener accept added =>
      refine ⟨fun u hu hid => ?_, quiet (by simp)⟩
      obtain ⟨_, pollfds, table', -, -, hadd, rfl⟩ := handleNewClient_eq_zero added
      obtain ⟨-, name, -, -, husers⟩ := userTableAdd_eq_some hadd
      dsimp only at hu
      rw [husers] at hu
      rcases List.mem_append.1 hu with hu | hu
      · exact houtside u hu hid
      · rw [List.mem_singleton.1 hu]
    | @message server outs buf n stream hup input client recv success =>
      constructor
      · intro v hv hid
        rcases handleClientMessage_record h.agree success hv with hv | ⟨user, hfind, hclient, hroom⟩
        · exact houtside v hv hid
        obtain ⟨hu, huser⟩ := userTableFind_eq_some.1 hfind
        have huc : user.id = c := huser.trans (hclient.symm.trans hid)
        have hzero := houtside user hu huc
        rcases hroom with hroom | ⟨htype, room, hbuf, rfl⟩
        · rw [hroom, hzero]
        · -- The join was refused, and the sender was in no room before.
          have hrefused : dictatedAnswer s.server.userTable user room ≠ .joined := by
            intro hjoined
            rw [hclient.symm.trans hid] at hfind hjoins
            exact hjoins ⟨buf, n, outs, user, room, rfl, htype, hbuf, hfind, hjoined⟩
          revert hrefused
          cases dictatedAnswer s.server.userTable user room with
          | missing => exact fun _ => hzero
          | already => exact fun _ => hzero
          | full => exact fun _ => rfl
          | joined => exact fun hne => absurd rfl hne
      · rintro client received outs' he msg sendBuf sent hout
        cases he
        rcases mem_handleClientMessage h.agree success hout with ⟨-, reply, hreply⟩ | ⟨-, -, user, hu, hid, hroom⟩
        · cases hreply
        · exact hroom (houtside user hu hid)

/-- As long as the client does not join, it stays outside every room and gets no chat. -/
theorem run {append : Append} {c : Fd} {s s' : MainState} {trace : MainTrace} (h : Connected s.server)
    (houtside : Outside c s.server) (run : Run (MainStep append) s trace s')
    (hjoins : ∀ t ∈ trace, ¬ Joins c t) :
    Connected s'.server ∧ Outside c s'.server ∧ ∀ t ∈ trace, NoChat c t := by
  induction run with
  | start => exact ⟨h, houtside, fun t ht => absurd ht List.not_mem_nil⟩
  | @turn trace m m' e o run step ih =>
    obtain ⟨hconnected, hbefore, hquiet⟩ := ih fun t ht => hjoins t (List.mem_append_left _ ht)
    obtain ⟨hafter, hturn⟩ := turn hconnected hbefore step
      (hjoins ⟨m, e, o, m'⟩ (List.mem_append_right _ List.mem_cons_self))
    exact ⟨hconnected.mainStep step, hafter, Run.forall_concat hquiet hturn⟩

/-- A client outside every room is in no room's array. -/
theorem notMem_members {c : Fd} {s : Server} (h : Agree s.rooms s.userTable) (houtside : Outside c s)
    {room : Room} (hroom : room ∈ s.rooms.rooms) : c ∉ room.members := by
  intro hmem
  obtain ⟨i, hi⟩ := List.getElem?_of_mem hroom
  obtain ⟨user, hu, hid, hsame⟩ := UserTable.mem_inRoom.1 ((h.members hi).mem_iff.1 hmem)
  have hzero := h.id hi
  rw [← hsame, houtside user hu hid] at hzero
  exact absurd hzero (by simp)

end Outside

/-- Termination of a client always succeeds and leaves no trace.  In every reachable state and for every
index behind the listener, the client of the entry is removed and nothing else.  And from then on, as
long as no connection that has got the same descriptor joins a room, its records and the rooms say that
it is in none, and no chat message is written to it. -/
theorem termination_leaves_no_trace {append : Append} (doc : Documented append) {s₀ s : MainState}
    {trace : MainTrace} (h₀ : MainInitial append s₀) (run : Run (MainStep append) s₀ trace s) (env : Env)
    {i : ℕ} {pfd : Pollfd} (hi : 1 ≤ i) (hlt : i < s.server.pollfds.len)
    (hread : s.server.pollfds.read i = .ok pfd) :
    ∃ s', handleClientTermination env pfd.fd i s.server = .ok (s', 0) ∧ Removed pfd s.server s' ∧
      ∀ (later later' : MainState) (trace' : MainTrace), later.server = s' →
        Run (MainStep append) later trace' later' → (∀ t ∈ trace', ¬ Joins pfd.fd t) →
        Outside pfd.fd later'.server ∧ (∀ room ∈ later'.server.rooms.rooms, pfd.fd ∉ room.members) ∧
          ∀ t ∈ trace', NoChat pfd.fd t := by
  obtain ⟨s', hspec, hset, hremoved⟩ := (run.pollSet doc h₀).removed env hi hlt hread
  refine ⟨s', hspec, hremoved, fun later later' trace' hserver run' hjoins => ?_⟩
  have hgone : Outside pfd.fd later.server := by
    rw [hserver]
    intro u hu hid
    exact absurd (hid ▸ UserTable.mem_ids hu) (userTableFind_eq_none.1 hremoved.table)
  have hconnected : Connected later.server := by
    rw [hserver]
    exact hset.connected
  obtain ⟨hconnected', houtside, hquiet⟩ := hgone.run hconnected run' hjoins
  exact ⟨houtside, fun room hroom => houtside.notMem_members hconnected'.agree hroom, hquiet⟩

/-- Two clients are in room 2, and the entry of the first one, at index 1, is terminated. -/
theorem termination_leaves_no_trace_member : ∃ s trace, Run (MainStep documentedAppend) (.start 3) trace s ∧
    s.server.pollfds.descriptors = [3, 4, 5] ∧ s.server.userTable.inRoom 2 = [4, 5] ∧
    ∃ s', handleClientTermination (.steady 0) 4 1 s.server = .ok (s', 0) ∧
      Removed ⟨4, pollin, pollin⟩ s.server s' := by
  have run : Run (MainStep documentedAppend) (.start 3) [] _ := .start
  have run := run.turn (.poll (fun _ => pollin) rfl)
  have run := run.turn (.turn 0 ⟨.steady 0, .steady 4, some 4⟩ rfl (by decide) (.of_notMem (by decide)) rfl)
  have run := run.turn (.turn 1 ⟨.steady 0, .steady 4, none⟩ rfl (by decide) .none rfl)
  have run := run.turn (.endPass 2 rfl (by decide))
  have run := run.turn (.poll (fun i => if i = 0 then pollin else 0) rfl)
  have run := run.turn (.turn 0 ⟨.steady 0, .steady 4, some 5⟩ rfl (by decide) (.of_notMem (by decide)) rfl)
  have run := run.turn (.turn 1 ⟨.steady 0, .steady 4, none⟩ rfl (by decide) .none rfl)
  have run := run.turn (.turn 2 ⟨.steady 0, .steady 4, none⟩ rfl (by decide) .none rfl)
  have run := run.turn (.endPass 3 rfl (by decide))
  have run := run.turn (.arrive 4 [0, 0, 0, 6, 3, 2] rfl)
  have run := run.turn (.arrive 5 [0, 0, 0, 6, 3, 2] rfl)
  have run := run.turn (.poll (fun i => if i = 0 then 0 else pollin) rfl)
  have run := run.turn (.turn 0 ⟨.steady 0, .steady 4, none⟩ rfl (by decide) .none rfl)
  have run := run.turn (.turn 1 ⟨.steady 0, .steady 4, none⟩ rfl (by decide) .none rfl)
  have run := run.turn (.turn 2 ⟨.steady 0, .steady 4, none⟩ rfl (by decide) .none rfl)
  obtain ⟨s', hspec, hremoved, -⟩ := termination_leaves_no_trace documentedAppend_documented
    (MainState.start_documented (by decide)) run (.steady 0) (le_refl 1) (by decide)
    (rfl : _ = Except.ok (⟨4, pollin, pollin⟩ : Pollfd))
  exact ⟨_, _, run, rfl, rfl, s', hspec, hremoved⟩

end ChatRooms
