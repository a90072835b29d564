import ChatRooms.Framing
import ChatRooms.Server.Intake
import ChatRooms.Server.Names

/-!
# What one client can do to the others

An iteration of the main loop that comes to a client's entry changes nothing that belongs to another
user, and exits only for a reason that `StopReason` lists.

* `PollSizes` is what every run keeps of the poll array, also when an append loses its entry;
* `Iterated.othersKept`: the frame rule, the record and the entry of every other user stay;
* `iterate_of_safe`: as long as the length fields of the requests stay inside them, no iteration
  commits a fault, and what it ends with is `Explained`;
* `client_isolation` puts both together for every run, `client_stops_server` shows what is left.

An iteration may also not end, or end the process without an `exit`: a client that sends a part of a frame or
reads nothing makes everybody wait, and one that resets its connection at the wrong time has the process killed
by `SIGPIPE`.  `Explained` lists these outcomes with the others.
-/

namespace ChatRooms

/-! ## The sizes of the poll array -/

/-- There is one entry for each connected user and one more, also where an append has lost what it
wrote. -/
structure PollSizes (s : Server) : Prop where
  sizes : SoundSizes s.pollfds
  wf : s.pollfds.Wf
  len : s.pollfds.len = s.userTable.ids.length + 1

namespace PollSizes

theorem len_lt {s : Server} (h : PollSizes s) : s.pollfds.len < 2 ^ 32 := by
  have := h.sizes.bound
  omega

theorem connect {env : Env} {fd : Fd} {s s' : Server} (h : PollSizes s) (connected : Connected s')
    (handled : handleNewClient pollfdArrayAppend env (some fd) s = .ok (s', 0)) : PollSizes s' := by
  obtain ⟨_, pollfds, table', hfd, happ, hadd, rfl⟩ := handleNewClient_eq_zero handled
  cases hfd
  obtain ⟨-, name, -, -, husers⟩ := userTableAdd_eq_some hadd
  have hids : table'.ids.length = s.userTable.ids.length + 1 := by
    rw [UserTable.ids, husers, List.map_append, List.length_append]
    rfl
  have hlt : table'.ids.length < 2 ^ 31 := connected.length_ids_lt
  have hbound : s.pollfds.len < 2 ^ 31 := by
    have := h.len
    omega
  obtain ⟨hsizes, hwf, hlen⟩ := h.sizes.append_ok h.wf hbound happ
  exact ⟨hsizes, hwf, by rw [hlen, h.len, hids]⟩

theorem terminate {env : Env} {client : Fd} {i : ℕ} {s s' : Server} (h : PollSizes s)
    (agree : Agree s.rooms s.userTable)
    (handled : handleClientTermination env client i s = .ok (s', 0)) : PollSizes s' := by
  obtain ⟨hi, hc, rooms', table', rfl, -, hmem⟩ := handleClientTermination_eq_zero agree handled
  have hperm : table'.ids.Perm (s.userTable.ids.erase client) := by
    refine (List.perm_ext_iff_of_nodup table'.nodup (s.userTable.nodup.erase _)).2 fun fd => ?_
    change fd ∈ table'.ids ↔ fd ∈ s.userTable.ids.erase client
    rw [UserTable.mem_ids_iff_of_users hmem, UserTable.ids, s.userTable.nodup.mem_erase_iff, and_comm]
  have hids : table'.ids.length = s.userTable.ids.length - 1 :=
    hperm.length_eq.trans (List.length_erase_of_mem hc)
  have hpos : 0 < s.userTable.ids.length := List.length_pos_of_mem hc
  have hlen : (pollfdArrayDelete s.pollfds i env.realloc).1.len = s.pollfds.len - 1 := by
    rcases h.sizes.delete_cases i env.realloc with ⟨-, hle⟩ | ⟨-, -, hlen, -⟩
    · omega
    · exact hlen
  refine ⟨h.sizes.delete i env.realloc, (entries_delete h.wf hi h.len_lt env.realloc).1, ?_⟩
  change (pollfdArrayDelete s.pollfds i env.realloc).1.len = table'.ids.length + 1
  rw [hlen, h.len, hids]
  omega

theorem mainStep {s s' : MainState} {event : MainEvent} {effect : Effect} (h : PollSizes s.server)
    (connected : Connected s.server) (step : MainStep pollfdArrayAppend s event effect s') :
    PollSizes s'.server := by
  have connected' := connected.mainStep step
  cases step with
  | arrive fd bytes unended => exact h
  | finish fd ending unended => exact h
  | poll revents pc =>
    exact ⟨⟨h.sizes.capacity_eq, h.sizes.len_le, h.sizes.bound⟩,
      PollfdArray.wf_report h.wf revents, h.len⟩
  | turn i env pc inside fresh iterated =>
    obtain ⟨pfd, -, iter⟩ := iterated_of_next iterated
    cases iter with
    | hangup hup gone => exact h.terminate connected.agree gone
    | connected hup input listener accept added => exact h.connect connected' added
    | message hup input client recv success returned =>
      obtain rfl | ⟨user, -, -, rooms', user', -, -, -, rfl⟩ :=
        handleClientMessage_cases connected.agree success
      · exact h
      · refine ⟨h.sizes, h.wf, ?_⟩
        dsimp only
        rw [UserTable.ids_set]
        exact h.len
    | closed hup input client recv gone => exact h.terminate connected.agree gone
    | idle hup input => exact h
  | endPass i pc outside => exact h

end PollSizes

theorem MainInitial.pollSizes {s : MainState} (h : MainInitial pollfdArrayAppend s) :
    PollSizes s.server := by
  obtain ⟨heap, a, r, hinit, happ⟩ := h.server.pollfds
  have hsizes : SoundSizes a := (ArrayRun.init heap hinit).sound.1
  obtain ⟨hwf, hempty⟩ : a.Wf ∧ a.len = 0 := by
    unfold pollfdArrayInit at hinit
    split at hinit
    · cases hinit
      exact ⟨⟨by decide, List.length_replicate .., by decide⟩, rfl⟩
    · cases hinit
  obtain ⟨hsizes', hwf', hlen⟩ := hsizes.append_ok hwf (by rw [hempty]; decide) happ
  refine ⟨hsizes', hwf', ?_⟩
  rw [hlen, hempty, h.server.userTable]
  rfl

theorem Run.pollSizes {s₀ s : MainState} {trace : MainTrace} (h₀ : MainInitial pollfdArrayAppend s₀)
    (run : Run (MainStep pollfdArrayAppend) s₀ trace s) : PollSizes s.server :=
  (run.invariant (fun s => Connected s.server ∧ PollSizes s.server) ⟨h₀.connected, h₀.pollSizes⟩
    fun _ _ step h => ⟨h.1.mainStep step, h.2.mainStep h.1 step⟩).2

/-! ## The frame rule -/

/-- The records and the poll entries of everybody but one client are the same. -/
structure OthersKept (c : Fd) (s s' : Server) : Prop where
  users : ∀ {u : User}, u.id ≠ c → (u ∈ s'.userTable.users ↔ u ∈ s.userTable.users)
  entries : ∀ {pfd : Pollfd}, pfd.fd ≠ c → (pfd ∈ s'.pollfds.entries ↔ pfd ∈ s.pollfds.entries)

namespace OthersKept

theorem refl (c : Fd) (s : Server) : OthersKept c s s := ⟨fun _ => .rfl, fun _ => .rfl⟩

theorem message {env : Env} {client : Fd} {received : Received} {s s' : Server} {outs : List Output}
    {status : ℤ} (agree : Agree s.rooms s.userTable)
    (handled : handleClientMessage env client received s = .ok (some (s', outs, status))) :
    OthersKept client s s' := by
  rcases handleClientMessage_cases agree handled with rfl | ⟨user, hu, rfl, rooms', user', hid, -, -, rfl⟩
  · exact .refl _ _
  · refine ⟨fun {u} hne => ?_, fun _ => .rfl⟩
    rw [UserTable.mem_set, hid]
    constructor
    · rintro (⟨rfl, -⟩ | ⟨hmem, -⟩)
      · exact absurd hid hne
      · exact hmem
    · exact fun hmem => .inr ⟨hmem, hne⟩

theorem terminate {env : Env} {i : ℕ} {pfd : Pollfd} {s s' : Server}
    (agree : Agree s.rooms s.userTable) (sizes : PollSizes s) (hread : s.pollfds.read i = .ok pfd)
    (handled : handleClientTermination env pfd.fd i s = .ok (s', 0)) : OthersKept pfd.fd s s' := by
  obtain ⟨hi, -, rooms', table', rfl, -, hmem⟩ := handleClientTermination_eq_zero agree handled
  refine ⟨fun {u} hne => ?_, fun {other} hne => ?_⟩
  · rw [hmem]
    exact ⟨And.left, fun hu => ⟨hu, hne⟩⟩
  · obtain ⟨hlt, hcell⟩ := List.getElem?_eq_some_iff.1 ((PollfdArray.read_eq_ok hi).1 hread)
    obtain ⟨-, hentries⟩ := entries_delete sizes.wf hi sizes.len_lt env.realloc
    have hperm := cons_swapRemove_perm hlt
    dsimp only
    rw [hentries, ← hperm.mem_iff, List.mem_cons, hcell]
    have hother : other ≠ pfd := fun he => hne (by rw [he])
    exact ⟨.inr, fun h => h.resolve_left hother⟩

end OthersKept

/-- An iteration at the entry of a client changes at most what belongs to this client. -/
theorem Iterated.othersKept {append : Append} {turn : TurnEnv} {i : ℕ} {s s' : MainState} {pfd : Pollfd}
    {effect : Effect} (agree : Agree s.server.rooms s.server.userTable) (sizes : PollSizes s.server)
    (hread : s.server.pollfds.read i = .ok pfd) (client : pfd.fd ≠ s.server.listener)
    (h : Iterated append turn i s pfd s' effect) : OthersKept pfd.fd s.server s'.server := by
  cases h with
  | hangup hup gone => exact .terminate agree sizes hread gone
  | connected hup input listener accept added => exact absurd listener client
  | message hup input client recv success returned => exact .message agree success
  | closed hup input client recv gone => exact .terminate agree sizes hread gone
  | idle hup input => exact .refl _ _

/-! ## Requests -/

/-- The type of a received message. -/
def frameType (buf : Bytes) : MessageType := .ofCode (buf.getD 4 0)

theorem getMessageType_of_length {buf : Bytes} (hlen : 5 ≤ buf.length) :
    getMessageType buf = .ok (frameType buf) := by
  rw [getMessageType, sizeofTotalMsgLen, readByte_of_lt hlen]
  rfl

/-- A frame that the handler of its type can decode: the lengths it carries count bytes of the frame
and fit their fields, and the string that is stored or sent on ends inside them. -/
def SafeRequest (buf : Bytes) : Prop :=
  5 ≤ buf.length ∧
    match frameType buf with
    | .chat => ChatInBounds buf ∧ 0 ∈ textBytes buf
    | .name => StringInBounds nameSizeLimit buf ∧ 0 ∈ stringBytes buf
    | .join => 6 ≤ buf.length
    | .reply | .invalid => True

/-- A chat message cannot be sent on: there is no memory for its frame, or a receiver's socket fails. -/
def ChatStuck (env : Env) (receivers : List Fd) : Prop :=
  (∃ n ≤ 1105, env.heap.serves n = false) ∨ ∃ fd ∈ receivers, ∃ call, env.send fd call = .failed

theorem exists_failed_of_broadcastTo {env : Env} {msg : Message} {sendBuf : Bytes} {receivers : List Fd}
    (returned : Returned env (broadcastTo env msg sendBuf sendBuf.length receivers).1)
    (h : (broadcastTo env msg sendBuf sendBuf.length receivers).2 ≠ 0) :
    ∃ fd ∈ receivers, ∃ call, env.send fd call = .failed := by
  induction receivers with
  | nil => exact absurd rfl h
  | cons receiver receivers ih =>
    rw [broadcastTo] at returned h
    generalize hsend : sendall (env.send receiver) sendBuf sendBuf.length = result at returned h
    obtain ⟨sent, result⟩ := result
    cases result with
    | none =>
      have hreturns : (sendEnd (env.send receiver) sendBuf sendBuf.length).Returns :=
        returned _ List.mem_cons_self
      exact ⟨receiver, List.mem_cons_self, exists_failed_of_none hreturns (congrArg Prod.snd hsend)⟩
    | some n =>
      obtain ⟨fd, hfd, hcall⟩ := ih (fun out hout => returned out (List.mem_cons_of_mem _ hout)) h
      exact ⟨fd, List.mem_cons_of_mem _ hfd, hcall⟩

/-- A chat message that can be decoded is handled without a fault. -/
theorem handleChatMessage_of_safe (env : Env) {s : Server} (agree : Agree s.rooms s.userTable)
    (named : Named s.userTable) {user : User} (hu : user ∈ s.userTable.users) {buf : Bytes}
    (hbounds : ChatInBounds buf) (hnul : 0 ∈ textBytes buf) :
    ∃ outs status, handleChatMessage env buf user s.rooms = .ok (outs, status) ∧
      (Returned env outs → status = 0 ∨ ChatStuck env s.userTable.ids) := by
  by_cases hroom : user.room = invalidRoom
  · obtain ⟨outs, hspec, -⟩ := handleChatMessage_outside env s.rooms buf hroom
    exact ⟨outs, 0, hspec, fun _ => .inl rfl⟩
  · obtain ⟨msg, hdecode⟩ : (chatMessageDeserialize env.host buf env.locals.chat).Safe :=
      chatMessageDeserialize_safe_iff.2 hbounds
    have htext : Terminated msg.text := (textBytes_isPrefix hdecode).subset hnul
    obtain ⟨out, i, room, hterm, -, hcell, -, hspec⟩ :=
      handleChatMessage_inside env agree hu (named user hu) hroom hdecode htext
    by_cases hserves : env.heap.serves ((Message.chat out).content.frame env.host).length = true
    · rw [if_pos hserves] at hspec
      refine ⟨_, _, hspec, fun returned => ?_⟩
      by_cases hstatus : (broadcastTo env (.chat out) ((Message.chat out).content.frame env.host)
          ((Message.chat out).content.frame env.host).length room.members).2 = 0
      · exact .inl hstatus
      · -- The members of a room are connected users.
        obtain ⟨fd, hfd, hcall⟩ := exists_failed_of_broadcastTo returned hstatus
        rw [(agree.members hcell).mem_iff, UserTable.mem_inRoom] at hfd
        obtain ⟨v, hv, rfl, -⟩ := hfd
        exact .inr (.inr ⟨v.id, UserTable.mem_ids hv, hcall⟩)
    · rw [if_neg hserves] at hspec
      have hsize : ((Message.chat out).content.frame env.host).length ≤ 1105 := by
        have hbody := length_body_le env.host hterm.fits
        rw [Content.frame, length_frame]
        omega
      exact ⟨[], -1, hspec, fun _ => .inr (.inl ⟨_, hsize, Bool.eq_false_of_not_eq_true hserves⟩)⟩

/-- A name message that can be decoded is handled without a fault. -/
theorem handleNameMessage_of_safe (env : Env) (user : User) {buf : Bytes}
    (hbounds : StringInBounds nameSizeLimit buf) (hnul : 0 ∈ stringBytes buf) :
    ∃ user' outs, handleNameMessage env buf user = .ok (user', outs) := by
  obtain ⟨msg, hdecode⟩ := exists_decoded env.locals.name hbounds
  obtain ⟨name, outs, hspec, -⟩ :=
    handleNameMessage_decoded env user hdecode (cstr_of_decoded hnul hdecode).1
  exact ⟨_, outs, hspec⟩

/-- A request that can be decoded is handled without a fault; when every `sendall` returns, the handling fails
only when the type is none of a request, or the chat message cannot be sent on. -/
theorem handleClientMessage_of_safe (env : Env) {s : Server} (agree : Agree s.rooms s.userTable)
    (named : Named s.userTable) {user : User} (hu : user ∈ s.userTable.users) {buf : Bytes} (n : ℕ)
    (safe : SafeRequest buf) :
    ∃ server outs status,
      handleClientMessage env user.id (.message buf n) s = .ok (some (server, outs, status)) ∧
      (Returned env outs → status = 1 ∨ status = -1 ∧ (frameType buf = .reply ∨ frameType buf = .invalid ∨
        frameType buf = .chat ∧ ChatStuck env s.userTable.ids)) := by
  obtain ⟨hlen, hfields⟩ := safe
  have hfind : userTableFind s.userTable user.id = some user := userTableFind_eq_some.2 ⟨hu, rfl⟩
  have htype := getMessageType_of_length hlen
  simp only [handleClientMessage, hfind, htype, Checked.ok_bind]
  generalize frameType buf = type at hfields
  cases type with
  | chat =>
    obtain ⟨outs, status, hspec, hstatus⟩ :=
      handleChatMessage_of_safe env agree named hu hfields.1 hfields.2
    rw [hspec, Checked.ok_bind]
    by_cases hzero : status = 0
    · subst hzero
      exact ⟨s, outs, 1, rfl, fun _ => .inl rfl⟩
    · refine ⟨s, outs, -1, ?_, fun returned => .inr ⟨rfl, .inr (.inr ⟨rfl, ?_⟩)⟩⟩
      · show Except.ok (some (s, outs, if status ≠ 0 then (-1 : ℤ) else 1)) = _
        rw [if_pos hzero]
      · exact (hstatus returned).resolve_left hzero
  | name =>
    obtain ⟨user', outs, hspec⟩ := handleNameMessage_of_safe env user hfields.1 hfields.2
    rw [hspec]
    exact ⟨_, outs, 1, rfl, fun _ => .inl rfl⟩
  | join =>
    have hfive : 5 < buf.length := hfields
    have hroom : buf[5]? = some buf[5] := List.getElem?_eq_getElem hfive
    obtain ⟨rooms', user', outs, fmt, hspec, -⟩ := handleJoinMessage_spec env agree hu hroom
    rw [hspec]
    exact ⟨_, outs, 1, rfl, fun _ => .inl rfl⟩
  | reply => exact ⟨s, [.invalidType], -1, rfl, fun _ => .inr ⟨rfl, .inl rfl⟩⟩
  | invalid => exact ⟨s, [.invalidType], -1, rfl, fun _ => .inr ⟨rfl, .inr (.inl rfl)⟩⟩

/-! ## Iterations -/

/-- Why an iteration at the entry of a client can end the process: `recvall` gets no memory, the
client's socket fails, or the first frame is a chat message that cannot be sent on or of a type that
no request has. -/
inductive StopReason (turn : TurnEnv) (s : MainState) (c : Fd) : Prop
  | memory (refused : ¬ turn.recv.Serves (announced (s.streams c).pending))
  | socket (failed : (s.streams c).ending = .failed)
  | chat (frame : Bytes) (first : (frames.units (s.streams c).pending).head? = some frame)
      (type : frameType frame = .chat) (stuck : ChatStuck turn.env s.server.userTable.ids)
  | type (frame : Bytes) (first : (frames.units (s.streams c).pending).head? = some frame)
      (type : frameType frame = .reply ∨ frameType frame = .invalid)

/-- A descriptor that is written to for the first frame of a client: its own, or for a chat message one of a
connected user. -/
def Addressed (s : MainState) (c fd : Fd) : Prop :=
  fd = c ∨ fd ∈ s.server.userTable.ids ∧
    ∃ frame, (frames.units (s.streams c).pending).head? = some frame ∧ frameType frame = .chat

/-- The ways in which an iteration at the entry of a client ends, each with its cause: the process exits for a
`StopReason`; a receiver has reset its connection, and `SIGPIPE` kills the process; or the whole process waits, for
the rest of a frame of this client, or for a receiver that does not read. -/
inductive Explained (turn : TurnEnv) (s : MainState) (c : Fd) : Iteration → Prop
  | next (s' : MainState) (effect : Effect) : Explained turn s c (.next s' effect)
  | exited (outs : List Output) (reason : StopReason turn s c) : Explained turn s c (.exited outs)
  | killed (outs : List Output) (fd : Fd) (call : ℕ) (receiver : Addressed s c fd)
      (reset : turn.env.send fd call = .sigpipe) : Explained turn s c (.killed outs)
  | receiving (none : frames.units (s.streams c).pending = []) (unended : (s.streams c).ending = .open) :
      Explained turn s c .blocked
  | sending (fd : Fd) (call : ℕ) (receiver : Addressed s c fd) (full : turn.env.send fd call = .waits) :
      Explained turn s c .blocked

/-- A `sendall` for the first frame of a client that ended in some way has an answer and a receiver for it. -/
theorem exists_cause {s : MainState} (agree : Agree s.server.rooms s.server.userTable) {env : Env} {c : Fd}
    {frame : Bytes} {n : ℕ} {server : Server} {outs : List Output} {status : ℤ}
    (first : (frames.units (s.streams c).pending).head? = some frame)
    (handled : handleClientMessage env c (.message frame n) s.server = .ok (some (server, outs, status)))
    {out : Output} (hout : out ∈ outs) (unsent : out.sendEnd env ≠ .all) :
    ∃ fd, Addressed s c fd ∧ (out.sendEnd env).CausedBy (env.send fd) := by
  cases out with
  | truncated => exact absurd rfl unsent
  | invalidType => exact absurd rfl unsent
  | write fd msg sendBuf sent =>
    refine ⟨fd, ?_, sendEnd_causedBy _ _ _⟩
    rcases mem_handleClientMessage agree handled hout with ⟨hfd, -⟩ | ⟨-, htype, user, hu, hid, -⟩
    · exact .inl hfd
    · obtain ⟨byte, hbyte, hcode⟩ := getMessageType_eq_ok.1 htype
      refine .inr ⟨hid ▸ UserTable.mem_ids hu, frame, first, ?_⟩
      rw [frameType, List.getD_eq_getElem?_getD, hbyte]
      exact hcode

/-- When the queued requests of a client can be decoded, an iteration at its entry commits no fault, and what it
ends with is accounted for. -/
theorem iterate_of_safe {append : Append} {turn : TurnEnv} {i : ℕ} {s : MainState} {pfd : Pollfd}
    (connected : Connected s.server) (hi : i < s.server.pollfds.len)
    (hread : s.server.pollfds.read i = .ok pfd) (hc : pfd.fd ∈ s.server.userTable.ids)
    (whole : turn.recv.WholeHeader)
    (header : (s.streams pfd.fd).pending = [] ∨ 4 ≤ (s.streams pfd.fd).pending.length)
    (safe : ∀ frame ∈ frames.units (s.streams pfd.fd).pending, SafeRequest frame) :
    ∃ result, iterate append turn i s = .ok result ∧ Explained turn s pfd.fd result := by
  have hterminate : ∀ s' : MainState, s'.server = s.server → ∃ result,
      terminateAt turn pfd.fd i s' = .ok result ∧ Explained turn s pfd.fd result := by
    intro s' hserver
    obtain ⟨gone, hgone⟩ := terminateAt_user (s := s') (i := i) (c := pfd.fd) turn
      (by rw [hserver]; exact connected.agree) (by rw [hserver]; exact hc) (by rw [hserver]; exact hi)
    exact ⟨_, hgone, .next _ _⟩
  by_cases hup : pfd.revents &&& pollhup = 0
  · have hclient : pfd.fd ≠ s.server.listener := fun he => connected.listener (he ▸ hc)
    have hfront := recvall_front whole header
    rw [iterate, hread, Checked.ok_bind, if_neg (not_not.2 hup)]
    by_cases hin : pfd.revents &&& pollin = 0
    · rw [if_neg (not_not.2 hin)]
      exact ⟨_, rfl, .next _ _⟩
    · rw [if_pos hin, if_neg hclient]
      generalize recvall turn.recv (s.streams pfd.fd) = result at hfront
      obtain ⟨received, stream⟩ := result
      dsimp only at hfront ⊢
      cases hfront with
      | failed refused => exact ⟨_, rfl, .exited _ (.memory refused)⟩
      | ending none =>
        cases hending : (s.streams pfd.fd).ending with
        | «open» => exact ⟨_, rfl, .receiving none hending⟩
        | closed => exact hterminate _ rfl
        | reset => exact hterminate _ rfl
        | failed => exact ⟨_, rfl, .exited _ (.socket hending)⟩
      | block frame buf n first eq =>
        have hsafe := safe frame (List.mem_of_head? first)
        obtain rfl := eq hsafe.1
        obtain ⟨user, hu, hid⟩ := List.mem_map.1 hc
        obtain ⟨server, outs, status, hhandle, hstatus⟩ :=
          handleClientMessage_of_safe turn.env connected.agree connected.named hu n hsafe
        rw [hid] at hhandle
        have hcause := fun {out : Output} (hout : out ∈ outs) =>
          exists_cause connected.agree first hhandle hout
        rw [hhandle, Checked.ok_bind]
        dsimp only
        by_cases hkilled : Killed turn.env outs
        · rw [if_pos hkilled]
          obtain ⟨out, hout, hend⟩ := hkilled
          obtain ⟨fd, hfd, hcall⟩ := hcause hout (by rw [hend]; decide)
          rw [hend] at hcall
          obtain ⟨call, hsigpipe⟩ := hcall
          exact ⟨_, rfl, .killed outs fd call hfd hsigpipe⟩
        rw [if_neg hkilled]
        by_cases hreturned : Returned turn.env outs
        · rw [if_neg (not_not.2 hreturned)]
          rcases hstatus hreturned with rfl | ⟨rfl, htype⟩
          · exact ⟨_, rfl, .next _ _⟩
          · refine ⟨_, rfl, .exited _ ?_⟩
            rcases htype with hreply | hinvalid | ⟨hchat, hstuck⟩
            · exact .type _ first (.inl hreply)
            · exact .type _ first (.inr hinvalid)
            · exact .chat _ first hchat hstuck
        · rw [if_pos hreturned]
          obtain ⟨out, hout, hend⟩ : ∃ out ∈ outs, ¬ (out.sendEnd turn.env).Returns := by
            simpa [Returned] using hreturned
          obtain ⟨fd, hfd, hcall⟩ := hcause hout fun hall => hend (by rw [hall]; exact trivial)
          have hnone : out.sendEnd turn.env ≠ .killed := fun hend => hkilled ⟨out, hout, hend⟩
          generalize out.sendEnd turn.env = ending at hend hcall hnone
          cases ending with
          | all => exact absurd trivial hend
          | failed => exact absurd trivial hend
          | killed => exact absurd rfl hnone
          | waits =>
            obtain ⟨call, hwaits⟩ := hcall
            exact ⟨_, rfl, .sending fd call hfd hwaits⟩
  · rw [iterate_of_hangup hread hup]
    exact hterminate s rfl

/-- What the iterations at a client's entry do, in every run and whatever the client sent: one that
does not leave the loop keeps the record and the poll entry of every other user; and when the lengths
in the client's frames stay inside these and each header is there whole, an iteration commits no
fault, and where the process exits, is killed or waits, `Explained` says for what cause. -/
theorem client_isolation {s₀ s s' : MainState} {trace trace' : MainTrace} {c : Fd}
    (h₀ : MainInitial pollfdArrayAppend s₀) (before : Run (MainStep pollfdArrayAppend) s₀ trace s)
    (hc : c ∈ s.server.userTable.ids) (run : Run (MainStep pollfdArrayAppend) s trace' s')
    (stays : ∀ t ∈ trace', t.output ≠ .terminated c) {i : ℕ} {pfd : Pollfd}
    (inside : i < s'.server.pollfds.len) (hread : s'.server.pollfds.read i = .ok pfd)
    (hfd : pfd.fd = c) (turn : TurnEnv) :
    (∀ s'' effect, iterate pollfdArrayAppend turn i s' = .ok (.next s'' effect) →
      OthersKept c s'.server s''.server) ∧
    ((∀ t ∈ trace', handledFrom c t ≠ [] → WholeHeader t) → turn.recv.WholeHeader →
      ((s'.streams c).pending = [] ∨ 4 ≤ (s'.streams c).pending.length) →
      (∀ frame ∈ frames.units ((s.streams c).pending ++ trace'.flatMap (arrivedOn c)),
        SafeRequest frame) →
      ∃ result, iterate pollfdArrayAppend turn i s' = .ok result ∧ Explained turn s' c result) := by
  subst hfd
  have hconn := before.connected h₀
  obtain ⟨hconn', hc'⟩ := run.mem_ids hconn hc stays
  constructor
  · intro s'' effect hnext
    obtain ⟨pfd', hread', iter⟩ := iterated_of_next hnext
    rw [hread, Except.ok.injEq] at hread'
    subst hread'
    exact iter.othersKept hconn'.agree ((before.append run).pollSizes h₀) hread
      fun he => hconn'.listener (he ▸ hc')
  · intro whole hwhole header safe
    refine iterate_of_safe hconn' inside hread hc' hwhole header fun frame hframe => safe frame ?_
    rw [(run.takes_from hconn hc stays whole).units_eq]
    exact List.mem_append_right _ hframe

/-- The frame of the name `B`. -/
def nameFrame : Bytes := [0, 0, 0, 8, 1, 2, 66, 0]

set_option maxRecDepth 5000 in
/-- A client that shares its room with another one sends a name and half a frame: the iteration at its entry keeps
what belongs to the other one, and goes on. -/
theorem client_isolation_name : ∃ s trace s' effect, Run (MainStep pollfdArrayAppend) (.start 3) trace s ∧
    s.server.userTable.inRoom 2 = [4, 5] ∧ (s.streams 5).pending = nameFrame ++ [0, 0, 0, 6] ∧
    iterate pollfdArrayAppend ⟨.steady 0, .steady 6, none⟩ 2 s = .ok (.next s' effect) ∧
    OthersKept 5 s.server s'.server ∧
    Explained ⟨.steady 0, .steady 6, none⟩ s 5 (.next s' effect) := by
  obtain ⟨trace, before⟩ := run_twoMembers
  have empty : Run (MainStep pollfdArrayAppend) .twoMembers [] .twoMembers := .start
  have run := (((empty.turn (.arrive 5 (nameFrame ++ [0, 0, 0, 6]) rfl)).turn
    (.poll (fun i => if i = 2 then pollin else 0) rfl)).turn
    (.turn 0 ⟨.steady 0, .steady 6, none⟩ rfl (by decide) .none rfl)).turn
    (.turn 1 ⟨.steady 0, .steady 6, none⟩ rfl (by decide) .none rfl)
  have whole : (RecvEnv.steady 6).WholeHeader := by decide
  have hhead : frames.head (nameFrame ++ [0, 0, 0, 6]) = some 8 := rfl
  have hnone : frames.head [0, 0, 0, 6] = none := rfl
  have safe : ∀ frame ∈ frames.units (nameFrame ++ [0, 0, 0, 6]), SafeRequest frame := by
    rw [frames.units_of_some hhead]
    change ∀ frame ∈ nameFrame :: frames.units [0, 0, 0, 6], SafeRequest frame
    rw [frames.units_of_none hnone, List.forall_mem_singleton]
    refine ⟨by decide, (?_ : StringInBounds nameSizeLimit nameFrame ∧ 0 ∈ stringBytes nameFrame)⟩
    decide
  have keeps := client_isolation (c := 5) (i := 2) (MainState.start_initial (by decide)) before
    (by decide) run (Run.forall_concat (Run.forall_concat (Run.forall_concat (Run.forall_concat
      (fun _ h => nomatch h) nofun) nofun) nofun) nofun) (by decide) rfl rfl ⟨.steady 0, .steady 6, none⟩
  obtain ⟨result, hresult, haccounted⟩ := keeps.2
    (Run.forall_concat (Run.forall_concat (Run.forall_concat (Run.forall_concat (fun _ h => nomatch h)
      fun _ => trivial) fun _ => trivial) fun _ => whole) fun _ => whole) whole (.inr (Nat.le_add_left 4 8)) safe
  refine ⟨_, _, _, _, before.append run, rfl, rfl, rfl, keeps.1 _ _ rfl, ?_⟩
  cases hresult
  exact haccounted

/-- The state of a server with one client in which `main` comes to its entry and finds `bytes`. -/
def MainState.received (bytes : Bytes) : MainState where
  server := { MainState.oneClient.server with
    pollfds :=
      ⟨[⟨3, pollin, 0⟩, ⟨4, pollin, pollin⟩, ⟨0, 0, 0⟩, ⟨0, 0, 0⟩, ⟨0, 0, 0⟩], 2, initialCapacity⟩ }
  pc := .entry 1
  streams := Function.update MainState.oneClient.streams 4 ⟨bytes, .open⟩

theorem run_received (bytes : Bytes) :
    ∃ trace, Run (MainStep pollfdArrayAppend) (.start 3) trace (.received bytes) := by
  obtain ⟨trace, before, -⟩ := run_oneClient
  have idle : iterate pollfdArrayAppend ⟨.steady 0, .steady 6, none⟩ 0
      { MainState.received bytes with pc := .entry 0 } = .ok (.next (.received bytes) .idle) := rfl
  exact ⟨_, ((before.turn (.arrive 4 bytes rfl)).turn
    (.poll (fun i => if i = 1 then pollin else 0) rfl)).turn
    (.turn 0 _ rfl Nat.zero_lt_two .none idle)⟩

/-- The frame of the chat message `a`, sent by a client without a name. -/
def chatFrame : Bytes := [0, 0, 0, 19, 0, 0, 0, 0, 0, 0, 0, 0, 0, 1, 0, 0, 2, 97, 0]

set_option maxRecDepth 5000 in
/-- A member of a room sends a chat message and closes; sending it on to the sender fails. -/
theorem chat_stops_server : ∃ s trace, Run (MainStep pollfdArrayAppend) (.start 3) trace s ∧
    s.streams 4 = ⟨chatFrame, .closed⟩ ∧
      ∃ turn outs, iterate pollfdArrayAppend turn 1 s = .ok (.exited outs) := by
  obtain ⟨trace, before⟩ := run_received [0, 0, 0, 6, 3, 2]
  have joined := (before.turn
    (.turn 1 ⟨.steady 0, .steady 6, none⟩ rfl Nat.one_lt_two .none rfl)).turn (.endPass 2 rfl (by decide))
  have run := (((joined.turn (.arrive 4 chatFrame rfl)).turn (.finish 4 .closed rfl)).turn
    (.poll (fun i => if i = 1 then pollin else 0) rfl)).turn
    (.turn 0 ⟨.steady 0, .steady 6, none⟩ rfl Nat.zero_lt_two .none rfl)
  exact ⟨_, _, run, rfl, ⟨{ Env.steady 0 with send := fun _ _ => .failed }, .steady 6, none⟩, _, rfl⟩

set_option maxRecDepth 5000 in
/-- The frame of a name behind which a client has closed: another member of its room has sent a chat message in the
meantime, of which the client's own copy is answered by a reset. -/
theorem reset_kills_server : ∃ s trace, Run (MainStep pollfdArrayAppend) (.start 3) trace s ∧
    s.streams 5 = ⟨nameFrame, .closed⟩ ∧
      ∃ turn outs, iterate pollfdArrayAppend turn 2 s = .ok (.killed outs) := by
  obtain ⟨trace, before⟩ := run_twoMembers
  have arrived := (((before.turn (.arrive 4 chatFrame rfl)).turn (.arrive 5 nameFrame rfl)).turn
    (.finish 5 .closed rfl)).turn (.poll (fun i => if i = 0 then 0 else pollin) rfl)
  have run := (arrived.turn (.turn 0 ⟨.steady 0, .steady 6, none⟩ rfl (by decide) .none rfl)).turn
    (.turn 1 ⟨.steady 0, .steady 19, none⟩ rfl (by decide) .none rfl)
  exact ⟨_, _, run, rfl, ⟨{ Env.steady 0 with send := fun fd _ => if fd = 5 then .sigpipe else .accepted 1 },
    .steady 8, none⟩, _, rfl⟩

/-- A header that arrives in parts is completed by what the block held before. -/
def RecvEnv.stale : RecvEnv :=
  { RecvEnv.steady 6 with headerHeap := ⟨fun n => decide (0 < n), fun i => if i = 3 then 1 else 0⟩ }

/-- Bytes of a client that the process does not survive.  `main` calls `exit` on a frame of a type
that no request has, on a frame that there is no memory for, and when a chat message cannot be sent
on.  `SIGPIPE` kills it when it replies to a client that has gone.  A frame without a type, a name that is longer
than its frame, a name without an end and a part of a header lead outside a block.  And with a part of a frame it
waits. -/
theorem client_stops_server :
    (∀ bytes ∈ [[0, 0, 0, 5, 9], [0, 0, 0, 5, 4], [0, 0, 0, 6, 3, 2]],
      (∃ trace, Run (MainStep pollfdArrayAppend) (.start 3) trace (.received bytes)) ∧
        ∃ turn outs, iterate pollfdArrayAppend turn 1 (.received bytes) = .ok (.exited outs)) ∧
    (∃ s trace, Run (MainStep pollfdArrayAppend) (.start 3) trace s ∧
      s.streams 4 = ⟨chatFrame, .closed⟩ ∧
        ∃ turn outs, iterate pollfdArrayAppend turn 1 s = .ok (.exited outs)) ∧
    (∃ s trace, Run (MainStep pollfdArrayAppend) (.start 3) trace s ∧
      s.streams 5 = ⟨nameFrame, .closed⟩ ∧
        ∃ turn outs, iterate pollfdArrayAppend turn 2 s = .ok (.killed outs)) ∧
    (∀ bytes ∈ [[0, 0, 0, 4], [0, 0, 0, 9, 1, 255, 65, 65, 0], [0, 0, 0, 7, 1, 1, 65], [0]],
      (∃ trace, Run (MainStep pollfdArrayAppend) (.start 3) trace (.received bytes)) ∧
        ∃ turn fault, iterate pollfdArrayAppend turn 1 (.received bytes) = .error fault) ∧
    (∃ trace, Run (MainStep pollfdArrayAppend) (.start 3) trace (.received [0, 0, 0, 6, 3])) ∧
      iterate pollfdArrayAppend ⟨.steady 0, .steady 6, none⟩ 1 (.received [0, 0, 0, 6, 3]) = .ok .blocked := by
  refine ⟨fun bytes hbytes => ⟨run_received bytes, ?_⟩, chat_stops_server, reset_kills_server,
    fun bytes hbytes => ⟨run_received bytes, ?_⟩, run_received _, rfl⟩
  · simp only [List.mem_cons, List.not_mem_nil, or_false] at hbytes
    rcases hbytes with rfl | rfl | rfl
    · exact ⟨⟨.steady 0, .steady 6, none⟩, [.invalidType], rfl⟩
    · exact ⟨⟨.steady 0, .steady 6, none⟩, [.invalidType], rfl⟩
    · exact ⟨⟨.steady 0, { RecvEnv.steady 6 with bodyHeap := ⟨fun _ => false, fun _ => 0⟩ }, none⟩, [], rfl⟩
  · refine ⟨⟨{ Env.steady 0 with locals := .filled 65 }, .stale, none⟩, ?_⟩
    simp only [List.mem_cons, List.not_mem_nil, or_false] at hbytes
    rcases hbytes with rfl | rfl | rfl | rfl
    · exact ⟨_, rfl⟩
    · exact ⟨_, rfl⟩
    · exact ⟨_, rfl⟩
    · exact ⟨_, rfl⟩

end ChatRooms
