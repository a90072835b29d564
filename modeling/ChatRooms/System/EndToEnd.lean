import ChatRooms.System.Ends

/-!
# The system is a chat

Every run of the server with its clients, in any interleaving, is a run of the chat.  What a client has typed
goes through three hands: it is in the client's connection, in front of the server, or handled as a move of the
chat; and what the chat shows to a client is on its way to it, in front of it, or printed.

* `Upward` and `Downward` are the two conservation laws, for one client;
* `Accepted` is what ties the user table to the participants;
* `Synced` is the three of them, kept by every step of the system (`Synced.step`);
* `system_runs_chat` is what follows for every run;
* `system_receives`: no process is brought down by a message of another.
-/

namespace ChatRooms

/-- The moves that a turn of the system makes: the request is the one in the frame that is handled. -/
def SystemMoves {σ : Type} (t : SystemTurn σ) (part : ChatTrace ℕ) : Prop :=
  match t.output, t.event with
  | .server (.accepted _), _ => part.map Turn.event = [.connect t.before.accepted]
  | .server (.terminated fd), _ => part.map Turn.event = [.leave (t.before.conn fd)]
  | .server (.handled fd received _), .server (.turn _ turn) =>
    ∃ buf n msg r, received = .message buf n ∧ ClientFrame turn.env.host msg buf ∧ msg.request? = some r ∧
      part.map Turn.event = [.request (t.before.conn fd) r turn.env.clock]
  | _, _ => part = []

/-- And they are made in the chat whose participants the user table has. -/
def TableMoves (t : SystemTurn MainState) (part : ChatTrace ℕ) : Prop :=
  SystemMoves t part ∧ ∀ move ∈ part, Represents t.before.conn t.before.server.server.userTable move.before

/-! ## The conservation laws -/

/-- The participants are the connections that were accepted and have not been lost. -/
structure Accepted (sys : ChatSystem MainState) (chat : Chat ℕ) : Prop where
  connected : Connected sys.server.server
  users : Represents sys.conn sys.server.server.userTable chat
  numbered : ∀ fd ∈ sys.server.server.userTable.ids, sys.conn fd < sys.accepted

/-- Different descriptors of users belong to different clients. -/
theorem Accepted.inj {sys : ChatSystem MainState} {chat : Chat ℕ} (h : Accepted sys chat) {fd fd' : Fd}
    (hfd : fd ∈ sys.server.server.userTable.ids) (hfd' : fd' ∈ sys.server.server.userTable.ids)
    (hconn : sys.conn fd = sys.conn fd') : fd = fd' := by
  obtain ⟨u, hu, rfl⟩ := List.mem_map.1 hfd
  obtain ⟨v, hv, rfl⟩ := List.mem_map.1 hfd'
  exact h.users.inj u hu v hv hconn

/-- The way of a client's messages to the server: those sent, and the requests that have been handled. -/
structure Upward (host : ByteOrder) (sys : ChatSystem MainState) (c : ℕ) (sent : List Message)
    (asked : List ChatRequest) :
    Prop where
  whole : ∀ msg ∈ sent, msg.Terminated ∧ msg.content.type ≠ .reply
  new : sys.accepted ≤ c → asked = [] ∧ Carries (Message.frame host) sent [] (sys.peer c).toServer
  current : ∀ fd ∈ sys.server.server.userTable.ids, sys.conn fd = c → ∃ read,
    Carries (Message.frame host) sent read ((sys.server.streams fd).pending ++ (sys.peer c).toServer) ∧
      asked = read.filterMap Message.request?
  handled : asked <+: sent.filterMap Message.request?

/-- The way back to a client: what the chat has shown to it, and what it has printed. -/
structure Downward (host : ByteOrder) (peer : Peer) (shown printed : List Printed) : Prop where
  fits : ∀ p ∈ shown, p.content.Fits ∧ p.content.TimestampFits
  carried : peer.main.pc ≠ .exited →
    Carries (Printed.frame host) shown printed (peer.main.connection.pending ++ peer.toClient)
  printed : printed <+: shown

/-- A run of the system and the run of the chat that it is. -/
structure Synced (host : ByteOrder) (trace : SystemTrace MainState) (sys : ChatSystem MainState)
    (chatTrace : ChatTrace ℕ)
    (chat : Chat ℕ) : Prop where
  accepted : Accepted sys chat
  upward : ∀ c, Upward host sys c (sentBy c trace) (requestsOf c chatTrace)
  downward : ∀ c, Downward host (sys.peer c) (shownTo c chatTrace) (printedBy c trace)

/-- A turn of the system is a part of a run of the chat. -/
def Extended (host : ByteOrder) (trace : SystemTrace MainState) (chatTrace : ChatTrace ℕ) (chat : Chat ℕ)
    (t : SystemTurn MainState) :
    Prop :=
  ∃ part chat', Run (ChatStep numRooms maxUsersPerRoom) chat part chat' ∧ TableMoves t part ∧
    Synced host (trace ++ [t]) t.after (chatTrace ++ part) chat'

/-- A turn that makes no move. -/
theorem TableMoves.none {t : SystemTurn MainState} (h : SystemMoves t []) : TableMoves t [] :=
  ⟨h, fun _ hmove => absurd hmove List.not_mem_nil⟩

/-- A turn that makes one move. -/
theorem Accepted.moves {t : SystemTurn MainState} {move : ChatTurn ℕ} (h : Accepted t.before move.before)
    (hmove : SystemMoves t [move]) : TableMoves t [move] := by
  refine ⟨hmove, fun _ hmem => ?_⟩
  obtain rfl := List.mem_singleton.1 hmem
  exact h.users

/-! ## The way to the server -/

namespace Upward

variable {host : ByteOrder} {sys sys' : ChatSystem MainState} {c : ℕ} {sent : List Message} {asked : List ChatRequest}

/-- A step that leaves the bytes of the client where they are. -/
theorem congr (h : Upward host sys c sent asked) (hnew : sys.accepted ≤ sys'.accepted)
    (htoServer : (sys'.peer c).toServer = (sys.peer c).toServer)
    (hcurrent : ∀ fd ∈ sys'.server.server.userTable.ids, sys'.conn fd = c →
      (fd ∈ sys.server.server.userTable.ids ∧ sys.conn fd = c) ∧
        (sys'.server.streams fd).pending = (sys.server.streams fd).pending) :
    Upward host sys' c sent asked where
  whole := h.whole
  new hc := by
    rw [htoServer]
    exact h.new (hnew.trans hc)
  current fd hfd hconn := by
    obtain ⟨⟨hold, hconn⟩, hpending⟩ := hcurrent fd hfd hconn
    rw [hpending, htoServer]
    exact h.current fd hold hconn
  handled := h.handled

/-- The client is accepted, under a descriptor that has nothing to read yet. -/
theorem accept (h : Upward host sys c sent asked) (hc : sys.accepted ≤ c) (hnew : c < sys'.accepted)
    (htoServer : (sys'.peer c).toServer = (sys.peer c).toServer)
    (hcurrent : ∀ fd ∈ sys'.server.server.userTable.ids, sys'.conn fd = c →
      (sys'.server.streams fd).pending = []) :
    Upward host sys' c sent asked where
  whole := h.whole
  new hle := absurd hnew (Nat.not_lt.2 hle)
  current fd hfd hconn := by
    obtain ⟨hasked, hcarries⟩ := h.new hc
    rw [hcurrent fd hfd hconn, htoServer]
    exact ⟨[], hcarries, hasked⟩
  handled := h.handled

/-- The client sends messages. -/
theorem send (h : Upward host sys c sent asked) {msgs : List Message}
    (hwhole : ∀ msg ∈ msgs, msg.Terminated ∧ msg.content.type ≠ .reply)
    (haccepted : sys'.accepted = sys.accepted) (hconn : sys'.conn = sys.conn) (hserver : sys'.server = sys.server)
    (htoServer : (sys'.peer c).toServer = (sys.peer c).toServer ++ msgs.flatMap (Message.frame host)) :
    Upward host sys' c (sent ++ msgs) asked where
  whole := List.forall_mem_append.2 ⟨h.whole, hwhole⟩
  new hc := by
    rw [haccepted] at hc
    rw [htoServer]
    exact ⟨(h.new hc).1, (h.new hc).2.write msgs⟩
  current fd hfd hc := by
    rw [hserver] at hfd ⊢
    rw [hconn] at hc
    obtain ⟨read, hcarries, hasked⟩ := h.current fd hfd hc
    refine ⟨read, ?_, hasked⟩
    rw [htoServer, ← List.append_assoc]
    exact hcarries.write msgs
  handled := by
    rw [List.filterMap_append]
    exact h.handled.trans (List.prefix_append _ _)

/-- The message that the server takes from the client is the first that has not been handled. -/
theorem taken (h : Upward host sys c sent asked) {client : Fd} (hmem : client ∈ sys.server.server.userTable.ids)
    (hconn : sys.conn client = c) {env : RecvEnv} (header : env.HeaderWhole (sys.server.streams client))
    {buf : Bytes} {n : ℕ} {stream : Stream}
    (recv : recvall env (sys.server.streams client) = (.message buf n, stream)) :
    ∃ read msg, ClientFrame host msg buf ∧ asked = read.filterMap Message.request? ∧
      Carries (Message.frame host) sent (read ++ [msg]) (stream.pending ++ (sys.peer c).toServer) := by
  obtain ⟨read, hcarries, hasked⟩ := h.current client hmem hconn
  have hfits : ∀ msg ∈ sent, msg.content.Fits := fun msg hmsg => (h.whole msg hmsg).1.fits
  rcases recvall_carried hcarries hfits header with ⟨msg, pending, hmsg, hfront, hrest⟩ | hnothing
  · rw [recv, Prod.mk.injEq] at hfront
    obtain ⟨hbuf, rfl⟩ := hfront
    cases hbuf
    obtain ⟨hterm, hkind⟩ := h.whole msg hmsg
    exact ⟨read, msg, ⟨hterm, hkind, .steady, _, serialize_eq host .steady msg hterm⟩, hasked, hrest⟩
  · exact absurd (congrArg Prod.fst recv) (hnothing buf n)

/-- The message that was taken is handled. -/
theorem handle (h : Upward host sys c sent asked) {client : Fd} {read : List Message} {msg : Message} {r : ChatRequest}
    (hcarries : Carries (Message.frame host) sent (read ++ [msg])
      ((sys'.server.streams client).pending ++ (sys'.peer c).toServer))
    (hasked : asked = read.filterMap Message.request?) (hr : msg.request? = some r) (hnew : c < sys'.accepted)
    (honly : ∀ fd ∈ sys'.server.server.userTable.ids, sys'.conn fd = c → fd = client) :
    Upward host sys' c sent (asked ++ [r]) := by
  have hall : asked ++ [r] = (read ++ [msg]).filterMap Message.request? := by
    rw [List.filterMap_append, hasked]
    simp [hr]
  constructor
  · exact h.whole
  · exact fun hle => absurd hnew (Nat.not_lt.2 hle)
  · intro fd hfd hconn
    obtain rfl := honly fd hfd hconn
    exact ⟨_, hcarries, hall⟩
  · rw [hall]
    exact hcarries.isPrefix.filterMap _

/-- Bytes of the client arrive. -/
theorem arrive (h : Upward host sys c sent asked) {client : Fd} (hmem : client ∈ sys.server.server.userTable.ids)
    (hconn : sys.conn client = c) (hnew : c < sys'.accepted)
    (honly : ∀ fd ∈ sys'.server.server.userTable.ids, sys'.conn fd = c → fd = client)
    (hbytes : (sys'.server.streams client).pending ++ (sys'.peer c).toServer =
      (sys.server.streams client).pending ++ (sys.peer c).toServer) : Upward host sys' c sent asked where
  whole := h.whole
  new hle := absurd hnew (Nat.not_lt.2 hle)
  current fd hfd hc := by
    obtain rfl := honly fd hfd hc
    rw [hbytes]
    exact h.current fd hmem hconn
  handled := h.handled

end Upward

/-! ## The way to a client -/

namespace Downward

variable {host : ByteOrder} {peer peer' : Peer} {shown printed : List Printed}

theorem congr (h : Downward host peer shown printed) (hpc : peer'.main.pc ≠ .exited → peer.main.pc ≠ .exited)
    (hbytes : peer'.main.connection.pending ++ peer'.toClient = peer.main.connection.pending ++ peer.toClient) :
    Downward host peer' shown printed where
  fits := h.fits
  carried hrunning := by
    rw [hbytes]
    exact h.carried (hpc hrunning)
  printed := h.printed

/-- More is shown to the client. -/
theorem more (h : Downward host peer shown printed) {ps : List Printed}
    (hfits : ∀ p ∈ ps, p.content.Fits ∧ p.content.TimestampFits) (hmain : peer'.main = peer.main)
    (htoClient : peer'.toClient = peer.toClient ++ ps.flatMap (Printed.frame host)) :
    Downward host peer' (shown ++ ps) printed where
  fits := List.forall_mem_append.2 ⟨h.fits, hfits⟩
  carried hrunning := by
    rw [hmain] at hrunning ⊢
    rw [htoClient, ← List.append_assoc]
    exact (h.carried hrunning).write ps
  printed := h.printed.trans (List.prefix_append _ _)

end Downward

/-! ## Steps of the server -/

section Server

variable {host : ByteOrder} {sys : ChatSystem MainState} {s : MainState} {trace : SystemTrace MainState}
  {chatTrace : ChatTrace ℕ}
  {chat : Chat ℕ}

/-- A step of the server that changes no connection. -/
theorem Synced.still (h : Synced host trace sys chatTrace chat) (event : MainEvent) (connected : Connected s.server)
    (htable : s.server.userTable = sys.server.server.userTable)
    (hpending : ∀ fd, (s.streams fd).pending = (sys.server.streams fd).pending) :
    Extended host trace chatTrace chat ⟨sys, .server event, .server .idle, { sys with server := s }⟩ := by
  refine ⟨[], chat, .start, .none rfl, ⟨connected, ?_, ?_⟩, fun c => ?_, fun c => ?_⟩
  · rw [htable]
    exact h.accepted.users
  · rw [htable]
    exact h.accepted.numbered
  · simp only [sentBy_concat, sentIn, List.append_nil]
    refine (h.upward c).congr le_rfl rfl ?_
    intro fd hfd hconn
    rw [htable] at hfd
    exact ⟨⟨hfd, hconn⟩, hpending fd⟩
  · simp only [printedBy_concat, printedIn, List.append_nil]
    exact h.downward c

/-- A client leaves. -/
theorem Synced.leave (h : Synced host trace sys chatTrace chat) (event : MainEvent) (connected : Connected s.server)
    {env : Env} {client : Fd} {i : ℕ}
    (gone : handleClientTermination env client i sys.server.server = .ok (s.server, 0))
    (hstreams : ∀ fd, fd ≠ client → s.streams fd = sys.server.streams fd) :
    Extended host trace chatTrace chat
      ⟨sys, .server event, .server (.terminated client), { sys with server := s }⟩ := by
  have hagree := h.accepted.connected.agree
  obtain ⟨chat', hmove, hrep⟩ := terminated_chatStep hagree h.accepted.users gone
  obtain ⟨-, -, rooms, table, hserver, -, hrest⟩ := handleClientTermination_eq_zero hagree gone
  have hids : ∀ fd ∈ s.server.userTable.ids, fd ∈ sys.server.server.userTable.ids ∧ fd ≠ client := by
    rw [hserver]
    intro fd hfd
    obtain ⟨u, hu, rfl⟩ := List.mem_map.1 hfd
    exact ⟨UserTable.mem_ids ((hrest u).1 hu).1, ((hrest u).1 hu).2⟩
  refine ⟨[⟨chat, _, _, chat'⟩], chat', Run.start.turn hmove, h.accepted.moves rfl,
    ⟨connected, hrep, fun fd hfd => ?_⟩, fun c => ?_, fun c => ?_⟩
  · exact h.accepted.numbered fd (hids fd hfd).1
  · simp only [sentBy_concat, sentIn, List.append_nil, requestsOf_concat, requestIn]
    refine (h.upward c).congr le_rfl rfl ?_
    intro fd hfd hconn
    exact ⟨⟨(hids fd hfd).1, hconn⟩, by rw [hstreams fd (hids fd hfd).2]⟩
  · simp only [printedBy_concat, printedIn, List.append_nil, shownTo_concat]
    exact h.downward c

/-- A new descriptor comes behind those of the other users. -/
theorem ids_of_added {append : Append} {env : Env} {fd : Fd} {s s' : Server}
    (added : handleNewClient append env (some fd) s = .ok (s', 0)) :
    fd ∉ s.userTable.ids ∧ s'.userTable.ids = s.userTable.ids ++ [fd] := by
  obtain ⟨_, pollfds, table, hfd, -, hadd, rfl⟩ := handleNewClient_eq_zero added
  cases hfd
  obtain ⟨hfresh, name, -, -, husers⟩ := userTableAdd_eq_some hadd
  exact ⟨hfresh, by simp [UserTable.ids, husers]⟩

/-- A client is accepted. -/
theorem Synced.accept (h : Synced host trace sys chatTrace chat) (event : MainEvent) (connected : Connected s.server)
    {env : Env} {fd : Fd}
    (added : handleNewClient pollfdArrayAppend env (some fd) sys.server.server = .ok (s.server, 0))
    (hstreams : s.streams = Function.update sys.server.streams fd ⟨[], .open⟩) :
    Extended host trace chatTrace chat
      ⟨sys, .server event, .server (.accepted (some fd)), sys.served s (.accepted (some fd))⟩ := by
  obtain ⟨hfresh, happend⟩ := ids_of_added added
  have hids : ∀ v ∈ s.server.userTable.ids, v ∈ sys.server.server.userTable.ids ∧ v ≠ fd ∨ v = fd := by
    rw [happend]
    intro v hv
    rcases List.mem_append.1 hv with hv | hv
    · exact .inl ⟨hv, fun he => hfresh (he ▸ hv)⟩
    · exact .inr (List.mem_singleton.1 hv)
  have hconn : ∀ v, v ≠ fd → Function.update sys.conn fd sys.accepted v = sys.conn v :=
    fun v hv => Function.update_of_ne hv _ _
  have hself : Function.update sys.conn fd sys.accepted fd = sys.accepted := Function.update_self _ _ _
  obtain ⟨chat', hmove, hrep⟩ := connected_chatStep h.accepted.users added
    (Function.update sys.conn fd sys.accepted)
    (fun u hu => hconn u.id fun he => hfresh (he ▸ UserTable.mem_ids hu))
    (fun u hu => by
      rw [hself]
      exact (h.accepted.numbered u.id (UserTable.mem_ids hu)).ne)
  rw [hself] at hmove
  refine ⟨[⟨chat, _, _, chat'⟩], chat', Run.start.turn hmove, h.accepted.moves rfl,
    ⟨connected, hrep, fun v hv => ?_⟩, fun c => ?_, fun c => ?_⟩
  · change Function.update sys.conn fd sys.accepted v < sys.accepted + 1
    rcases hids v hv with ⟨hold, hne⟩ | rfl
    · rw [hconn v hne]
      exact (h.accepted.numbered v hold).trans (Nat.lt_succ_self _)
    · rw [hself]
      exact Nat.lt_succ_self _
  · simp only [sentBy_concat, sentIn, List.append_nil, requestsOf_concat, requestIn]
    by_cases hc : c = sys.accepted
    · subst hc
      refine (h.upward _).accept le_rfl (Nat.lt_succ_self _) rfl ?_
      intro v hv (hvc : Function.update sys.conn fd sys.accepted v = _)
      rcases hids v hv with ⟨hold, hne⟩ | rfl
      · rw [hconn v hne] at hvc
        exact absurd hvc (h.accepted.numbered v hold).ne
      · simp [ChatSystem.served, hstreams]
    · refine (h.upward c).congr (Nat.le_succ _) rfl ?_
      intro v hv (hvc : Function.update sys.conn fd sys.accepted v = c)
      rcases hids v hv with ⟨hold, hne⟩ | rfl
      · rw [hconn v hne] at hvc
        exact ⟨⟨hold, hvc⟩, by simp [ChatSystem.served, hstreams, hne]⟩
      · rw [hself] at hvc
        exact absurd hvc.symm hc
  · simp only [printedBy_concat, printedIn, List.append_nil, shownTo_concat]
    exact h.downward c

/-- A message is handled. -/
theorem Synced.handle (h : Synced host trace sys chatTrace chat) {turn : TurnEnv} {i : ℕ} {client : Fd} {buf : Bytes}
    {n : ℕ} {outs : List Output} {stream : Stream} (connected : Connected s.server)
    (hhost : turn.env.host = host) (serving : Serving turn.env)
    (hnow : 0 ≤ turn.env.clock.toInt ∧ turn.env.clock.toInt < 2 ^ 32)
    (header : turn.recv.HeaderWhole (sys.server.streams client))
    (recv : recvall turn.recv (sys.server.streams client) = (.message buf n, stream))
    (success : handleClientMessage turn.env client (.message buf n) sys.server.server = .ok (some (s.server, outs, 1)))
    (hstreams : s.streams = Function.update sys.server.streams client stream) :
    Extended host trace chatTrace chat
      ⟨sys, .server (.turn i turn), .server (.handled client (.message buf n) outs),
        sys.served s (.handled client (.message buf n) outs)⟩ := by
  subst hhost
  have hstep : Step pollfdArrayAppend sys.server.server (turn.env, .message client (.message buf n)) outs s.server :=
    .message _ _ _ success (by decide) (returned_of_accepted serving.send outs)
  have hids : s.server.userTable.ids = sys.server.server.userTable.ids := by
    cases (hstep.connections h.accepted.connected.agree).2 with
    | kept _ _ ids openFds => exact ids
  obtain ⟨user, hfind⟩ := exists_sender success (by decide)
  have hclient : client ∈ sys.server.server.userTable.ids := by
    obtain ⟨hu, rfl⟩ := userTableFind_eq_some.1 hfind
    exact UserTable.mem_ids hu
  obtain ⟨read, msg, hframe, hasked, hcarries⟩ := (h.upward _).taken hclient rfl header recv
  obtain ⟨r, hr⟩ := hframe.request
  obtain ⟨shown, chat', hmove, hrep, hshows⟩ := message_chatStep serving h.accepted.connected.agree
    h.accepted.connected.named h.accepted.users hframe success (by decide) hr
  refine ⟨[⟨chat, _, _, chat'⟩], chat', Run.start.turn hmove,
    h.accepted.moves ⟨buf, n, msg, r, rfl, hframe, hr, rfl⟩, ⟨connected, hrep, fun fd hfd => ?_⟩, fun c => ?_,
    fun c => ?_⟩
  · exact h.accepted.numbered fd (hids ▸ hfd)
  · simp only [sentBy_concat, sentIn, List.append_nil, requestsOf_concat, requestIn]
    by_cases hc : sys.conn client = c
    · subst hc
      rw [if_pos rfl]
      have hstream : s.streams client = stream := by rw [hstreams, Function.update_self]
      rw [← hstream] at hcarries
      refine (h.upward _).handle hcarries hasked hr (h.accepted.numbered client hclient) ?_
      intro fd hfd hconn
      exact h.accepted.inj (hids ▸ hfd) hclient hconn
    · rw [if_neg hc, List.append_nil]
      refine (h.upward c).congr le_rfl rfl ?_
      intro fd hfd hconn
      have hne : fd ≠ client := by
        rintro rfl
        exact hc hconn
      exact ⟨⟨hids ▸ hfd, hconn⟩, by simp [ChatSystem.served, hstreams, hne]⟩
  · simp only [printedBy_concat, printedIn, List.append_nil, shownTo_concat]
    apply (h.downward c).more
    · exact fun p hp => ⟨((hshows c).2 p hp).1, ((hshows c).2 p hp).2 hnow⟩
    · rfl
    · rw [List.flatMap_def, ← (hshows c).1]
      rfl

/-- Bytes of a client arrive at the server. -/
theorem Synced.arrive (h : Synced host trace sys chatTrace chat) {fd : Fd} {bytes rest : Bytes}
    (hfd : fd ∈ sys.server.server.userTable.ids) (front : (sys.peer (sys.conn fd)).toServer = bytes ++ rest)
    (hserver : s.server = sys.server.server)
    (hstreams : s.streams =
      Function.update sys.server.streams fd ⟨(sys.server.streams fd).pending ++ bytes, .open⟩) :
    Extended host trace chatTrace chat ⟨sys, .server (.arrive fd bytes), .server .idle,
      { sys with server := s }.withPeer (sys.conn fd) { sys.peer (sys.conn fd) with toServer := rest }⟩ := by
  refine ⟨[], chat, .start, .none rfl, ⟨?_, ?_, ?_⟩, fun c => ?_, fun c => ?_⟩
  · exact hserver ▸ h.accepted.connected
  · exact hserver ▸ h.accepted.users
  · exact hserver ▸ h.accepted.numbered
  · simp only [sentBy_concat, sentIn, List.append_nil]
    by_cases hc : c = sys.conn fd
    · subst hc
      refine (h.upward _).arrive hfd rfl (h.accepted.numbered fd hfd) ?_ ?_
      · intro v hv hconn
        exact h.accepted.inj (hserver ▸ hv) hfd hconn
      · simp [ChatSystem.withPeer, hstreams, front]
    · refine (h.upward c).congr le_rfl ?_ ?_
      · simp [ChatSystem.withPeer, hc]
      · intro v hv hconn
        have hne : v ≠ fd := by
          rintro rfl
          exact hc hconn.symm
        exact ⟨⟨hserver ▸ hv, hconn⟩, by simp [ChatSystem.withPeer, hstreams, hne]⟩
  · simp only [printedBy_concat, printedIn, List.append_nil]
    apply (h.downward c).congr
    · by_cases hc : c = sys.conn fd <;> simp [ChatSystem.withPeer, hc]
    · by_cases hc : c = sys.conn fd <;> simp [ChatSystem.withPeer, hc]

end Server

/-! ## Steps of a client -/

section Client

variable {host : ByteOrder} {s s' : ClientMain} {event : ClientMainEvent} {effect : ClientEffect}

/-- The bytes that a step hands to the connection are the frames of the messages that it sends. -/
theorem ClientMainStep.sends (step : ClientMainStep s event effect s') (reliable : ClientReliable host s event) :
    effect.bytes = effect.messages.flatMap (Message.frame host) ∧
      ∀ msg ∈ effect.messages, msg.Terminated ∧ msg.content.type ≠ .reply := by
  have nothing : ∀ msg ∈ ([] : List Message), msg.Terminated ∧ msg.content.type ≠ .reply :=
    fun msg hmsg => absurd hmsg List.not_mem_nil
  cases step with
  | arrive source bytes unended => exact ⟨rfl, nothing⟩
  | finish source ending unended => exact ⟨rfl, nothing⟩
  | poll revents pc => exact ⟨rfl, nothing⟩
  | turn i turn pc inside iterated =>
    obtain ⟨rfl, hsend, -⟩ := reliable
    exact clientIterate_sends hsend iterated
  | endPass i pc outside => exact ⟨rfl, nothing⟩

/-- What a client does by itself prints what is in front of it. -/
theorem ClientMainStep.prints (step : ClientMainStep s event effect s') (own : event.Own)
    (reliable : ClientReliable host s event) {toServer toServer' toClient : Bytes} {shown printed : List Printed}
    (h : Downward host ⟨s, toServer, toClient⟩ shown printed) :
    Downward host ⟨s', toServer', toClient⟩ shown (printed ++ effect.printed) := by
  cases step with
  | arrive source bytes unended =>
    cases source with
    | connection => exact absurd own id
    | stdin =>
      simp only [ClientEffect.printed, List.append_nil]
      exact h.congr id rfl
  | finish source ending unended =>
    cases source with
    | connection => exact absurd own id
    | stdin =>
      simp only [ClientEffect.printed, List.append_nil]
      exact h.congr id rfl
  | poll revents pc =>
    simp only [ClientEffect.printed, List.append_nil]
    refine h.congr (fun _ => ?_) rfl
    simp [pc]
  | turn i turn pc inside iterated =>
    obtain ⟨rfl, -, header⟩ := reliable
    have hcarries := h.carried (by simp [pc])
    obtain ⟨hshown, hrest⟩ := clientIterate_prints iterated header hcarries h.fits
    exact ⟨h.fits, hrest, hshown⟩
  | endPass i pc outside =>
    simp only [ClientEffect.printed, List.append_nil]
    refine h.congr (fun _ => ?_) rfl
    simp [pc]

/-- A step of a client. -/
theorem Synced.client {sys : ChatSystem MainState} {trace : SystemTrace MainState} {chatTrace : ChatTrace ℕ}
    {chat : Chat ℕ}
    (h : Synced host trace sys chatTrace chat) (c : ℕ) (event : ClientMainEvent) (effect : ClientEffect) {peer : Peer}
    (hupward : Upward host (sys.withPeer c peer) c (sentBy c trace ++ effect.messages) (requestsOf c chatTrace))
    (hdownward : Downward host peer (shownTo c chatTrace) (printedBy c trace ++ effect.printed)) :
    Extended host trace chatTrace chat ⟨sys, .client c event, .client effect, sys.withPeer c peer⟩ := by
  refine ⟨[], chat, .start, .none rfl, ⟨?_, ?_, ?_⟩, fun d => ?_, fun d => ?_⟩
  · exact h.accepted.connected
  · exact h.accepted.users
  · exact h.accepted.numbered
  · simp only [sentBy_concat, sentIn, List.append_nil]
    by_cases hd : c = d
    · subst hd
      rw [if_pos rfl]
      exact hupward
    · rw [if_neg hd, List.append_nil]
      refine (h.upward d).congr le_rfl ?_ ?_
      · simp [ChatSystem.withPeer, Ne.symm hd]
      · exact fun fd hfd hconn => ⟨⟨hfd, hconn⟩, rfl⟩
  · simp only [printedBy_concat, printedIn, List.append_nil]
    by_cases hd : c = d
    · subst hd
      rw [if_pos rfl]
      simpa [ChatSystem.withPeer] using hdownward
    · rw [if_neg hd, List.append_nil]
      simpa [ChatSystem.withPeer, Ne.symm hd] using h.downward d

end Client

/-! ## Messages that arrive -/

section Receiving

variable {host : ByteOrder} {sys : ChatSystem MainState} {trace : SystemTrace MainState} {chatTrace : ChatTrace ℕ}
  {chat : Chat ℕ}

/-- The server handles a message that it takes from a connected client. -/
theorem Synced.serves (h : Synced host trace sys chatTrace chat) {turn : TurnEnv} {i : ℕ} {pfd : Pollfd}
    (hread : sys.server.server.pollfds.read i = .ok pfd) (hup : pfd.revents &&& pollhup = 0)
    (input : pfd.revents &&& pollin ≠ 0) (hmem : pfd.fd ∈ sys.server.server.userTable.ids)
    (reliable : (mainLoop host).Reliable sys.server (.turn i turn)) {buf : Bytes} {n : ℕ} {stream : Stream}
    (recv : recvall turn.recv (sys.server.streams pfd.fd) = (.message buf n, stream)) :
    ∃ s' outs, iterate pollfdArrayAppend turn i sys.server =
      .ok (.next s' (.handled pfd.fd (.message buf n) outs)) := by
  obtain ⟨rfl, serving, -, header⟩ := reliable
  have connected := h.accepted.connected
  have hclient : pfd.fd ≠ sys.server.server.listener := by
    intro he
    exact connected.listener (he ▸ hmem)
  obtain ⟨read, msg, hframe, -, -⟩ := (h.upward _).taken hmem rfl (header pfd hread hup input hclient) recv
  obtain ⟨server, outs, handled⟩ := message_handled serving connected.agree connected.named hmem hframe n
  refine ⟨⟨server, .entry (nextIndex i), Function.update sys.server.streams pfd.fd stream⟩, outs, ?_⟩
  have returned := returned_of_accepted serving.send outs
  unfold iterate
  simp only [hread, Checked.ok_bind, hup, input, hclient, recv, handled, returned, returned.not_killed, ne_eq,
    not_true_eq_false, not_false_eq_true, if_true, if_false]
  rfl

/-- A client prints a message that it takes from the server, and goes on. -/
theorem Synced.prints (h : Synced host trace sys chatTrace chat) {c : ℕ} {turn : ClientTurnEnv} {i : ℕ}
    {pfd : Pollfd} (hpc : (sys.peer c).main.pc ≠ .exited) (hread : (sys.peer c).main.pollfds.read i = .ok pfd)
    (hup : pfd.revents &&& pollhup = 0) (input : pfd.revents &&& pollin ≠ 0) (hserver : pfd.fd ≠ stdinFileno)
    (reliable : ClientReliable host (sys.peer c).main (.turn i turn)) {buf : Bytes} {n : ℕ} {stream : Stream}
    (recv : recvall turn.recv (sys.peer c).main.connection = (.message buf n, stream)) :
    ∃ s' p, clientIterate turn i (sys.peer c).main = .ok (some (s', .message (.message buf n) (some p))) ∧
      s'.pc ≠ .exited := by
  obtain ⟨rfl, -, header⟩ := reliable
  have hfits := (h.downward c).fits
  rcases recvall_carried ((h.downward c).carried hpc) (fun p hp => (hfits p hp).1)
    (header pfd hread hup input hserver) with ⟨p, pending, hp, hfront, -⟩ | hnothing
  · rw [recv, Prod.mk.injEq] at hfront
    cases hfront.1
    have handled := handleServerMessage_printed turn.env.host turn.env.locals (hfits p hp).1 (hfits p hp).2
      (p.content.frame turn.env.host).length
    rw [Printed.frame] at handled
    refine ⟨{ (sys.peer c).main with connection := stream, pc := .entry (nextIndex i) }, p, ?_, by simp⟩
    unfold clientIterate
    simp only [hread, Checked.ok_bind, hup, input, hserver, recv, handled, ne_eq, not_true_eq_false,
      not_false_eq_true, if_true, if_false]
    rfl
  · exact absurd (congrArg Prod.fst recv) (hnothing buf n)

end Receiving

/-! ## Runs -/

/-- Every step of the system is a part of a run of the chat. -/
theorem Synced.step {host : ByteOrder} {trace : SystemTrace MainState} {chatTrace : ChatTrace ℕ} {chat : Chat ℕ}
    {t : SystemTurn MainState} (h : Synced host trace t.before chatTrace chat)
    (step : SystemStep (mainLoop host) host t.before t.event t.output t.after) :
    Extended host trace chatTrace chat t := by
  obtain ⟨sys, event, output, sys'⟩ := t
  dsimp only at h step
  cases step with
  | @server event effect _ s own reliable step =>
    have connected := h.accepted.connected.mainStep step
    cases step with
    | arrive fd bytes unended => exact absurd own id
    | finish fd ending unended => exact absurd own id
    | poll revents pc => exact h.still _ connected rfl fun fd => rfl
    | turn i turn pc inside fresh iterated =>
      obtain ⟨hhost, serving, hnow, header⟩ := reliable
      obtain ⟨pfd, hread, iter⟩ := iterated_of_next iterated
      cases iter with
      | hangup hup gone => exact h.leave _ connected gone fun fd hfd => rfl
      | connected hup input listener accept added => exact h.accept _ connected added rfl
      | message hup input client recv success returned =>
        exact h.handle connected hhost serving hnow (header pfd hread hup input client) recv success rfl
      | closed hup input client recv gone =>
        exact h.leave _ connected gone fun fd hfd => Function.update_of_ne hfd _ _
      | idle hup input => exact h.still _ connected rfl fun fd => rfl
    | endPass i pc outside => exact h.still _ connected rfl fun fd => rfl
  | toServer fd bytes rest hfd front step =>
    cases step with
    | arrive _ _ unended => exact h.arrive hfd front rfl rfl
  | endServer fd ending step =>
    cases step with
    | finish _ _ unended =>
      refine h.still _ h.accepted.connected rfl ?_
      intro v
      by_cases hv : v = fd
      · subst hv
        simp
      · simp [hv]
  | client c own reliable step =>
    obtain ⟨hbytes, hwhole⟩ := step.sends reliable
    apply h.client
    · refine (h.upward c).send hwhole rfl rfl rfl ?_
      rw [← hbytes]
      simp [ChatSystem.withPeer]
    · exact step.prints own reliable (h.downward c)
  | toClient c bytes rest front step =>
    cases step with
    | arrive _ _ unended =>
      apply h.client
      · simp only [ClientEffect.messages, List.append_nil]
        refine (h.upward c).congr le_rfl ?_ fun fd hfd hconn => ⟨⟨hfd, hconn⟩, rfl⟩
        simp [ChatSystem.withPeer]
      · simp only [ClientEffect.printed, List.append_nil]
        refine (h.downward c).congr id ?_
        simp [ClientMain.withStream, ClientMain.stream, front]
  | endClient c ending step =>
    cases step with
    | finish _ _ unended =>
      apply h.client
      · simp only [ClientEffect.messages, List.append_nil]
        refine (h.upward c).congr le_rfl ?_ fun fd hfd hconn => ⟨⟨hfd, hconn⟩, rfl⟩
        simp [ChatSystem.withPeer]
      · simp only [ClientEffect.printed, List.append_nil]
        exact (h.downward c).congr id rfl

theorem SystemInitial.synced {host : ByteOrder} {sys : ChatSystem MainState}
    (h : SystemInitial (MainInitial pollfdArrayAppend) sys) :
    Synced host [] sys [] fun _ => none where
  accepted := by
    have htable := h.server.server.userTable
    refine ⟨h.server.connected, ?_, ?_⟩
    · rw [htable]
      exact .empty _
    · rw [htable]
      exact fun fd hfd => absurd hfd List.not_mem_nil
  upward c := by
    refine ⟨fun msg hmsg => absurd hmsg List.not_mem_nil, fun _ => ⟨rfl, ?_⟩, ?_, List.prefix_rfl⟩
    · rw [(h.quiet c).1]
      exact .nil _
    · rw [h.server.server.userTable]
      exact fun fd hfd => absurd hfd List.not_mem_nil
  downward c := by
    refine ⟨fun p hp => absurd hp List.not_mem_nil, fun _ => ?_, List.prefix_rfl⟩
    rw [(h.clients c).2, (h.quiet c).2]
    exact .nil _

/-- A run of the system is a run of the chat, which goes on from the one of an earlier run. -/
theorem Run.synced_from {host : ByteOrder} {mid sys : ChatSystem MainState} {past recent : SystemTrace MainState}
    {before : ChatTrace ℕ} {chat : Chat ℕ} (h : Synced host past mid before chat)
    (run : Run (SystemStep (mainLoop host) host) mid recent sys) :
    ∃ since chat', Run (ChatStep numRooms maxUsersPerRoom) chat since chat' ∧ PartsMatch TableMoves recent since ∧
      Synced host (past ++ recent) sys (before ++ since) chat' :=
  run.simulated_from (R := Synced host) h fun _ _ _ _ h step => h.step step

/-- Every run of the system is a run of the chat. -/
theorem Run.synced {host : ByteOrder} {sys₀ sys : ChatSystem MainState} {trace : SystemTrace MainState}
    (h₀ : SystemInitial (MainInitial pollfdArrayAppend) sys₀)
    (run : Run (SystemStep (mainLoop host) host) sys₀ trace sys) :
    ∃ chatTrace chat, Run (ChatStep numRooms maxUsersPerRoom) (fun _ => none) chatTrace chat ∧
      PartsMatch TableMoves trace chatTrace ∧ Synced host trace sys chatTrace chat :=
  run.synced_from h₀.synced

/-- When nothing that a connected client has sent is underway, all of it has been handled. -/
theorem Synced.all_handled {host : ByteOrder} {sys : ChatSystem MainState} {trace : SystemTrace MainState}
    {chatTrace : ChatTrace ℕ} {chat : Chat ℕ} (h : Synced host trace sys chatTrace chat) {fd : Fd}
    (hfd : fd ∈ sys.server.server.userTable.ids) (hpending : (sys.server.streams fd).pending = [])
    (htoServer : (sys.peer (sys.conn fd)).toServer = []) :
    requestsOf (sys.conn fd) chatTrace = (sentBy (sys.conn fd) trace).filterMap Message.request? := by
  obtain ⟨read, hcarries, hasked⟩ := (h.upward _).current fd hfd rfl
  rw [hpending, htoServer, List.append_nil] at hcarries
  rw [hasked, hcarries.eq_of_empty fun msg _ => Content.frame_ne_nil host msg.content]

/-- When nothing is underway to a running client, everything that is shown to it has been printed. -/
theorem Synced.all_printed {host : ByteOrder} {sys : ChatSystem MainState} {trace : SystemTrace MainState}
    {chatTrace : ChatTrace ℕ} {chat : Chat ℕ} (h : Synced host trace sys chatTrace chat) {c : ℕ}
    (hrunning : (sys.peer c).main.pc ≠ .exited) (hpending : (sys.peer c).main.connection.pending = [])
    (htoClient : (sys.peer c).toClient = []) : printedBy c trace = shownTo c chatTrace := by
  have hcarries := (h.downward c).carried hrunning
  rw [hpending, htoClient, List.append_nil] at hcarries
  exact hcarries.eq_of_empty fun p _ => Content.frame_ne_nil host p.content

/-- A client is accepted and types `/join 2`, its request is handled, and it prints the reply. -/
theorem join_run : ∃ trace sys, Run (SystemStep (mainLoop .little) .little) (.start (.start 3) 3) trace sys ∧
    (∃ u ∈ sys.server.server.userTable.users, u.id = 4 ∧ u.person = ⟨anonymous, some 2⟩) ∧ sys.conn 4 = 0 ∧
    (sys.server.streams 4).pending = [] ∧ (sys.peer 0).toServer = [] ∧ (sys.peer 0).main.pc ≠ .exited ∧
    (sys.peer 0).main.connection.pending = [] ∧ (sys.peer 0).toClient = [] ∧ sentBy 0 trace = [.join ⟨2⟩] ∧
    printedBy 0 trace = [.reply (ascii "you have joined room 2")] := by
  have run : Run (SystemStep (mainLoop .little) .little) (.start (.start 3) 3) [] (.start (.start 3) 3) := .start
  have run := run.turn (.server (by trivial) (by trivial) (.poll (fun _ => pollin) rfl))
  have run := run.turn (.server (by trivial) (mainLoop_steady (some 4) fun _ _ => .inl rfl)
    (.turn 0 (.steady (some 4)) rfl (by decide) (.of_notMem (by decide)) rfl))
  have run := run.turn (.server (by trivial) (mainLoop_steady none fun _ hread => by cases hread; exact .inl rfl)
    (.turn 1 (.steady none) rfl (by decide) .none rfl))
  have run := run.turn (.server (by trivial) (by trivial) (.endPass 2 rfl (by decide)))
  have run := run.turn (.client 0 (by trivial) (by trivial) (.arrive .stdin (ascii "/join 2\n") rfl))
  have run := run.turn (.client 0 (by trivial) (by trivial) (.poll (fun i => if i = 1 then pollin else 0) rfl))
  have run := run.turn (.client 0 (by trivial) (.steady (.inl rfl)) (.turn 0 .steady rfl (by decide) rfl))
  have run := run.turn (.client 0 (by trivial) (.steady (.inl rfl)) (.turn 1 .steady rfl (by decide) rfl))
  have run := run.turn (.client 0 (by trivial) (by trivial) (.endPass 2 rfl (by decide)))
  have run := run.turn (.toServer 4 (Message.frame .little (.join ⟨2⟩)) [] (by decide) rfl (.arrive _ _ rfl))
  have run := run.turn (.server (by trivial) (by trivial) (.poll (fun i => if i = 1 then pollin else 0) rfl))
  have run := run.turn (.server (by trivial) (mainLoop_steady none fun _ hread => by cases hread; exact .inl rfl)
    (.turn 0 (.steady none) rfl (by decide) .none rfl))
  have run := run.turn (.server (by trivial) (mainLoop_steady none fun _ hread => by cases hread; exact .inr rfl)
    (.turn 1 (.steady none) rfl (by decide) .none rfl))
  have run := run.turn (.toClient 0 (Printed.frame .little (.reply (ascii "you have joined room 2"))) [] rfl
    (.arrive _ _ rfl))
  have run := run.turn (.client 0 (by trivial) (by trivial) (.poll (fun i => if i = 0 then pollin else 0) rfl))
  have run := run.turn (.client 0 (by trivial) (.steady (.inr rfl)) (.turn 0 .steady rfl (by decide) rfl))
  exact ⟨_, _, run, ⟨_, List.mem_singleton_self _, rfl, rfl⟩, rfl, rfl, rfl, by decide, rfl, rfl, rfl, rfl⟩

/-- The system is a chat.  In every run of the server and its clients, in any interleaving, there is a run of the
chat that the server makes, turn by turn, and whose participants are those connected now.  In it the requests of a
client are handled in the order in which it sent them, none of them twice, and a client prints what the chat shows
to it in this order, once.  Nothing is lost on the way: when none of its bytes are underway, every request of a
connected client has been handled, and everything that is shown to a running client has been printed. -/
theorem system_runs_chat {host : ByteOrder} {sys₀ sys : ChatSystem MainState} {trace : SystemTrace MainState}
    (h₀ : SystemInitial (MainInitial pollfdArrayAppend) sys₀)
    (run : Run (SystemStep (mainLoop host) host) sys₀ trace sys) :
    ∃ chatTrace chat, Run (ChatStep numRooms maxUsersPerRoom) (fun _ => none) chatTrace chat ∧
      PartsMatch TableMoves trace chatTrace ∧ Represents sys.conn sys.server.server.userTable chat ∧
      (∀ c, requestsOf c chatTrace <+: (sentBy c trace).filterMap Message.request? ∧
        printedBy c trace <+: shownTo c chatTrace) ∧
      (∀ fd ∈ sys.server.server.userTable.ids, (sys.server.streams fd).pending = [] →
        (sys.peer (sys.conn fd)).toServer = [] →
        requestsOf (sys.conn fd) chatTrace = (sentBy (sys.conn fd) trace).filterMap Message.request?) ∧
      ∀ c, (sys.peer c).main.pc ≠ .exited → (sys.peer c).main.connection.pending = [] →
        (sys.peer c).toClient = [] → printedBy c trace = shownTo c chatTrace := by
  obtain ⟨chatTrace, chat, hrun, hmoves, h⟩ := run.synced h₀
  refine ⟨chatTrace, chat, hrun, hmoves, h.accepted.users, fun c => ⟨(h.upward c).handled, (h.downward c).printed⟩,
    fun fd hfd hpending htoServer => ?_, fun c hrunning hpending htoClient => ?_⟩
  · exact h.all_handled hfd hpending htoServer
  · exact h.all_printed hrunning hpending htoClient

/-- The client that has joined room 2 is a participant there, its request has been handled, and it has been shown
the reply. -/
theorem system_runs_chat_join : ∃ chatTrace chat,
    Run (ChatStep numRooms maxUsersPerRoom) (fun _ : ℕ => none) chatTrace chat ∧
      chat 0 = some ⟨anonymous, some 2⟩ ∧ requestsOf 0 chatTrace = [.join 2] ∧
      shownTo 0 chatTrace = [.reply (ascii "you have joined room 2")] := by
  obtain ⟨trace, sys, run, ⟨u, hu, hid, hperson⟩, hconn, hstream, htoServer, hpc, hpending, htoClient, hsent,
    hprinted⟩ := join_run
  obtain ⟨chatTrace, chat, hrun, -, hrep, -, hasked, hshown⟩ :=
    system_runs_chat (ChatSystem.start_initial (MainState.start_initial (by decide)) (by decide)) run
  have hasked := hasked 4 (hid ▸ UserTable.mem_ids hu) hstream (by rwa [hconn])
  rw [hconn, hsent] at hasked
  have hshown := hshown 0 hpc hpending htoClient
  exact ⟨chatTrace, chat, hrun, (hrep.iff _ _).2 ⟨u, hu, by rw [hid, hconn], hperson⟩, hasked,
    hshown.symm.trans hprinted⟩

/-- No process of the system is brought down by what another sends.  In every run, whatever message the server
takes from a connected client is handled with success, and whatever message a running client takes from the server
is printed; both loops go on. -/
theorem system_receives {host : ByteOrder} {sys₀ sys : ChatSystem MainState} {trace : SystemTrace MainState}
    (h₀ : SystemInitial (MainInitial pollfdArrayAppend) sys₀)
    (run : Run (SystemStep (mainLoop host) host) sys₀ trace sys) :
    (∀ (turn : TurnEnv) (i : ℕ) (pfd : Pollfd) (buf : Bytes) (n : ℕ) (stream : Stream),
      (mainLoop host).Reliable sys.server (.turn i turn) → sys.server.server.pollfds.read i = .ok pfd →
      pfd.revents &&& pollhup = 0 → pfd.revents &&& pollin ≠ 0 → pfd.fd ∈ sys.server.server.userTable.ids →
      recvall turn.recv (sys.server.streams pfd.fd) = (.message buf n, stream) →
      ∃ s' outs, iterate pollfdArrayAppend turn i sys.server =
        .ok (.next s' (.handled pfd.fd (.message buf n) outs))) ∧
    ∀ (c : ℕ) (turn : ClientTurnEnv) (i : ℕ) (pfd : Pollfd) (buf : Bytes) (n : ℕ) (stream : Stream),
      (sys.peer c).main.pc ≠ .exited → ClientReliable host (sys.peer c).main (.turn i turn) →
      (sys.peer c).main.pollfds.read i = .ok pfd → pfd.revents &&& pollhup = 0 → pfd.revents &&& pollin ≠ 0 →
      pfd.fd ≠ stdinFileno → recvall turn.recv (sys.peer c).main.connection = (.message buf n, stream) →
      ∃ s' p, clientIterate turn i (sys.peer c).main = .ok (some (s', .message (.message buf n) (some p))) ∧
        s'.pc ≠ .exited := by
  obtain ⟨chatTrace, chat, -, -, h⟩ := run.synced h₀
  constructor
  · intro turn i pfd buf n stream reliable hread hup input hmem recv
    exact h.serves hread hup input hmem reliable recv
  · intro c turn i pfd buf n stream hpc reliable hread hup input hserver recv
    exact h.prints hpc hread hup input hserver reliable recv

/-- A client types a line and is accepted; the server, which finds its message behind the next `poll`, handles it. -/
theorem system_receives_line : ∃ s s' outs,
    iterate pollfdArrayAppend (.steady none) 1 s =
      .ok (.next s' (.handled 4 (.message (Message.frame .little (.join ⟨2⟩)) 6) outs)) := by
  have run : Run (SystemStep (mainLoop .little) .little) (.start (.start 3) 3) [] (.start (.start 3) 3) := .start
  have run := run.turn (.client 0 (by trivial) (by trivial) (.arrive .stdin (ascii "/join 2\n") rfl))
  have run := run.turn (.client 0 (by trivial) (by trivial) (.poll (fun i => if i = 1 then pollin else 0) rfl))
  have run := run.turn (.client 0 (by trivial) (.steady (.inl rfl)) (.turn 0 .steady rfl (by decide) rfl))
  have run := run.turn (.client 0 (by trivial) (.steady (.inl rfl)) (.turn 1 .steady rfl (by decide) rfl))
  have run := run.turn (.server (by trivial) (by trivial) (.poll (fun _ => pollin) rfl))
  have run := run.turn (.server (by trivial) (mainLoop_steady (some 4) fun _ _ => .inl rfl)
    (.turn 0 (.steady (some 4)) rfl (by decide) (.of_notMem (by decide)) rfl))
  have run := run.turn (.toServer 4 (Message.frame .little (.join ⟨2⟩)) [] (by decide) rfl (.arrive _ _ rfl))
  have run := run.turn (.server (by trivial) (mainLoop_steady none fun _ hread => by cases hread; exact .inr rfl)
    (.turn 1 (.steady none) rfl (by decide) .none rfl))
  have run := run.turn (.server (by trivial) (by trivial) (.endPass 2 rfl (by decide)))
  have run := run.turn (.server (by trivial) (by trivial) (.poll (fun _ => pollin) rfl))
  obtain ⟨s', outs, handled⟩ :=
    (system_receives (ChatSystem.start_initial (MainState.start_initial (by decide)) (by decide)) run).1
    (.steady none) 1 ⟨4, pollin, pollin⟩ (Message.frame .little (.join ⟨2⟩)) 6 ⟨[], .open⟩
    (mainLoop_steady none fun _ hread => by cases hread; exact .inr rfl) rfl (by decide) (by decide) (by decide) rfl
  exact ⟨_, s', outs, handled⟩

end ChatRooms
