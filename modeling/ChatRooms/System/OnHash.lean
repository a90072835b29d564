import ChatRooms.Server.HashedMain
import ChatRooms.System.EndToEnd

/-!
# The system on the hash table

The clients do not see how the server keeps its users: a server whose steps are those of another one can take its
place (`SystemStep.simulation`).  The main loop on the hash table of `uthash.h` is such a server, so everything
that holds of the system down to a finite map of users holds of it down to the buckets and chains.

`hashed_system_runs_chat`: the system on the hash table is a chat.
-/

namespace ChatRooms

/-! ## Servers in the place of others -/

section

variable {σ τ : Type}

/-- A server whose steps are those of another, with the same users, and which relies on no less. -/
structure ServerLoop.Refines (loop : ServerLoop σ) (loop' : ServerLoop τ) (R : σ → τ → Prop) : Prop where
  ids : ∀ {s t}, R s t → loop.ids s = loop'.ids t
  reliable : ∀ {s t event}, R s t → loop.Reliable s event → loop'.Reliable t event
  step : ∀ {s t event effect s'}, R s t → loop.Step s event effect s' →
    ∃ t', loop'.Step t event effect t' ∧ R s' t'

/-- Two systems that differ in their servers only. -/
structure SameSystem (R : σ → τ → Prop) (sys : ChatSystem σ) (sys' : ChatSystem τ) : Prop where
  server : R sys.server sys'.server
  peer : sys.peer = sys'.peer
  conn : sys.conn = sys'.conn
  accepted : sys.accepted = sys'.accepted

theorem SameSystem.served {R : σ → τ → Prop} {sys : ChatSystem σ} {sys' : ChatSystem τ} (h : SameSystem R sys sys')
    {s : σ} {t : τ} (hserver : R s t) (effect : Effect) :
    SameSystem R (sys.served s effect) (sys'.served t effect) := by
  obtain ⟨-, hpeer, hconn, haccepted⟩ := h
  cases effect with
  | idle => exact ⟨hserver, hpeer, hconn, haccepted⟩
  | accepted fd =>
    cases fd with
    | none => exact ⟨hserver, hpeer, hconn, haccepted⟩
    | some fd =>
      refine ⟨hserver, hpeer, ?_, ?_⟩
      · simp [ChatSystem.served, hconn, haccepted]
      · simp [ChatSystem.served, haccepted]
  | handled client received outs =>
    refine ⟨hserver, ?_, hconn, haccepted⟩
    simp [ChatSystem.served, hpeer, hconn]
  | terminated client => exact ⟨hserver, hpeer, hconn, haccepted⟩

theorem SameSystem.withPeer {R : σ → τ → Prop} {sys : ChatSystem σ} {sys' : ChatSystem τ} (h : SameSystem R sys sys')
    (c : ℕ) (peer : Peer) : SameSystem R (sys.withPeer c peer) (sys'.withPeer c peer) where
  server := h.server
  peer := by simp [ChatSystem.withPeer, h.peer]
  conn := h.conn
  accepted := h.accepted

/-- A server whose steps are those of another can take its place. -/
theorem SystemStep.simulation {loop : ServerLoop σ} {loop' : ServerLoop τ} {R : σ → τ → Prop}
    (h : loop.Refines loop' R) {host : ByteOrder} {sys sys₁ : ChatSystem σ} {sys' : ChatSystem τ} {event : SystemEvent}
    {effect : SystemEffect} (hsame : SameSystem R sys sys') (step : SystemStep loop host sys event effect sys₁) :
    ∃ sys₁', SystemStep loop' host sys' event effect sys₁' ∧ SameSystem R sys₁ sys₁' := by
  have hpeer := hsame.peer
  have hconn := hsame.conn
  cases step with
  | server own reliable step =>
    obtain ⟨t, step', hserver⟩ := h.step hsame.server step
    exact ⟨_, .server own (h.reliable hsame.server reliable) step', hsame.served hserver _⟩
  | toServer fd bytes rest connected front step =>
    obtain ⟨t, step', hserver⟩ := h.step hsame.server step
    rw [h.ids hsame.server] at connected
    rw [hpeer, hconn] at front ⊢
    refine ⟨_, .toServer fd bytes rest connected front step', SameSystem.withPeer ?_ _ _⟩
    exact ⟨hserver, rfl, rfl, hsame.accepted⟩
  | endServer fd ending step =>
    obtain ⟨t, step', hserver⟩ := h.step hsame.server step
    exact ⟨_, .endServer fd ending step', hserver, hpeer, hconn, hsame.accepted⟩
  | client c own reliable step =>
    rw [hpeer] at reliable step ⊢
    exact ⟨_, .client c own reliable step, hsame.withPeer c _⟩
  | toClient c bytes rest front step =>
    rw [hpeer] at front step ⊢
    exact ⟨_, .toClient c bytes rest front step, hsame.withPeer c _⟩
  | endClient c ending step =>
    rw [hpeer] at step ⊢
    exact ⟨_, .endClient c ending step, hsame.withPeer c _⟩

end

/-! ## The hash table -/

/-- The main loop on the hash table; its users are those of the records in use. -/
def hashedLoop (host : ByteOrder) : ServerLoop HashedMain where
  ids s := s.server.users.live.map fun a => (s.server.users.user a).id
  Reliable s := ServerReliable host s.server.pollfds s.server.listener s.streams
  Step := HashedMainStep pollfdArrayAppend host

theorem hashedLoop_refines (host : ByteOrder) :
    (hashedLoop host).Refines (mainLoop host) (HashedMain.Refines host) where
  ids := by
    intro c s h
    change _ = s.server.userTable.users.map User.id
    rw [h.server.users.users, List.map_map]
    rfl
  reliable := by
    intro c s event h reliable
    change ServerReliable host c.server.pollfds c.server.listener c.streams event at reliable
    rw [h.server.pollfds, h.server.listener, h.streams] at reliable
    exact reliable
  step := HashedMainStep.step

/-- The moves of a turn depend on what is seen of it and on who the clients are. -/
theorem SystemMoves.of_same {R : HashedMain → MainState → Prop} {sys sys₁ : ChatSystem HashedMain}
    {sys' sys₁' : ChatSystem MainState} (hsame : SameSystem R sys sys') {event : SystemEvent} {effect : SystemEffect}
    {part : ChatTrace ℕ} (h : SystemMoves ⟨sys', event, effect, sys₁'⟩ part) :
    SystemMoves ⟨sys, event, effect, sys₁⟩ part := by
  unfold SystemMoves at h ⊢
  dsimp only at h ⊢
  rw [hsame.conn, hsame.accepted]
  exact h

/-- A run of the system on the hash table, with the same run on the finite map from `sys₀`, and that of the chat. -/
structure HashedSynced (host : ByteOrder) (sys₀ : ChatSystem MainState) (trace : SystemTrace HashedMain)
    (sys : ChatSystem HashedMain) (trace' : SystemTrace MainState) (sys' : ChatSystem MainState)
    (chatTrace : ChatTrace ℕ) (chat : Chat ℕ) : Prop where
  onMap : Run (SystemStep (mainLoop host) host) sys₀ trace' sys'
  labels : labels trace' = labels trace
  same : SameSystem (HashedMain.Refines host) sys sys'
  synced : Synced host trace' sys' chatTrace chat

/-- Every run of the system on the hash table is one of the system on the finite map, and one of the chat. -/
theorem Run.hashedSynced {host : ByteOrder} {sys₀ sys : ChatSystem HashedMain} {trace : SystemTrace HashedMain}
    {s₀ : MainState} (hrefines : sys₀.server.Refines host s₀)
    (h₀ : SystemInitial (MainInitial pollfdArrayAppend) { sys₀ with server := s₀ })
    (run : Run (SystemStep (hashedLoop host) host) sys₀ trace sys) :
    ∃ chatTrace chat, Run (ChatStep numRooms maxUsersPerRoom) (fun _ => none) chatTrace chat ∧
      PartsMatch SystemMoves trace chatTrace ∧ ∃ trace' sys',
      HashedSynced host { sys₀ with server := s₀ } trace sys trace' sys' chatTrace chat := by
  have hstart : HashedSynced host { sys₀ with server := s₀ } [] sys₀ [] { sys₀ with server := s₀ } [] fun _ => none :=
    ⟨.start, rfl, ⟨hrefines, rfl, rfl, rfl⟩, h₀.synced⟩
  apply run.simulated_from (R := fun trace sys chatTrace chat => ∃ trace' sys',
    HashedSynced host { sys₀ with server := s₀ } trace sys trace' sys' chatTrace chat) ⟨[], _, hstart⟩
  rintro trace chatTrace chat t ⟨trace', sys', h⟩ step
  obtain ⟨sys₁', step', hsame⟩ := step.simulation (hashedLoop_refines host) h.same
  obtain ⟨part, chat', hpart, ⟨hmoves, -⟩, hsynced⟩ :=
    Synced.step (t := ⟨sys', t.event, t.output, sys₁'⟩) h.synced step'
  refine ⟨part, chat', hpart, hmoves.of_same h.same, _, sys₁', h.onMap.turn step', ?_, hsame, hsynced⟩
  rw [labels_append, labels_append, h.labels]
  rfl

/-- What a run of the system on the hash table is as a run of the chat: every turn makes its moves in it, the
participants are the records in use, the requests of a client are handled in the order in which it sent them, and it
prints what is shown to it in this order.  Nothing is lost when nothing is underway. -/
structure HashedChat (host : ByteOrder) (trace : SystemTrace HashedMain) (sys : ChatSystem HashedMain)
    (chatTrace : ChatTrace ℕ) (chat : Chat ℕ) : Prop where
  run : Run (ChatStep numRooms maxUsersPerRoom) (fun _ => none) chatTrace chat
  moves : PartsMatch SystemMoves trace chatTrace
  participants : ∀ c p, chat c = some p ↔ ∃ a ∈ sys.server.server.users.live,
    sys.conn (sys.server.server.users.user a).id = c ∧ (sys.server.server.users.user a).person = p
  handled : ∀ c, requestsOf c chatTrace <+: (sentBy c trace).filterMap Message.request?
  printed : ∀ c, printedBy c trace <+: shownTo c chatTrace
  all_handled : ∀ fd ∈ (hashedLoop host).ids sys.server, (sys.server.streams fd).pending = [] →
    (sys.peer (sys.conn fd)).toServer = [] →
    requestsOf (sys.conn fd) chatTrace = (sentBy (sys.conn fd) trace).filterMap Message.request?
  all_printed : ∀ c, (sys.peer c).main.pc ≠ .exited → (sys.peer c).main.connection.pending = [] →
    (sys.peer c).toClient = [] → printedBy c trace = shownTo c chatTrace

theorem HashedSynced.hashedChat {host : ByteOrder} {sys₀ sys' : ChatSystem MainState} {sys : ChatSystem HashedMain}
    {trace : SystemTrace HashedMain} {trace' : SystemTrace MainState} {chatTrace : ChatTrace ℕ} {chat : Chat ℕ}
    (hrun : Run (ChatStep numRooms maxUsersPerRoom) (fun _ => none) chatTrace chat)
    (hmoves : PartsMatch SystemMoves trace chatTrace)
    (hsynced : HashedSynced host sys₀ trace sys trace' sys' chatTrace chat) :
    HashedChat host trace sys chatTrace chat := by
  obtain ⟨-, hlabels, ⟨hserver, hpeer, hconn, -⟩, h⟩ := hsynced
  have hsent : ∀ c, sentBy c trace = sentBy c trace' := fun c => by rw [sentBy, sentBy, hlabels]
  have hprinted : ∀ c, printedBy c trace = printedBy c trace' := fun c => by rw [printedBy, printedBy, hlabels]
  refine ⟨hrun, hmoves, fun c p => ?_, fun c => ?_, fun c => ?_, fun fd hfd hpending htoServer => ?_,
    fun c hrunning hpending htoClient => ?_⟩
  · rw [h.accepted.users.iff, hserver.server.users.users, hconn]
    simp
  · rw [hsent]
    exact (h.upward c).handled
  · rw [hprinted]
    exact (h.downward c).printed
  · rw [(hashedLoop_refines host).ids hserver] at hfd
    rw [hserver.streams] at hpending
    rw [hpeer, hconn] at htoServer
    rw [hconn, hsent]
    exact h.all_handled hfd hpending htoServer
  · rw [hpeer] at hrunning hpending htoClient
    rw [hprinted]
    exact h.all_printed hrunning hpending htoClient

/-- The system on the hash table is a chat.  In every run of its processes, in any interleaving, the users are the
participants, each in one record; the requests of a client are handled in the order in which it sent them, and it
prints what the chat shows to it in this order; nothing is lost or repeated on the way.  All the time the hash
table passes the library's check. -/
theorem hashed_system_runs_chat {host : ByteOrder} {sys₀ sys : ChatSystem HashedMain} {trace : SystemTrace HashedMain}
    (h₀ : SystemInitial HashedInitial sys₀) (run : Run (SystemStep (hashedLoop host) host) sys₀ trace sys) :
    hashFsck sys.server.server.users.hash = true ∧ ∃ chatTrace chat, HashedChat host trace sys chatTrace chat := by
  obtain ⟨s₀, hs₀, hrefines⟩ := h₀.server.refines host
  obtain ⟨chatTrace, chat, hrun, hmoves, trace', sys', h⟩ :=
    run.hashedSynced hrefines ⟨hs₀, h₀.clients, h₀.quiet, h₀.accepted⟩
  exact ⟨hashFsck_of_represents h.same.server.server.users.represents, chatTrace, chat, h.hashedChat hrun hmoves⟩

theorem hashedLoop_mebibyte {s : HashedMain} {i : ℕ} (accepted : Option Fd)
    (header : ∀ pfd, s.server.pollfds.read i = .ok pfd → (RecvEnv.steady 4).HeaderWhole (s.streams pfd.fd)) :
    (hashedLoop .little).Reliable s (.turn i (.mebibyte accepted)) := by
  have hheap : ∀ n, 0 < n → n < 2 ^ 16 → Heap.mebibyte.serves n = true := by
    intro n hpos hn
    exact decide_eq_true ⟨hpos, by omega⟩
  have hnow : 0 ≤ (Env.steady 0).clock.toInt ∧ (Env.steady 0).clock.toInt < 2 ^ 32 := by decide
  exact ⟨rfl, ⟨hheap, Env.steady_accepts 0⟩, hnow, fun pfd hread _ _ _ => header pfd hread⟩

/-- The server enters its loop with the descriptors 0 to 2 open besides its listener. -/
def MainState.started : MainState :=
  { MainState.start 3 with server := { Server.start 3 with openFds := [3, 0, 1, 2] } }

theorem MainState.started_initial : MainInitial pollfdArrayAppend .started :=
  have h := Server.start_initial 3
  ⟨⟨h.rooms, h.pollfds, rfl, List.mem_cons_self⟩, rfl, by decide⟩

/-- The same on the hash table, in a memory of zeros. -/
def HashedMain.started : HashedMain := MainState.started.onHash (.empty fun _ => ⟨0, 0, .fill fun _ => 0⟩)

/-- A client is accepted and types `/join 2`, its request is handled, and it prints the reply. -/
theorem hashed_join_run : ∃ trace sys,
    Run (SystemStep (hashedLoop .little) .little) (.start .started 3) trace sys ∧
    sys.server.server.openFds = [4, 3, 0, 1, 2] ∧ (hashedLoop .little).ids sys.server = [4] ∧
    (∃ a ∈ sys.server.server.users.live, sys.conn (sys.server.server.users.user a).id = 0 ∧
      (sys.server.server.users.user a).person = ⟨anonymous, some 2⟩) ∧ sys.conn 4 = 0 ∧
    (sys.server.streams 4).pending = [] ∧ (sys.peer 0).toServer = [] ∧ (sys.peer 0).main.pc ≠ .exited ∧
    (sys.peer 0).main.connection.pending = [] ∧ (sys.peer 0).toClient = [] ∧ sentBy 0 trace = [.join ⟨2⟩] ∧
    printedBy 0 trace = [.reply (ascii "you have joined room 2")] := by
  have run : Run (SystemStep (hashedLoop .little) .little) (.start .started 3) [] _ := .start
  have run := run.turn (.server (by trivial) (by trivial) (.poll (fun _ => pollin) rfl))
  have run := run.turn (.server (by trivial) (hashedLoop_mebibyte (some 4) fun _ _ => .inl rfl)
    (.turn 0 (.mebibyte (some 4)) 1 rfl (by decide) (.of_notMem (by decide)) rfl Heap.mebibyte_bounded
      (by decide) (fun _ hread _ => by cases hread; exact ⟨by decide, by decide⟩) rfl))
  have run := run.turn (.server (by trivial)
    (hashedLoop_mebibyte none fun _ hread => by cases hread; exact .inl rfl)
    (.turn 1 (.mebibyte none) 2 rfl (by decide) .none rfl Heap.mebibyte_bounded (by decide)
      (fun _ hread _ => by cases hread; exact ⟨by decide, by decide⟩) rfl))
  have run := run.turn (.server (by trivial) (by trivial) (.endPass 2 rfl (by decide)))
  have run := run.turn (.client 0 (by trivial) (by trivial) (.arrive .stdin (ascii "/join 2\n") rfl))
  have run := run.turn (.client 0 (by trivial) (by trivial) (.poll (fun i => if i = 1 then pollin else 0) rfl))
  have run := run.turn (.client 0 (by trivial) (.steady (.inl rfl)) (.turn 0 .steady rfl (by decide) rfl))
  have run := run.turn (.client 0 (by trivial) (.steady (.inl rfl)) (.turn 1 .steady rfl (by decide) rfl))
  have run := run.turn (.client 0 (by trivial) (by trivial) (.endPass 2 rfl (by decide)))
  have run := run.turn (.toServer 4 (Message.frame .little (.join ⟨2⟩)) [] (by decide) rfl (.arrive _ _ rfl))
  have run := run.turn (.server (by trivial) (by trivial) (.poll (fun i => if i = 1 then pollin else 0) rfl))
  have run := run.turn (.server (by trivial)
    (hashedLoop_mebibyte none fun _ hread => by cases hread; exact .inl rfl)
    (.turn 0 (.mebibyte none) 2 rfl (by decide) .none rfl Heap.mebibyte_bounded (by decide)
      (fun _ hread _ => by cases hread; exact ⟨by decide, by decide⟩) rfl))
  have run := run.turn (.server (by trivial)
    (hashedLoop_mebibyte none fun _ hread => by cases hread; exact .inr rfl)
    (.turn 1 (.mebibyte none) 2 rfl (by decide) .none rfl Heap.mebibyte_bounded (by decide)
      (fun _ hread _ => by cases hread; exact ⟨by decide, by decide⟩) rfl))
  have run := run.turn (.toClient 0 (Printed.frame .little (.reply (ascii "you have joined room 2"))) [] rfl
    (.arrive _ _ rfl))
  have run := run.turn (.client 0 (by trivial) (by trivial) (.poll (fun i => if i = 0 then pollin else 0) rfl))
  have run := run.turn (.client 0 (by trivial) (.steady (.inr rfl)) (.turn 0 .steady rfl (by decide) rfl))
  exact ⟨_, _, run, rfl, rfl, ⟨1, List.mem_singleton_self _, rfl, rfl⟩, rfl, rfl, rfl, by decide, rfl, rfl, rfl, rfl⟩

/-- The client that has joined room 2 is a participant there, its request has been handled, and it has been shown
the reply. -/
theorem hashed_system_runs_chat_join : ∃ chatTrace chat,
    Run (ChatStep numRooms maxUsersPerRoom) (fun _ : ℕ => none) chatTrace chat ∧
      chat 0 = some ⟨anonymous, some 2⟩ ∧ requestsOf 0 chatTrace = [.join 2] ∧
      shownTo 0 chatTrace = [.reply (ascii "you have joined room 2")] := by
  obtain ⟨trace, sys, run, -, hids, hrecord, hconn, hstream, htoServer, hpc, hpending, htoClient, hsent, hprinted⟩ :=
    hashed_join_run
  obtain ⟨-, chatTrace, chat, h⟩ := hashed_system_runs_chat
    (ChatSystem.start_initial ⟨_, _, MainState.started_initial, rfl⟩ (by decide)) run
  have hasked := h.all_handled 4 (hids ▸ List.mem_singleton_self _) hstream (by rwa [hconn])
  rw [hconn, hsent] at hasked
  have hshown := h.all_printed 0 hpc hpending htoClient
  exact ⟨chatTrace, chat, h.run, (h.participants _ _).2 hrecord, hasked, hshown.symm.trans hprinted⟩

end ChatRooms
