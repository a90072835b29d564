import ChatRooms.ClientLoop
import ChatRooms.Server.MainLoop

/-!
# From `main` to the loops

What the two programs do before their loops: they try the addresses that `getaddrinfo` found one after another
until a socket is made for one, and put it into the poll array.  The allocations of the poll array and of the
rooms are made first, and `main` does not look at what they return.

* `createListenerSocket_eq` and `createServerSocket_eq`: which address settles the search, and which descriptors
  are open after it;
* `serverSetUp_eq` and `clientSetUp_eq`: when `main` exits, when it writes through `NULL`, and what it enters its
  loop with;
* `server_descriptors`: the open descriptors in every run of the server, from its start on.
-/

namespace ChatRooms

/-! ## The search for a socket -/

/-- An address of the server, with what the kernel answers for it: a new socket, if it gives one, and whether
`setsockopt` and `bind` succeed on it. -/
structure ListenAddress where
  socket : Option Fd
  setsockopt : Bool
  bind : Bool

/-- `create_listener_socket`: the socket, and the open descriptors. -/
def createListenerSocket (openFds : List Fd) : List ListenAddress → Option Fd × List Fd
  | [] => (none, openFds)
  | p :: next =>
    match p.socket with
    | none => createListenerSocket openFds next
    | some listener =>
      if p.setsockopt = false then (none, listener :: openFds)
      else if p.bind = false then createListenerSocket ((listener :: openFds).erase listener) next
      else (some listener, listener :: openFds)

/-- An address of the server, as a client sees it. -/
structure ServerAddress where
  socket : Option Fd
  connect : Bool

/-- `create_server_socket` -/
def createServerSocket (openFds : List Fd) : List ServerAddress → Option Fd × List Fd
  | [] => (none, openFds)
  | p :: next =>
    match p.socket with
    | none => createServerSocket openFds next
    | some server =>
      if p.connect = false then createServerSocket ((server :: openFds).erase server) next
      else (some server, server :: openFds)

/-- The search ends at an address with a socket that can be bound, or on which `setsockopt` fails. -/
def ListenAddress.settles (p : ListenAddress) : Bool := p.socket.isSome && (!p.setsockopt || p.bind)

/-- The search ends at an address with a socket that connects. -/
def ServerAddress.settles (p : ServerAddress) : Bool := p.socket.isSome && p.connect

/-- The listener is made for the address that settles the search.  All sockets before it have been closed; the one
on which `setsockopt` fails has not. -/
theorem createListenerSocket_eq (openFds : List Fd) (res : List ListenAddress) :
    createListenerSocket openFds res = match res.find? ListenAddress.settles with
      | none => (none, openFds)
      | some p => (if p.setsockopt then p.socket else none, p.socket.toList ++ openFds) := by
  induction res with
  | nil => rfl
  | cons p next ih =>
    obtain ⟨socket, setsockopt, bind⟩ := p
    cases socket with
    | none => simpa [createListenerSocket, ListenAddress.settles] using ih
    | some listener =>
      cases setsockopt with
      | false => simp [createListenerSocket, ListenAddress.settles]
      | true =>
        cases bind with
        | false => simpa [createListenerSocket, ListenAddress.settles] using ih
        | true => simp [createListenerSocket, ListenAddress.settles]

/-- The client talks to the first address that accepts a connection; all sockets before it have been closed. -/
theorem createServerSocket_eq (openFds : List Fd) (res : List ServerAddress) :
    createServerSocket openFds res = match res.find? ServerAddress.settles with
      | none => (none, openFds)
      | some p => (p.socket, p.socket.toList ++ openFds) := by
  induction res with
  | nil => rfl
  | cons p next ih =>
    obtain ⟨socket, connect⟩ := p
    cases socket with
    | none => simpa [createServerSocket, ServerAddress.settles] using ih
    | some server =>
      cases connect with
      | false => simpa [createServerSocket, ServerAddress.settles] using ih
      | true => simp [createServerSocket, ServerAddress.settles]

/-! ## The server -/

/-- What the world outside contributes to the set-up of the server: memory, what `getaddrinfo` finds, and whether
`listen` succeeds. -/
structure ServerWorld where
  pollfds : Heap
  rooms : Heap
  res : Option (List ListenAddress)
  listen : Bool
  realloc : Realloc

/-- What `main` of the server has when it enters its loop; `rooms` may be `NULL`. -/
structure ServerEntry where
  listener : Fd
  pollfds : PollfdArray
  rooms : Option RoomArray
  openFds : List Fd

/-- `main` of the server up to its loop; `none` when it exits. -/
def serverSetUp (inherited : List Fd) (world : ServerWorld) : Checked (Option ServerEntry) :=
  let pollfds := pollfdArrayInit world.pollfds
  let rooms := roomArrayInit world.rooms numRooms
  match world.res with
  | none => return none
  | some res =>
    match createListenerSocket inherited res with
    | (none, _) => return none
    | (some listener, openFds) =>
      if world.listen = false then return none
      else
        match pollfds with
        | none => .error .null
        | some pollfds =>
          let (pollfds, status) := pollfdArrayAppend pollfds listener pollin world.realloc
          if status ≠ 0 then return none
          else return some ⟨listener, pollfds, rooms, openFds⟩

/-- The socket on which the server listens. -/
def ServerWorld.listener (world : ServerWorld) : Option Fd := do
  let res ← world.res
  let p ← res.find? ListenAddress.settles
  if p.setsockopt && world.listen then p.socket else none

/-- The poll array behind the first append, which needs no new block. -/
def firstEntry (fd : Fd) : PollfdArray :=
  ⟨⟨fd, pollin, 0⟩ :: List.replicate (initialCapacity - 1) ⟨0, 0, 0⟩, 1, initialCapacity⟩

theorem pollfdArrayInit_append {heap : Heap} {a : PollfdArray} (h : pollfdArrayInit heap = some a) (fd : Fd)
    (r : Realloc) : pollfdArrayAppend a fd pollin r = (firstEntry fd, 0) := by
  unfold pollfdArrayInit at h
  split at h
  · cases h
    rfl
  · cases h

/-- `main` of the server exits when it gets no socket to listen on, and commits a fault when it gets one but had no
memory for the poll array.  Else it enters its loop, with the inherited descriptors and the listener open. -/
theorem serverSetUp_eq (inherited : List Fd) (world : ServerWorld) :
    serverSetUp inherited world = match world.listener with
      | none => .ok none
      | some listener =>
        if pollfdArrayInit world.pollfds = none then .error .null
        else .ok (some ⟨listener, firstEntry listener, roomArrayInit world.rooms numRooms, listener :: inherited⟩) := by
  unfold serverSetUp ServerWorld.listener
  cases world.res with
  | none => rfl
  | some res =>
    dsimp only [Option.bind_eq_bind, Option.bind_some]
    rw [createListenerSocket_eq]
    cases hfind : res.find? ListenAddress.settles with
    | none => rfl
    | some p =>
      have hsettles := List.find?_some hfind
      obtain ⟨socket, setsockopt, bind⟩ := p
      cases socket with
      | none => simp [ListenAddress.settles] at hsettles
      | some listener =>
        cases setsockopt with
        | false => rfl
        | true =>
          cases world.listen with
          | false => rfl
          | true =>
            cases hinit : pollfdArrayInit world.pollfds with
            | none => rfl
            | some a =>
              simp [pollfdArrayInit_append hinit]

/-- The state in which `main` enters its loop when there was memory for the rooms. -/
def ServerEntry.state (entry : ServerEntry) (rooms : RoomArray) (streams : Fd → Stream) : MainState where
  server := ⟨entry.listener, entry.pollfds, rooms, .empty, entry.openFds⟩
  pc := .poll
  streams := streams

section

variable {inherited : List Fd} {world : ServerWorld} {entry : ServerEntry} {rooms : RoomArray}

theorem serverSetUp_entered (h : serverSetUp inherited world = .ok (some entry)) :
    world.listener = some entry.listener ∧ (∃ a, pollfdArrayInit world.pollfds = some a) ∧
      entry.pollfds = firstEntry entry.listener ∧ entry.rooms = roomArrayInit world.rooms numRooms ∧
      entry.openFds = entry.listener :: inherited := by
  rw [serverSetUp_eq] at h
  cases hlistener : world.listener with
  | none =>
    rw [hlistener] at h
    cases h
  | some listener =>
    rw [hlistener] at h
    dsimp only at h
    by_cases hinit : pollfdArrayInit world.pollfds = none
    · rw [if_pos hinit] at h
      cases h
    · rw [if_neg hinit] at h
      cases h
      exact ⟨rfl, Option.ne_none_iff_exists'.1 hinit, rfl, rfl, rfl⟩

/-- The listener is the socket of one of the addresses. -/
theorem ServerWorld.listener_mem {fd : Fd} (h : world.listener = some fd) :
    ∃ res p, world.res = some res ∧ p ∈ res ∧ p.socket = some fd := by
  obtain ⟨res, hres, h⟩ := Option.bind_eq_some_iff.1 h
  obtain ⟨p, hp, h⟩ := Option.bind_eq_some_iff.1 h
  split at h
  · exact ⟨res, p, hres, List.mem_of_find?_eq_some hp, h⟩
  · cases h

/-- With memory for the rooms the server enters its loop in the state from which its runs start. -/
theorem serverSetUp_initial (h : serverSetUp inherited world = .ok (some entry)) (hrooms : entry.rooms = some rooms)
    (fresh : ∀ res, world.res = some res → ∀ p ∈ res, Fresh inherited p.socket) (streams : Fd → Stream) :
    MainInitial pollfdArrayAppend (entry.state rooms streams) := by
  obtain ⟨hlistener, ⟨a, hinit⟩, hpollfds, hrooms', hopen⟩ := serverSetUp_entered h
  obtain ⟨res, p, hres, hp, hsocket⟩ := ServerWorld.listener_mem hlistener
  refine ⟨⟨⟨world.rooms, hrooms'.symm.trans hrooms⟩, ⟨world.pollfds, a, .failed, hinit, ?_⟩, rfl, ?_⟩, rfl, ?_⟩
  · rw [pollfdArrayInit_append hinit]
    exact congrArg (·, 0) hpollfds.symm
  · change entry.listener ∈ entry.openFds
    simp [hopen]
  · exact (fresh res hres p hp entry.listener hsocket).2

end

/-! ## Open descriptors -/

/-- A descriptor is opened for a new user, and closed with it. -/
theorem Connections.openFds {s s' : Server} {event : Event} {base : List Fd} (h : Connections s s' event)
    (hperm : s.openFds.Perm (s.userTable.ids ++ base)) : s'.openFds.Perm (s'.userTable.ids ++ base) := by
  cases h with
  | opened fd ids openFds =>
    rw [ids, openFds, List.append_assoc]
    exact (hperm.cons fd).trans List.perm_middle.symm
  | closed client i inside mem ids openFds =>
    have hids : s.userTable.ids.Perm (client :: s'.userTable.ids) := by
      have hnotMem : client ∉ s'.userTable.ids := fun hmem => ((ids client).1 hmem).2 rfl
      apply (List.perm_ext_iff_of_nodup s.userTable.nodup (List.nodup_cons.2 ⟨hnotMem, s'.userTable.nodup⟩)).2
      intro fd
      change fd ∈ s.userTable.ids ↔ _
      rw [List.mem_cons, ids]
      by_cases hfd : fd = client
      · simp [hfd, mem]
      · simp [hfd]
    rw [openFds]
    apply (hperm.erase client).trans
    apply ((hids.append_right base).erase client).trans
    simp
  | kept client received ids openFds =>
    rw [ids, openFds]
    exact hperm

theorem Step.nodup_openFds {append : Append} {s s' : Server} {env : Env} {event : Event} {outs : List Output}
    (step : Step append s (env, event) outs s') (h : Agree s.rooms s.userTable) (hnodup : s.openFds.Nodup) :
    s'.openFds.Nodup := by
  have hconn := (step.connections h).2
  cases step with
  | connect _ fd fresh handled =>
    cases hconn with
    | opened _ ids openFds =>
      rw [openFds]
      exact List.nodup_cons.2 ⟨fresh, hnodup⟩
  | terminate _ client i handled =>
    cases hconn with
    | closed _ _ inside mem ids openFds =>
      rw [openFds]
      exact hnodup.erase client
  | message _ client received handled success returned =>
    cases hconn with
    | kept _ _ ids openFds =>
      rw [openFds]
      exact hnodup

/-- The open descriptors are those of the users and `base`, and no descriptor counts twice. -/
structure Ledger (base : List Fd) (s : Server) : Prop where
  connected : Connected s
  openFds : s.openFds.Perm (s.userTable.ids ++ base)
  nodup : s.openFds.Nodup

/-- With memory for the rooms the server enters its loop with the inherited descriptors and the listener open. -/
theorem serverSetUp_ledger {inherited : List Fd} {world : ServerWorld} {entry : ServerEntry} {rooms : RoomArray}
    (h : serverSetUp inherited world = .ok (some entry)) (hrooms : entry.rooms = some rooms)
    (distinct : inherited.Nodup) (fresh : ∀ res, world.res = some res → ∀ p ∈ res, Fresh inherited p.socket)
    (streams : Fd → Stream) : Ledger (entry.listener :: inherited) (entry.state rooms streams).server := by
  have hinitial := serverSetUp_initial h hrooms fresh streams
  obtain ⟨hlistener, -, -, -, hopen⟩ := serverSetUp_entered h
  obtain ⟨res, p, hres, hp, hsocket⟩ := ServerWorld.listener_mem hlistener
  have hnew : entry.listener ∉ inherited := (fresh res hres p hp entry.listener hsocket).1
  refine ⟨hinitial.connected, ?_, ?_⟩
  · change entry.openFds.Perm ([] ++ entry.listener :: inherited)
    rw [hopen, List.nil_append]
  · change entry.openFds.Nodup
    rw [hopen]
    exact List.nodup_cons.2 ⟨hnew, distinct⟩

theorem Ledger.mainStep {append : Append} {base : List Fd} {s s' : MainState} {event : MainEvent} {effect : Effect}
    (h : Ledger base s.server) (step : MainStep append s event effect s') : Ledger base s'.server := by
  have connected := h.connected.mainStep step
  cases step with
  | arrive fd bytes unended => exact h
  | finish fd ending unended => exact h
  | poll revents pc => exact ⟨connected, h.openFds, h.nodup⟩
  | turn i turn pc inside fresh iterated =>
    obtain ⟨pfd, -, iter⟩ := iterated_of_next iterated
    rcases iter.server_step fresh with heq | ⟨event, outs, step, -⟩
    · rw [heq]
      exact h
    · have hagree := h.connected.agree
      exact ⟨connected, (step.connections hagree).2.openFds h.openFds, step.nodup_openFds hagree h.nodup⟩
  | endPass i pc outside => exact h

/-- The server leaks no descriptor.  From its start on, in every run, the descriptors that are open are those that
it inherited, the listener, and one for each connected user, and all of these are different. -/
theorem server_descriptors {inherited : List Fd} {world : ServerWorld} {entry : ServerEntry} {rooms : RoomArray}
    (setUp : serverSetUp inherited world = .ok (some entry)) (hrooms : entry.rooms = some rooms)
    (distinct : inherited.Nodup) (fresh : ∀ res, world.res = some res → ∀ p ∈ res, Fresh inherited p.socket)
    {streams : Fd → Stream} {trace : MainTrace} {s : MainState}
    (run : Run (MainStep pollfdArrayAppend) (entry.state rooms streams) trace s) :
    s.server.openFds.Perm (s.server.userTable.ids ++ entry.listener :: inherited) ∧
      (s.server.userTable.ids ++ entry.listener :: inherited).Nodup := by
  have hstart := serverSetUp_ledger setUp hrooms distinct fresh streams
  have hledger := run.invariant (fun s => Ledger (entry.listener :: inherited) s.server) hstart
    fun _ _ step h => h.mainStep step
  exact ⟨hledger.openFds, hledger.openFds.nodup_iff.1 hledger.nodup⟩

/-- The first address gives no socket and the second cannot be bound; one client is accepted. -/
theorem server_descriptors_three : ∃ s trace entry rooms, serverSetUp [0, 1, 2]
    ⟨.steady, .steady, some [⟨none, true, true⟩, ⟨some 3, true, false⟩, ⟨some 3, true, true⟩], true, .failed⟩ =
      .ok (some entry) ∧ Run (MainStep pollfdArrayAppend) (entry.state rooms fun _ => ⟨[], .open⟩) trace s ∧
    s.server.openFds.Perm [4, 3, 0, 1, 2] := by
  have setUp : serverSetUp [0, 1, 2] ⟨.steady, .steady,
      some [⟨none, true, true⟩, ⟨some 3, true, false⟩, ⟨some 3, true, true⟩], true, .failed⟩ =
    .ok (some ⟨3, firstEntry 3, roomArrayInit .steady numRooms, [3, 0, 1, 2]⟩) := serverSetUp_eq _ _
  have run : Run (MainStep pollfdArrayAppend)
      ((⟨3, firstEntry 3, roomArrayInit .steady numRooms, [3, 0, 1, 2]⟩ : ServerEntry).state
        (Server.start 3).rooms fun _ => ⟨[], .open⟩) [] _ := .start
  have run := run.turn (.poll (fun _ => pollin) rfl)
  have run := run.turn (.turn 0 ⟨.steady 0, .steady 4, some 4⟩ rfl (by decide) (.of_notMem (by decide)) rfl)
  have fresh : ∀ p ∈ [(⟨none, true, true⟩ : ListenAddress), ⟨some 3, true, false⟩, ⟨some 3, true, true⟩],
      Fresh [0, 1, 2] p.socket := by
    intro p hp
    simp only [List.mem_cons, List.not_mem_nil, or_false] at hp
    rcases hp with rfl | rfl | rfl
    · exact .none
    · exact .of_notMem (by decide)
    · exact .of_notMem (by decide)
  refine ⟨_, _, _, _, setUp, run, (server_descriptors setUp rfl (by decide) ?_ run).1⟩
  intro res hres
  cases hres
  exact fresh

/-! ## The client -/

/-- What the world outside contributes to the set-up of a client. -/
structure ClientWorld where
  pollfds : Heap
  res : Option (List ServerAddress)
  realloc : Realloc
  realloc' : Realloc

/-- What `main` of the client has when it enters its loop. -/
structure ClientEntry where
  server : Fd
  pollfds : PollfdArray
  openFds : List Fd

/-- `main` of the client up to its loop; `none` when it exits. -/
def clientSetUp (inherited : List Fd) (world : ClientWorld) : Checked (Option ClientEntry) :=
  let pollfds := pollfdArrayInit world.pollfds
  match world.res with
  | none => return none
  | some res =>
    match createServerSocket inherited res with
    | (none, _) => return none
    | (some server, openFds) =>
      match pollfds with
      | none => .error .null
      | some pollfds =>
        let (pollfds, status) := pollfdArrayAppend pollfds server pollin world.realloc
        if status ≠ 0 then return none
        else
          let (pollfds, status) := pollfdArrayAppend pollfds stdinFileno pollin world.realloc'
          if status ≠ 0 then return none
          else return some ⟨server, pollfds, openFds⟩

/-- The socket on which the client talks to the server. -/
def ClientWorld.server (world : ClientWorld) : Option Fd := do
  let res ← world.res
  let p ← res.find? ServerAddress.settles
  p.socket

/-- The poll array behind both appends. -/
def bothEntries (server : Fd) : PollfdArray := (pollfdArrayAppend (firstEntry server) stdinFileno pollin .failed).1

/-- `main` of the client exits when no address accepts a connection, and commits a fault when one does but there was
no memory for the poll array.  Else it enters its loop, with the inherited descriptors and the connection open. -/
theorem clientSetUp_eq (inherited : List Fd) (world : ClientWorld) :
    clientSetUp inherited world = match world.server with
      | none => .ok none
      | some server =>
        if pollfdArrayInit world.pollfds = none then .error .null
        else .ok (some ⟨server, bothEntries server, server :: inherited⟩) := by
  unfold clientSetUp ClientWorld.server
  cases world.res with
  | none => rfl
  | some res =>
    dsimp only [Option.bind_eq_bind, Option.bind_some]
    rw [createServerSocket_eq]
    cases hfind : res.find? ServerAddress.settles with
    | none => rfl
    | some p =>
      have hsettles := List.find?_some hfind
      obtain ⟨socket, connect⟩ := p
      cases socket with
      | none => simp [ServerAddress.settles] at hsettles
      | some server =>
        cases hinit : pollfdArrayInit world.pollfds with
        | none => rfl
        | some a =>
          dsimp only [Option.bind_some]
          rw [pollfdArrayInit_append hinit]
          rfl

/-- The state in which `main` enters its loop, with nothing received yet. -/
def ClientEntry.state (entry : ClientEntry) (stdin : Stdin) : ClientMain :=
  ⟨entry.server, entry.pollfds, .poll, ⟨[], .open⟩, stdin⟩

/-- A client that was started with its standard input open enters its loop in the state from which its runs
start. -/
theorem clientSetUp_initial {inherited : List Fd} {world : ClientWorld} {entry : ClientEntry}
    (h : clientSetUp inherited world = .ok (some entry)) (hstdin : stdinFileno ∈ inherited)
    (fresh : ∀ res, world.res = some res → ∀ p ∈ res, Fresh inherited p.socket) (stdin : Stdin) :
    ClientInitial (entry.state stdin) := by
  rw [clientSetUp_eq] at h
  cases hserver : world.server with
  | none =>
    rw [hserver] at h
    cases h
  | some server =>
    rw [hserver] at h
    dsimp only at h
    cases hinit : pollfdArrayInit world.pollfds with
    | none =>
      rw [if_pos hinit] at h
      cases h
    | some a =>
      rw [if_neg (by simp [hinit])] at h
      cases h
      obtain ⟨res, hres, h⟩ := Option.bind_eq_some_iff.1 hserver
      obtain ⟨p, hp, hsocket⟩ := Option.bind_eq_some_iff.1 h
      have hnew := (fresh res hres p (List.mem_of_find?_eq_some hp) server hsocket).1
      refine ⟨⟨world.pollfds, a, firstEntry server, .failed, .failed, hinit, pollfdArrayInit_append hinit _ _, rfl⟩,
        ?_, rfl⟩
      rintro rfl
      exact hnew hstdin

end ChatRooms
