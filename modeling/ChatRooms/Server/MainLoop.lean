import Mathlib.Data.Int.Interval
import ChatRooms.PollEntries
import ChatRooms.Server.Steps

/-!
# The main loop of the server

`main` of `server.c`, one iteration of its inner loop at a time.  `poll` may report any bits for the
entries of the poll array; the bytes of a client arrive at any time in any pieces, and its close,
its reset or another error of its socket follows them.  An iteration handles the entry at its index:
`POLLHUP` is tested before `POLLIN`.

* `iterate` is one iteration, with what it does as an `Effect`;
* `MainStep` are the steps between which the results about the loop are stated;
* `Iterated` lists what an iteration that does not leave the loop can be (`iterated_of_next`).
* `Connected` is what every run keeps, whatever the append to the poll array does.
-/

namespace ChatRooms

/-- Where `main` stands: before its `poll`, or before the test of the inner loop for an index. -/
inductive Pc where
  | poll
  | entry (i : ℕ)
deriving DecidableEq, Repr

/-- The state of `main`, and the bytes in front of it on each socket. -/
structure MainState where
  server : Server
  pc : Pc
  streams : Fd → Stream

/-- What the world outside contributes to one iteration: the environments of the handlers and of
`recvall`, and what `accept` returns. -/
structure TurnEnv where
  env : Env
  recv : RecvEnv
  accepted : Option Fd

/-- What one iteration does besides changing the state. -/
inductive Effect where
  | idle
  | accepted (fd : Option Fd)
  | handled (client : Fd) (received : Received) (outs : List Output)
  | terminated (client : Fd)

/-- How an iteration ends: `main` goes on, calls `exit`, is killed by `SIGPIPE`, or waits inside `recvall` or
`sendall`. -/
inductive Iteration where
  | next (s : MainState) (effect : Effect)
  | exited (outs : List Output)
  | killed (outs : List Output)
  | blocked

/-- The socket of an accepted connection starts with nothing to read. -/
def MainState.opened (s : MainState) (accepted : Option Fd) : Fd → Stream :=
  match accepted with
  | none => s.streams
  | some fd => Function.update s.streams fd ⟨[], .open⟩

/-- Terminates the client at index `i` and repeats the index. -/
def terminateAt (turn : TurnEnv) (client : Fd) (i : ℕ) (s : MainState) : Checked Iteration := do
  let (server, status) ← handleClientTermination turn.env client i s.server
  if status ≠ 0 then return .exited []
  else return .next { s with server, pc := .entry (repeatIndex i) } (.terminated client)

/-- One iteration of the inner loop of `main`, at an index that passed the loop's test. -/
def iterate (append : Append) (turn : TurnEnv) (i : ℕ) (s : MainState) : Checked Iteration := do
  let pfd ← s.server.pollfds.read i
  if pfd.revents &&& pollhup ≠ 0 then terminateAt turn pfd.fd i s
  else if pfd.revents &&& pollin ≠ 0 then
    if pfd.fd = s.server.listener then
      let (server, status) ← handleNewClient append turn.env turn.accepted s.server
      if status ≠ 0 then return .exited []
      else
        let streams := s.opened turn.accepted
        return .next { server, pc := .entry (nextIndex i), streams } (.accepted turn.accepted)
    else
      let (received, stream) := recvall turn.recv (s.streams pfd.fd)
      let s := { s with streams := Function.update s.streams pfd.fd stream }
      match ← handleClientMessage turn.env pfd.fd received s.server with
      | none => return .blocked
      | some (server, outs, status) =>
        let s := { s with server }
        if Killed turn.env outs then return .killed outs
        else if ¬ Returned turn.env outs then return .blocked
        else if status = 0 then terminateAt turn pfd.fd i s
        else if status = -1 then return .exited outs
        else return .next { s with pc := .entry (nextIndex i) } (.handled pfd.fd received outs)
  else return .next { s with pc := .entry (nextIndex i) } .idle

/-! ## Steps -/

/-- A value that `accept` can return: -1, or a descriptor that is not open. -/
def Fresh (openFds : List Fd) (accepted : Option Fd) : Prop :=
  ∀ fd, accepted = some fd → fd ∉ openFds ∧ 0 ≤ fd ∧ fd < 2 ^ 31

/-- What happens to the process: bytes arrive on a socket or its end does, `poll` returns, an
iteration takes place, or the inner loop ends. -/
inductive MainEvent where
  | arrive (fd : Fd) (bytes : Bytes)
  | finish (fd : Fd) (ending : StreamEnd)
  | poll (revents : ℕ → Events)
  | turn (i : ℕ) (env : TurnEnv)
  | endPass

/-- The steps of the process: no fault is committed, and `main` neither ends nor waits for a client.
Nothing arrives behind the end of a stream. -/
inductive MainStep (append : Append) : MainState → MainEvent → Effect → MainState → Prop
  | arrive (fd : Fd) (bytes : Bytes) {s : MainState} (unended : (s.streams fd).ending = .open) :
      MainStep append s (.arrive fd bytes) .idle
        { s with streams := Function.update s.streams fd ⟨(s.streams fd).pending ++ bytes, .open⟩ }
  | finish (fd : Fd) (ending : StreamEnd) {s : MainState} (unended : (s.streams fd).ending = .open) :
      MainStep append s (.finish fd ending) .idle
        { s with streams := Function.update s.streams fd ⟨(s.streams fd).pending, ending⟩ }
  | poll (revents : ℕ → Events) {s : MainState} (pc : s.pc = .poll) :
      MainStep append s (.poll revents) .idle { s with
        server := { s.server with pollfds := s.server.pollfds.report revents }
        pc := .entry 0 }
  | turn (i : ℕ) (env : TurnEnv) {s s' : MainState} {effect : Effect} (pc : s.pc = .entry i)
      (inside : i < s.server.pollfds.len) (fresh : Fresh s.server.openFds env.accepted)
      (iterated : iterate append env i s = .ok (.next s' effect)) :
      MainStep append s (.turn i env) effect s'
  | endPass (i : ℕ) {s : MainState} (pc : s.pc = .entry i) (outside : ¬ i < s.server.pollfds.len) :
      MainStep append s .endPass .idle { s with pc := .poll }

/-- A step of the process in a trace. -/
abbrev MainTurn := Turn MainState MainEvent Effect

/-- A trace of the process. -/
abbrev MainTrace := List MainTurn

/-- The states in which `main` enters its loop. -/
structure MainInitial (append : Append) (s : MainState) : Prop where
  server : Initial append s.server
  pc : s.pc = .poll
  listener : 0 ≤ s.server.listener ∧ s.server.listener < 2 ^ 31

/-- The state in which `main` enters its loop when every allocation succeeds. -/
def MainState.start (listener : Fd) : MainState := ⟨.start listener, .poll, fun _ => ⟨[], .open⟩⟩

theorem MainState.start_initial {listener : Fd} (h : 0 ≤ listener ∧ listener < 2 ^ 31) :
    MainInitial pollfdArrayAppend (.start listener) where
  server := Server.start_initial listener
  pc := rfl
  listener := h

theorem Fresh.none {openFds : List Fd} : Fresh openFds none := fun _ h => nomatch h

theorem Fresh.of_notMem {openFds : List Fd} {fd : Fd} (h : fd ∉ openFds ∧ 0 ≤ fd ∧ fd < 2 ^ 31) :
    Fresh openFds (some fd) := by
  intro v hv
  cases hv
  exact h

/-! ## What an iteration can be -/

/-- The iterations that do not leave the loop, for the entry `pfd` at index `i`. -/
inductive Iterated (append : Append) (turn : TurnEnv) (i : ℕ) (s : MainState) (pfd : Pollfd) :
    MainState → Effect → Prop
  | hangup {server : Server} (hup : pfd.revents &&& pollhup ≠ 0)
      (gone : handleClientTermination turn.env pfd.fd i s.server = .ok (server, 0)) :
      Iterated append turn i s pfd { s with server, pc := .entry (repeatIndex i) } (.terminated pfd.fd)
  | connected {server : Server} {fd : Fd} (hup : pfd.revents &&& pollhup = 0)
      (input : pfd.revents &&& pollin ≠ 0) (listener : pfd.fd = s.server.listener)
      (accept : turn.accepted = some fd)
      (added : handleNewClient append turn.env (some fd) s.server = .ok (server, 0)) :
      Iterated append turn i s pfd
        ⟨server, .entry (nextIndex i), Function.update s.streams fd ⟨[], .open⟩⟩ (.accepted (some fd))
  | message {server : Server} {outs : List Output} {buf : Bytes} {n : ℕ} {stream : Stream}
      (hup : pfd.revents &&& pollhup = 0) (input : pfd.revents &&& pollin ≠ 0)
      (client : pfd.fd ≠ s.server.listener)
      (recv : recvall turn.recv (s.streams pfd.fd) = (.message buf n, stream))
      (success : handleClientMessage turn.env pfd.fd (.message buf n) s.server =
        .ok (some (server, outs, 1))) (returned : Returned turn.env outs) :
      Iterated append turn i s pfd
        ⟨server, .entry (nextIndex i), Function.update s.streams pfd.fd stream⟩
        (.handled pfd.fd (.message buf n) outs)
  | closed {server : Server} {stream : Stream} (hup : pfd.revents &&& pollhup = 0)
      (input : pfd.revents &&& pollin ≠ 0) (client : pfd.fd ≠ s.server.listener)
      (recv : recvall turn.recv (s.streams pfd.fd) = (.closed, stream))
      (gone : handleClientTermination turn.env pfd.fd i s.server = .ok (server, 0)) :
      Iterated append turn i s pfd
        ⟨server, .entry (repeatIndex i), Function.update s.streams pfd.fd stream⟩ (.terminated pfd.fd)
  | idle (hup : pfd.revents &&& pollhup = 0) (input : pfd.revents &&& pollin = 0) :
      Iterated append turn i s pfd { s with pc := .entry (nextIndex i) } .idle

theorem iterate_of_hangup {append : Append} {turn : TurnEnv} {i : ℕ} {s : MainState} {pfd : Pollfd}
    (hread : s.server.pollfds.read i = .ok pfd) (hup : pfd.revents &&& pollhup ≠ 0) :
    iterate append turn i s = terminateAt turn pfd.fd i s := by
  rw [iterate, hread, Checked.ok_bind, if_pos hup]

/-- The termination of a connected client at an index inside the poll array succeeds. -/
theorem terminateAt_user (turn : TurnEnv) {s : MainState} (h : Agree s.server.rooms s.server.userTable)
    {c : Fd} (hc : c ∈ s.server.userTable.ids) {i : ℕ} (hi : i < s.server.pollfds.len) :
    ∃ s', terminateAt turn c i s = .ok (.next s' (.terminated c)) := by
  obtain ⟨user, hu, rfl⟩ := List.mem_map.1 hc
  obtain ⟨rooms', table', hspec, -⟩ := handleClientTermination_spec turn.env h hu hi
  unfold terminateAt
  rw [hspec]
  exact ⟨_, rfl⟩

theorem terminateAt_eq_next {turn : TurnEnv} {client : Fd} {i : ℕ} {s s' : MainState} {effect : Effect}
    (h : terminateAt turn client i s = .ok (.next s' effect)) :
    ∃ server, handleClientTermination turn.env client i s.server = .ok (server, 0) ∧
      s' = { s with server, pc := .entry (repeatIndex i) } ∧ effect = .terminated client := by
  obtain ⟨⟨server, status⟩, hgone, h⟩ := Checked.bind_eq_ok.1 h
  dsimp only at h
  split at h
  · cases h
  · rename_i hstatus
    rw [not_not] at hstatus
    subst hstatus
    cases h
    exact ⟨server, hgone, rfl, rfl⟩

/-- Handling a message ends with 1 or -1; the status 0 is left for a closed connection. -/
theorem handleClientMessage_status {env : Env} {client : Fd} {received : Received} {s s' : Server}
    {outs : List Output} {status : ℤ}
    (h : handleClientMessage env client received s = .ok (some (s', outs, status))) :
    status = -1 ∨ received = .closed ∧ s' = s ∧ status = 0 ∨
      (∃ buf n, received = .message buf n) ∧ status = 1 := by
  cases received with
  | waits => cases h
  | failed =>
    cases h
    exact .inl rfl
  | closed =>
    cases h
    exact .inr (.inl ⟨rfl, rfl, rfl⟩)
  | message buf n =>
    rcases handleClientMessage_dispatched h with ⟨-, -, rfl⟩ | ⟨user, -, hdispatched⟩
    · exact .inl rfl
    · cases hdispatched with
      | chat =>
        split
        · exact .inl rfl
        · exact .inr (.inr ⟨⟨buf, n, rfl⟩, rfl⟩)
      | join => exact .inr (.inr ⟨⟨buf, n, rfl⟩, rfl⟩)
      | name => exact .inr (.inr ⟨⟨buf, n, rfl⟩, rfl⟩)
      | invalid => exact .inl rfl

/-- An iteration that does not leave the loop is one of those listed. -/
theorem iterated_of_next {append : Append} {turn : TurnEnv} {i : ℕ} {s s' : MainState} {effect : Effect}
    (h : iterate append turn i s = .ok (.next s' effect)) :
    ∃ pfd, s.server.pollfds.read i = .ok pfd ∧ Iterated append turn i s pfd s' effect := by
  obtain ⟨pfd, hread, h⟩ := Checked.bind_eq_ok.1 h
  refine ⟨pfd, hread, ?_⟩
  by_cases hhup : pfd.revents &&& pollhup = 0
  · rw [if_neg (not_not.2 hhup)] at h
    by_cases hin : pfd.revents &&& pollin = 0
    · rw [if_neg (not_not.2 hin)] at h
      cases h
      exact .idle hhup hin
    · rw [if_pos hin] at h
      by_cases hlistener : pfd.fd = s.server.listener
      · rw [if_pos hlistener] at h
        obtain ⟨⟨server, status⟩, hadded, h⟩ := Checked.bind_eq_ok.1 h
        dsimp only at h
        split at h
        · cases h
        · rename_i hstatus
          rw [not_not] at hstatus
          subst hstatus
          obtain ⟨fd, -, -, haccept, -⟩ := handleNewClient_eq_zero hadded
          rw [haccept] at hadded
          have hopened : s.opened turn.accepted = Function.update s.streams fd ⟨[], .open⟩ := by
            rw [haccept]
            rfl
          rw [hopened, haccept] at h
          cases h
          exact .connected hhup hin hlistener haccept hadded
      · rw [if_neg hlistener] at h
        generalize hrecv : recvall turn.recv (s.streams pfd.fd) = result at h
        obtain ⟨received, stream⟩ := result
        obtain ⟨handled, hhandle, h⟩ := Checked.bind_eq_ok.1 h
        dsimp only at hhandle h
        cases handled with
        | none => cases h
        | some handled =>
          obtain ⟨server, outs, status⟩ := handled
          dsimp only at h
          by_cases hkilled : Killed turn.env outs
          · rw [if_pos hkilled] at h
            cases h
          rw [if_neg hkilled] at h
          by_cases hreturned : Returned turn.env outs
          swap
          · rw [if_pos hreturned] at h
            cases h
          rw [if_neg (not_not.2 hreturned)] at h
          rcases handleClientMessage_status hhandle with rfl | ⟨rfl, rfl, rfl⟩ | ⟨⟨buf, n, rfl⟩, rfl⟩
          · cases h
          · rw [if_pos rfl] at h
            obtain ⟨server', hgone, rfl, rfl⟩ := terminateAt_eq_next h
            exact .closed hhup hin hlistener hrecv hgone
          · cases h
            exact .message hhup hin hlistener hrecv hhandle hreturned
  · rw [if_pos hhup] at h
    obtain ⟨server, hgone, rfl, rfl⟩ := terminateAt_eq_next h
    exact .hangup hhup hgone

/-! ## What every run keeps -/

/-- An iteration that changes the server's data is a step of the server. -/
theorem Iterated.server_step {append : Append} {turn : TurnEnv} {i : ℕ} {s s' : MainState}
    {pfd : Pollfd} {effect : Effect} (fresh : Fresh s.server.openFds turn.accepted)
    (h : Iterated append turn i s pfd s' effect) :
    s'.server = s.server ∨ ∃ event outs, Step append s.server (turn.env, event) outs s'.server ∧
      ∀ fd, event = .connect fd → Fresh s.server.openFds (some fd) := by
  cases h with
  | hangup hup gone => exact .inr ⟨_, _, .terminate _ _ _ gone, fun _ he => nomatch he⟩
  | connected hup input listener accept added =>
    rw [accept] at fresh
    refine .inr ⟨_, _, .connect _ _ (fresh _ rfl).1 added, fun _ he => ?_⟩
    cases he
    exact fresh
  | message hup input client recv success returned =>
    exact .inr ⟨_, _, .message _ _ _ success (by decide) returned, fun _ he => nomatch he⟩
  | closed hup input client recv gone =>
    exact .inr ⟨_, _, .terminate _ _ _ gone, fun _ he => nomatch he⟩
  | idle hup input => exact .inl rfl

/-- Rooms and users agree, names are C strings, and the listener and the sockets of the users are
different open descriptors. -/
structure Connected (s : Server) : Prop where
  agree : Agree s.rooms s.userTable
  named : Named s.userTable
  listener : s.listener ∉ s.userTable.ids
  opened : ∀ fd, fd = s.listener ∨ fd ∈ s.userTable.ids → fd ∈ s.openFds ∧ 0 ≤ fd ∧ fd < 2 ^ 31

namespace Connected

theorem step {append : Append} {s s' : Server} {env : Env} {event : Event} {outs : List Output}
    (h : Connected s) (step : Step append s (env, event) outs s')
    (fresh : ∀ fd, event = .connect fd → Fresh s.openFds (some fd)) : Connected s' := by
  obtain ⟨hlistener, hconn⟩ := step.connections h.agree
  refine ⟨step.agree h.agree, step.named h.agree h.named, ?_, ?_⟩
  · rw [hlistener]
    cases hconn with
    | opened fd ids openFds =>
      rw [ids, List.mem_append, List.mem_singleton, not_or]
      refine ⟨h.listener, fun he => ?_⟩
      exact (fresh fd rfl fd rfl).1 (he ▸ (h.opened _ (.inl rfl)).1)
    | closed client i inside mem ids openFds => exact fun hl => h.listener ((ids _).1 hl).1
    | kept client received ids openFds =>
      rw [ids]
      exact h.listener
  · intro v hv
    rw [hlistener] at hv
    cases hconn with
    | opened fd ids openFds =>
      rw [ids, List.mem_append, List.mem_singleton, ← or_assoc] at hv
      rw [openFds]
      rcases hv with hv | rfl
      · exact ⟨List.mem_cons_of_mem _ (h.opened v hv).1, (h.opened v hv).2⟩
      · exact ⟨List.mem_cons_self, (fresh v rfl v rfl).2⟩
    | closed client i inside mem ids openFds =>
      have hne : v ≠ client := by
        rcases hv with rfl | hv
        · exact fun he => h.listener (he ▸ mem)
        · exact ((ids v).1 hv).2
      have hopen := h.opened v (hv.imp_right fun hv => ((ids v).1 hv).1)
      rw [openFds]
      exact ⟨(List.mem_erase_of_ne hne).2 hopen.1, hopen.2⟩
    | kept client received ids openFds =>
      rw [ids] at hv
      rw [openFds]
      exact h.opened v hv

theorem iterated {append : Append} {turn : TurnEnv} {i : ℕ} {s s' : MainState} {pfd : Pollfd}
    {effect : Effect} (h : Connected s.server) (fresh : Fresh s.server.openFds turn.accepted)
    (iter : Iterated append turn i s pfd s' effect) : Connected s'.server := by
  rcases iter.server_step fresh with heq | ⟨event, outs, step, hfresh⟩
  · rw [heq]
    exact h
  · exact h.step step hfresh

theorem mainStep {append : Append} {s s' : MainState} {event : MainEvent} {effect : Effect}
    (h : Connected s.server) (step : MainStep append s event effect s') : Connected s'.server := by
  cases step with
  | arrive fd bytes unended => exact h
  | finish fd ending unended => exact h
  | poll revents pc => exact ⟨h.agree, h.named, h.listener, h.opened⟩
  | turn i env pc inside fresh iterated =>
    obtain ⟨pfd, -, iter⟩ := iterated_of_next iterated
    exact h.iterated fresh iter
  | endPass i pc outside => exact h

/-- A user stays connected until it is terminated. -/
theorem mem_ids {append : Append} {s s' : MainState} {event : MainEvent} {effect : Effect} {c : Fd}
    (h : Connected s.server) (step : MainStep append s event effect s')
    (hc : c ∈ s.server.userTable.ids) (stays : effect ≠ .terminated c) :
    c ∈ s'.server.userTable.ids := by
  have gone {env : Env} {client : Fd} {i : ℕ} {server : Server} (hne : client ≠ c)
      (handled : handleClientTermination env client i s.server = .ok (server, 0)) :
      c ∈ server.userTable.ids := by
    have hstep : Step append s.server (env, .terminate client i) [] server := .terminate _ _ _ handled
    cases (hstep.connections h.agree).2 with
    | closed _ _ inside mem ids openFds => exact (ids c).2 ⟨hc, hne.symm⟩
  cases step with
  | arrive fd bytes unended => exact hc
  | finish fd ending unended => exact hc
  | poll revents pc => exact hc
  | turn i turn pc inside fresh iterated =>
    obtain ⟨pfd, -, iter⟩ := iterated_of_next iterated
    cases iter with
    | hangup hup handled => exact gone (fun he => stays (by rw [he])) handled
    | connected hup input listener accept added =>
      have hstep : Step append s.server (turn.env, .connect _) [] _ :=
        .connect _ _ (fresh _ accept).1 added
      cases (hstep.connections h.agree).2 with
      | opened _ ids openFds =>
        rw [ids]
        exact List.mem_append_left _ hc
    | message hup input client recv success returned =>
      have hstep : Step append s.server (turn.env, .message _ _) _ _ :=
        .message _ _ _ success (by decide) returned
      cases (hstep.connections h.agree).2 with
      | kept _ _ ids openFds =>
        rw [ids]
        exact hc
    | closed hup input client recv handled => exact gone (fun he => stays (by rw [he])) handled
    | idle hup input => exact hc
  | endPass i pc outside => exact hc

/-- A descriptor that is not open belongs to no user. -/
theorem notMem_of_not_open {s : Server} (h : Connected s) {fd : Fd} (hfd : fd ∉ s.openFds) :
    fd ≠ s.listener ∧ fd ∉ s.userTable.ids :=
  not_or.1 fun hmem => hfd (h.opened fd hmem).1

/-- There are fewer users than descriptors. -/
theorem length_ids_lt {s : Server} (h : Connected s) : s.userTable.ids.length < 2 ^ 31 := by
  have hnodup : (s.listener :: s.userTable.ids).Nodup := List.nodup_cons.2 ⟨h.listener, s.userTable.nodup⟩
  have hsub : (s.listener :: s.userTable.ids).toFinset ⊆ Finset.Ico (0 : ℤ) (2 ^ 31) := by
    intro fd hfd
    exact Finset.mem_Ico.2 (h.opened fd (List.mem_cons.1 (List.mem_toFinset.1 hfd))).2
  have hcard := Finset.card_le_card hsub
  rw [List.toFinset_card_of_nodup hnodup, List.length_cons, Int.card_Ico] at hcard
  omega

end Connected

theorem MainInitial.connected {append : Append} {s : MainState} (h : MainInitial append s) :
    Connected s.server := by
  have htable := h.server.userTable
  have hempty : s.server.userTable.ids = [] := by
    rw [htable]
    rfl
  refine ⟨h.server.agree, ?_, ?_, fun fd hfd => ?_⟩
  · rw [htable]
    exact fun _ hu => nomatch hu
  · rw [hempty]
    exact List.not_mem_nil
  · rw [hempty] at hfd
    rcases hfd with rfl | hfd
    · exact ⟨h.server.openFds, h.listener⟩
    · cases hfd

/-- Whatever the append does, the connections stay in order in every run. -/
theorem Run.connected {append : Append} {s₀ s : MainState} {trace : MainTrace}
    (h₀ : MainInitial append s₀) (run : Run (MainStep append) s₀ trace s) : Connected s.server :=
  run.invariant (fun s => Connected s.server) h₀.connected fun _ _ step h => h.mainStep step

end ChatRooms
