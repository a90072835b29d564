import ChatRooms.Server.Hashed
import ChatRooms.Server.MainLoop

/-!
# The main loop on the hash table

`main` of `server.c` once more, with the handlers that work on the hash table of users.

* `HashedMain.iterate_matched`: an iteration is the one on the finite map, unless the process ends for want of
  memory;
* `HashedMainStep.step`: a step is one on the finite map, with the same effect.
-/

namespace ChatRooms

/-- The state of `main`, with the hash table of users. -/
structure HashedMain where
  server : HashedServer
  pc : Pc
  streams : Fd → Stream

/-- How an iteration ends. -/
inductive HashedIteration where
  | next (s : HashedMain) (effect : Effect)
  | exited (outs : List Output)
  | killed (outs : List Output)
  | blocked

namespace HashedMain

/-- The socket of an accepted connection starts with nothing to read. -/
def opened (s : HashedMain) (accepted : Option Fd) : Fd → Stream :=
  match accepted with
  | none => s.streams
  | some fd => Function.update s.streams fd ⟨[], .open⟩

/-- Terminates the client at index `i` and repeats the index. -/
def terminateAt (turn : TurnEnv) (client : Fd) (i : ℕ) (s : HashedMain) : Except HashStop HashedIteration := do
  let (server, status) ← s.server.handleClientTermination turn.env client i
  if status ≠ 0 then return .exited []
  else return .next { s with server, pc := .entry (repeatIndex i) } (.terminated client)

/-- One iteration of the inner loop of `main`; `addr` is where `malloc` puts a new record. -/
def iterate (append : Append) (turn : TurnEnv) (addr : Addr) (i : ℕ) (s : HashedMain) :
    Except HashStop HashedIteration := do
  let pfd ← (s.server.pollfds.read i).hashed
  if pfd.revents &&& pollhup ≠ 0 then s.terminateAt turn pfd.fd i
  else if pfd.revents &&& pollin ≠ 0 then
    if pfd.fd = s.server.listener then
      let (server, status) ← s.server.handleNewClient append turn.env addr turn.accepted
      if status ≠ 0 then return .exited []
      else
        let streams := s.opened turn.accepted
        return .next { server, pc := .entry (nextIndex i), streams } (.accepted turn.accepted)
    else
      let (received, stream) := recvall turn.recv (s.streams pfd.fd)
      let s := { s with streams := Function.update s.streams pfd.fd stream }
      match ← s.server.handleClientMessage turn.env pfd.fd received with
      | none => return .blocked
      | some (server, outs, status) =>
        let s := { s with server }
        if Killed turn.env outs then return .killed outs
        else if ¬ Returned turn.env outs then return .blocked
        else if status = 0 then s.terminateAt turn pfd.fd i
        else if status = -1 then return .exited outs
        else return .next { s with pc := .entry (nextIndex i) } (.handled pfd.fd received outs)
  else return .next { s with pc := .entry (nextIndex i) } .idle

end HashedMain

/-- The steps of the process, on a host of one byte order.  `malloc` hands out an address that is not in use, and
`poll` reports nothing for an entry whose `fd` is no descriptor. -/
inductive HashedMainStep (append : Append) (host : ByteOrder) : HashedMain → MainEvent → Effect → HashedMain → Prop
  | arrive (fd : Fd) (bytes : Bytes) {s : HashedMain} (unended : (s.streams fd).ending = .open) :
      HashedMainStep append host s (.arrive fd bytes) .idle
        { s with streams := Function.update s.streams fd ⟨(s.streams fd).pending ++ bytes, .open⟩ }
  | finish (fd : Fd) (ending : StreamEnd) {s : HashedMain} (unended : (s.streams fd).ending = .open) :
      HashedMainStep append host s (.finish fd ending) .idle
        { s with streams := Function.update s.streams fd ⟨(s.streams fd).pending, ending⟩ }
  | poll (revents : ℕ → Events) {s : HashedMain} (pc : s.pc = .poll) :
      HashedMainStep append host s (.poll revents) .idle { s with
        server := { s.server with pollfds := s.server.pollfds.report revents }
        pc := .entry 0 }
  | turn (i : ℕ) (env : TurnEnv) (addr : Addr) {s s' : HashedMain} {effect : Effect} (pc : s.pc = .entry i)
      (inside : i < s.server.pollfds.len) (fresh : Fresh s.server.openFds env.accepted) (order : env.env.host = host)
      (bounded : env.env.heap.Bounded) (unused : addr ∉ s.server.users.live)
      (isFd : ∀ pfd, s.server.pollfds.read i = .ok pfd → pfd.revents ≠ 0 → IsFd pfd.fd)
      (iterated : s.iterate append env addr i = .ok (.next s' effect)) :
      HashedMainStep append host s (.turn i env) effect s'
  | endPass (i : ℕ) {s : HashedMain} (pc : s.pc = .entry i) (outside : ¬ i < s.server.pollfds.len) :
      HashedMainStep append host s .endPass .idle { s with pc := .poll }

/-- Two states of `main` with the same data. -/
structure HashedMain.Refines (host : ByteOrder) (c : HashedMain) (s : MainState) : Prop where
  server : c.server.Refines host s.server
  pc : c.pc = s.pc
  streams : c.streams = s.streams

/-- Both iterations end in the same way, with states of the same data. -/
def SameIteration (host : ByteOrder) : HashedIteration → Iteration → Prop
  | .next c effect, .next s effect' => c.Refines host s ∧ effect = effect'
  | .exited outs, .exited outs' => outs = outs'
  | .killed outs, .killed outs' => outs = outs'
  | .blocked, .blocked => True
  | _, _ => False

namespace HashedMain.Refines

variable {append : Append} {turn : TurnEnv} {addr : Addr} {c : HashedMain} {s : MainState}

theorem terminateAt (h : c.Refines turn.env.host s) {client : Fd} (hclient : IsFd client) (i : ℕ) :
    Matched (SameIteration turn.env.host) (c.terminateAt turn client i) (ChatRooms.terminateAt turn client i s) := by
  unfold HashedMain.terminateAt ChatRooms.terminateAt
  apply Matched.bind (h.server.clientTermination hclient i)
  rintro ⟨server, status⟩ ⟨server', status'⟩ - - ⟨hserver, hstatus⟩
  dsimp only at hserver hstatus ⊢
  subst hstatus
  by_cases hzero : status ≠ 0
  · rw [if_pos hzero, if_pos hzero]
    exact .ok rfl
  · rw [if_neg hzero, if_neg hzero]
    exact .ok ⟨⟨hserver, rfl, h.streams⟩, rfl⟩

/-- A message is handled alike. -/
theorem message (h : c.Refines turn.env.host s) {client : Fd} (hclient : IsFd client) (received : Received) (i : ℕ) :
    Matched (SameIteration turn.env.host)
      (c.server.handleClientMessage turn.env client received >>= fun handled => match handled with
        | none => return .blocked
        | some (server, outs, status) =>
          if Killed turn.env outs then return .killed outs
          else if ¬ Returned turn.env outs then return .blocked
          else if status = 0 then ({ c with server } : HashedMain).terminateAt turn client i
          else if status = -1 then return .exited outs
          else return .next { c with server, pc := .entry (nextIndex i) } (.handled client received outs))
      (handleClientMessage turn.env client received s.server >>= fun handled => match handled with
        | none => return .blocked
        | some (server, outs, status) =>
          if Killed turn.env outs then return .killed outs
          else if ¬ Returned turn.env outs then return .blocked
          else if status = 0 then ChatRooms.terminateAt turn client i { s with server }
          else if status = -1 then return .exited outs
          else return .next { s with server, pc := .entry (nextIndex i) } (.handled client received outs)) := by
  apply Matched.bind (h.server.clientMessage hclient received)
  intro handled handled' _ _ hsame
  cases handled with
  | none =>
    cases handled' with
    | none => exact .ok trivial
    | some _ => exact hsame.elim
  | some handled =>
    cases handled' with
    | none => exact hsame.elim
    | some handled' =>
      obtain ⟨server, outs, status⟩ := handled
      obtain ⟨server', outs', status'⟩ := handled'
      obtain ⟨hserver, rfl, rfl⟩ := hsame
      dsimp only
      by_cases hkilled : Killed turn.env outs
      · rw [if_pos hkilled, if_pos hkilled]
        exact .ok rfl
      rw [if_neg hkilled, if_neg hkilled]
      by_cases hwaits : ¬ Returned turn.env outs
      · rw [if_pos hwaits, if_pos hwaits]
        exact .ok trivial
      rw [if_neg hwaits, if_neg hwaits]
      by_cases hzero : status = 0
      · rw [if_pos hzero, if_pos hzero]
        have h' : ({ c with server } : HashedMain).Refines turn.env.host { s with server := server' } :=
          ⟨hserver, h.pc, h.streams⟩
        exact h'.terminateAt hclient i
      · rw [if_neg hzero, if_neg hzero]
        by_cases hfail : status = -1
        · rw [if_pos hfail, if_pos hfail]
          exact .ok rfl
        · rw [if_neg hfail, if_neg hfail]
          exact .ok ⟨⟨hserver, rfl, h.streams⟩, rfl⟩

/-- A new client is handled alike. -/
theorem newClient (h : c.Refines turn.env.host s) (append : Append) (bounded : turn.env.heap.Bounded)
    (unused : addr ∉ c.server.users.live) (isFd : ∀ fd, turn.accepted = some fd → IsFd fd) (i : ℕ) :
    Matched (SameIteration turn.env.host)
      (c.server.handleNewClient append turn.env addr turn.accepted >>= fun (server, status) =>
        if status ≠ 0 then return .exited []
        else return .next ⟨server, .entry (nextIndex i), c.opened turn.accepted⟩ (.accepted turn.accepted))
      (handleNewClient append turn.env turn.accepted s.server >>= fun (server, status) =>
        if status ≠ 0 then return .exited []
        else return .next ⟨server, .entry (nextIndex i), s.opened turn.accepted⟩ (.accepted turn.accepted)) := by
  have hopened : c.opened turn.accepted = s.opened turn.accepted := by
    cases turn.accepted with
    | none => exact h.streams
    | some fd => exact congrArg (Function.update · fd ⟨[], .open⟩) h.streams
  rw [hopened]
  cases haccepted : turn.accepted with
  | none => exact .ok rfl
  | some fd =>
    apply Matched.bind (h.server.newClient append bounded unused (isFd fd haccepted))
    rintro ⟨server, status⟩ ⟨server', status'⟩ - - ⟨hserver, hstatus⟩
    dsimp only at hserver hstatus ⊢
    subst hstatus
    by_cases hzero : status ≠ 0
    · rw [if_pos hzero, if_pos hzero]
      exact .ok rfl
    · rw [if_neg hzero, if_neg hzero]
      exact .ok ⟨⟨hserver, rfl, rfl⟩, rfl⟩

/-- An iteration is the one on the finite map, or the process ends for want of memory. -/
theorem iterate (h : c.Refines turn.env.host s) (append : Append) (bounded : turn.env.heap.Bounded)
    (unused : addr ∉ c.server.users.live) (accepted : ∀ fd, turn.accepted = some fd → IsFd fd) {i : ℕ}
    (isFd : ∀ pfd, s.server.pollfds.read i = .ok pfd → pfd.revents ≠ 0 → IsFd pfd.fd) :
    Matched (SameIteration turn.env.host) (c.iterate append turn addr i) (ChatRooms.iterate append turn i s) := by
  have hpollfds : c.server.pollfds = s.server.pollfds := h.server.pollfds
  have hlistener : c.server.listener = s.server.listener := h.server.listener
  unfold HashedMain.iterate ChatRooms.iterate
  rw [hpollfds]
  apply Matched.bind (.hashed _)
  rintro pfd _ - hread rfl
  have hreports : ∀ {bits : Events}, pfd.revents &&& bits ≠ 0 → IsFd pfd.fd := by
    intro bits hbits
    apply isFd pfd hread
    intro hzero
    apply hbits
    simp [hzero]
  by_cases hup : pfd.revents &&& pollhup ≠ 0
  · rw [if_pos hup, if_pos hup]
    exact h.terminateAt (hreports hup) i
  rw [if_neg hup, if_neg hup]
  by_cases input : pfd.revents &&& pollin ≠ 0
  · rw [if_pos input, if_pos input, hlistener]
    by_cases listener : pfd.fd = s.server.listener
    · rw [if_pos listener, if_pos listener]
      exact h.newClient append bounded unused accepted i
    · rw [if_neg listener, if_neg listener, h.streams]
      generalize recvall turn.recv (s.streams pfd.fd) = result
      obtain ⟨received, stream⟩ := result
      have h' : ({ c with streams := Function.update s.streams pfd.fd stream } : HashedMain).Refines turn.env.host
          { s with streams := Function.update s.streams pfd.fd stream } := ⟨h.server, h.pc, rfl⟩
      exact h'.message (hreports input) received i
  · rw [if_neg input, if_neg input]
    exact .ok ⟨⟨h.server, rfl, h.streams⟩, rfl⟩

end HashedMain.Refines

/-- A step on the hash table is a step on the finite map. -/
theorem HashedMainStep.step {append : Append} {host : ByteOrder} {c c' : HashedMain} {s : MainState}
    {event : MainEvent} {effect : Effect} (h : c.Refines host s) (step : HashedMainStep append host c event effect c') :
    ∃ s', MainStep append s event effect s' ∧ c'.Refines host s' := by
  have hpollfds := h.server.pollfds
  cases step with
  | arrive fd bytes unended =>
    rw [h.streams] at unended ⊢
    exact ⟨_, .arrive fd bytes unended, h.server, h.pc, rfl⟩
  | finish fd ending unended =>
    rw [h.streams] at unended ⊢
    exact ⟨_, .finish fd ending unended, h.server, h.pc, rfl⟩
  | poll revents pc =>
    refine ⟨_, .poll revents (h.pc ▸ pc), ?_, rfl, h.streams⟩
    rw [hpollfds]
    exact h.server.withPollfds _
  | turn i env addr pc inside fresh order bounded unused isFd iterated =>
    subst order
    rw [hpollfds] at inside
    rw [h.server.openFds] at fresh
    have haccepted : ∀ fd, env.accepted = some fd → IsFd fd := fun fd hfd => (fresh fd hfd).2
    obtain ⟨iteration, hs, hsame⟩ :=
      (h.iterate append bounded unused haccepted (by rwa [hpollfds] at isFd)).of_ok iterated
    cases iteration with
    | next s' effect' =>
      obtain ⟨hrefines, rfl⟩ := hsame
      exact ⟨s', .turn i env (h.pc ▸ pc) inside fresh hs, hrefines⟩
    | exited outs => exact hsame.elim
    | killed outs => exact hsame.elim
    | blocked => exact hsame.elim
  | endPass i pc outside =>
    rw [hpollfds] at outside
    exact ⟨_, .endPass i (h.pc ▸ pc) outside, h.server, rfl, h.streams⟩

/-! ## The start -/

/-- The state of `main`, with a hash table in the place of its finite map. -/
def MainState.onHash (s : MainState) (users : UserHash) : HashedMain := ⟨s.server.onHash users, s.pc, s.streams⟩

/-- The states in which `main` enters its loop: no table has been made yet, and the memory holds anything. -/
def HashedInitial (c : HashedMain) : Prop :=
  ∃ s garbage, MainInitial pollfdArrayAppend s ∧ c = s.onHash (.empty garbage)

theorem MainInitial.onHash_refines {s : MainState} (h₀ : MainInitial pollfdArrayAppend s) (garbage : Addr → User)
    (host : ByteOrder) : (s.onHash (.empty garbage)).Refines host s := by
  refine ⟨⟨rfl, rfl, rfl, rfl, ?_, h₀.server.agree⟩, rfl, rfl⟩
  rw [h₀.server.userTable]
  exact .empty garbage

theorem HashedInitial.refines {c : HashedMain} (h : HashedInitial c) (host : ByteOrder) :
    ∃ s, MainInitial pollfdArrayAppend s ∧ c.Refines host s := by
  obtain ⟨s, garbage, h₀, rfl⟩ := h
  exact ⟨s, h₀, h₀.onHash_refines garbage host⟩

/-- A turn of the server in which the calls succeed; an allocation does within 1 MiB. -/
def TurnEnv.mebibyte (accepted : Option Fd) : TurnEnv := ⟨.mebibyte, .steady 4, accepted⟩

end ChatRooms
