import ChatRooms.Client
import ChatRooms.Frames
import ChatRooms.Lib.Run
import ChatRooms.Lib.Stdio
import ChatRooms.PollEntries

/-!
# The main loop of the client

`main` of `client.c`: a poll array of two entries, the connection to the server in front of the
standard input, and a loop that tests `POLLHUP` before `POLLIN` for each of them.  The program ends
through `exit`, or by `SIGPIPE` when it sends on a connection that the server has reset, so a run may end in a
state whose `pc` is `exited`.

* `clientIterate` is one iteration, with what it does as a `ClientEffect`;
* `ClientMainStep` are the steps of the program;
* `TwoEntries` is what every run keeps.
-/

namespace ChatRooms

/-- `STDIN_FILENO` -/
def stdinFileno : Fd := 0

/-- Where `main` stands. -/
inductive ClientPc where
  | poll
  | entry (i : ℕ)
  | exited
deriving DecidableEq, Repr

/-- The state of `main`, and the bytes in front of it. -/
structure ClientMain where
  server : Fd
  pollfds : PollfdArray
  pc : ClientPc
  connection : Stream
  stdin : Stdin

/-- What the world outside contributes to one iteration; `read` are the kernel's proposals for the
reads of the standard input. -/
structure ClientTurnEnv where
  env : ClientEnv
  recv : RecvEnv
  read : ℕ → ℕ

/-- What one iteration does besides changing the state: it handles what was typed, or what
`recvall` returned. -/
inductive ClientEffect where
  | idle
  | input (line : Option Bytes) (executed : Executed)
  | message (received : Received) (printed : Option Printed)

/-- One iteration of the inner loop; `none` when it waits for a line, for the rest of a message or in a `send`. -/
def clientIterate (turn : ClientTurnEnv) (i : ℕ) (s : ClientMain) :
    Checked (Option (ClientMain × ClientEffect)) := do
  let pfd ← s.pollfds.read i
  if pfd.revents &&& pollhup ≠ 0 then return some ({ s with pc := .exited }, .idle)
  else if pfd.revents &&& pollin ≠ 0 then
    if pfd.fd = stdinFileno then
      match fgets turn.read (textSizeLimit - 1) s.stdin with
      | (.waits, _) => return none
      | (.null, stdin) =>
        let (executed, _) ← handleInput turn.env none
        return some ({ s with stdin, pc := .exited }, .input none executed)
      | (.line line, stdin) =>
        let (executed, status) ← handleInput turn.env (some line)
        if executed.Waits turn.env then return none
        else
          let pc := if executed.Ends turn.env status then .exited else .entry (nextIndex i)
          return some ({ s with stdin, pc }, .input (some line) executed)
    else
      let (received, connection) := recvall turn.recv s.connection
      match ← handleServerMessage turn.env.host turn.env.locals received with
      | none => return none
      | some (printed, status) =>
        let pc := if status ≠ 0 then .exited else .entry (nextIndex i)
        return some ({ s with connection, pc }, .message received printed)
  else return some ({ s with pc := .entry (nextIndex i) }, .idle)

/-! ## Steps -/

/-- The two inputs of the client. -/
inductive Source where
  | connection
  | stdin
deriving DecidableEq, Repr

/-- The descriptor of an input. -/
def ClientMain.fd (s : ClientMain) : Source → Fd
  | .connection => s.server
  | .stdin => stdinFileno

/-- The stream of a descriptor, as the kernel holds it. -/
def ClientMain.stream (s : ClientMain) : Source → Stream
  | .connection => s.connection
  | .stdin => s.stdin.descriptor

/-- Replaces the stream of a descriptor. -/
def ClientMain.withStream (s : ClientMain) (stream : Stream) : Source → ClientMain
  | .connection => { s with connection := stream }
  | .stdin => { s with stdin := { s.stdin with descriptor := stream } }

/-- What happens to the program: bytes or the end of an input arrive, `poll` returns, an iteration
takes place, or the inner loop ends. -/
inductive ClientMainEvent where
  | arrive (source : Source) (bytes : Bytes)
  | finish (source : Source) (ending : StreamEnd)
  | poll (revents : ℕ → Events)
  | turn (i : ℕ) (env : ClientTurnEnv)
  | endPass

/-- The steps of the program: no fault is committed, and no call waits. -/
inductive ClientMainStep : ClientMain → ClientMainEvent → ClientEffect → ClientMain → Prop
  | arrive (source : Source) (bytes : Bytes) {s : ClientMain}
      (unended : (s.stream source).ending = .open) :
      ClientMainStep s (.arrive source bytes) .idle
        (s.withStream ⟨(s.stream source).pending ++ bytes, .open⟩ source)
  | finish (source : Source) (ending : StreamEnd) {s : ClientMain}
      (unended : (s.stream source).ending = .open) :
      ClientMainStep s (.finish source ending) .idle
        (s.withStream ⟨(s.stream source).pending, ending⟩ source)
  | poll (revents : ℕ → Events) {s : ClientMain} (pc : s.pc = .poll) :
      ClientMainStep s (.poll revents) .idle
        { s with pollfds := s.pollfds.report revents, pc := .entry 0 }
  | turn (i : ℕ) (env : ClientTurnEnv) {s s' : ClientMain} {effect : ClientEffect}
      (pc : s.pc = .entry i) (inside : i < s.pollfds.len)
      (iterated : clientIterate env i s = .ok (some (s', effect))) :
      ClientMainStep s (.turn i env) effect s'
  | endPass (i : ℕ) {s : ClientMain} (pc : s.pc = .entry i) (outside : ¬ i < s.pollfds.len) :
      ClientMainStep s .endPass .idle { s with pc := .poll }

/-- After a poll the inner loop starts at index 0. -/
theorem ClientMainStep.pc_of_poll {s s' : ClientMain} {revents : ℕ → Events} {effect : ClientEffect}
    (step : ClientMainStep s (.poll revents) effect s') : s'.pc = .entry 0 := by
  cases step
  rfl

/-- A step of the program in a trace. -/
abbrev ClientTurn := Turn ClientMain ClientMainEvent ClientEffect

/-- The states in which `main` enters its loop: the poll array holds the connection and the standard
input, and the connection is another descriptor. -/
structure ClientInitial (s : ClientMain) : Prop where
  pollfds : ∃ heap a b r r', pollfdArrayInit heap = some a ∧
    pollfdArrayAppend a s.server pollin r = (b, 0) ∧
    pollfdArrayAppend b stdinFileno pollin r' = (s.pollfds, 0)
  server : s.server ≠ stdinFileno
  pc : s.pc = .poll

/-- The state in which `main` enters its loop when every allocation succeeds. -/
def ClientMain.start (server : Fd) : ClientMain where
  server := server
  pollfds := (pollfdArrayAppend (pollfdArrayAppend
    ⟨List.replicate initialCapacity ⟨0, 0, 0⟩, 0, initialCapacity⟩ server pollin .failed).1
    stdinFileno pollin .failed).1
  pc := .poll
  connection := ⟨[], .open⟩
  stdin := ⟨[], ⟨[], .open⟩⟩

theorem ClientMain.start_initial {server : Fd} (h : server ≠ stdinFileno) :
    ClientInitial (.start server) where
  pollfds := ⟨.steady, _, _, .failed, .failed, rfl, rfl, rfl⟩
  server := h
  pc := rfl

/-! ## What an iteration does -/

/-- The iterations that do not wait, for the entry `pfd` at index `i`. -/
inductive ClientIterated (turn : ClientTurnEnv) (i : ℕ) (s : ClientMain) (pfd : Pollfd) :
    ClientMain → ClientEffect → Prop
  | hangup (hup : pfd.revents &&& pollhup ≠ 0) : ClientIterated turn i s pfd { s with pc := .exited } .idle
  | ended {stdin : Stdin} {executed : Executed} (hup : pfd.revents &&& pollhup = 0)
      (input : pfd.revents &&& pollin ≠ 0) (typed : pfd.fd = stdinFileno)
      (read : fgets turn.read (textSizeLimit - 1) s.stdin = (.null, stdin)) :
      ClientIterated turn i s pfd { s with stdin, pc := .exited } (.input none executed)
  | line {line : Bytes} {stdin : Stdin} {executed : Executed} {status : ℤ}
      (hup : pfd.revents &&& pollhup = 0) (input : pfd.revents &&& pollin ≠ 0)
      (typed : pfd.fd = stdinFileno) (read : fgets turn.read (textSizeLimit - 1) s.stdin = (.line line, stdin))
      (handled : handleInput turn.env (some line) = .ok (executed, status)) :
      ClientIterated turn i s pfd
        { s with stdin, pc := if executed.Ends turn.env status then .exited else .entry (nextIndex i) }
        (.input (some line) executed)
  | message {received : Received} {connection : Stream} {printed : Option Printed} {status : ℤ}
      (hup : pfd.revents &&& pollhup = 0) (input : pfd.revents &&& pollin ≠ 0)
      (server : pfd.fd ≠ stdinFileno) (recv : recvall turn.recv s.connection = (received, connection))
      (handled : handleServerMessage turn.env.host turn.env.locals received = .ok (some (printed, status))) :
      ClientIterated turn i s pfd
        { s with connection, pc := if status ≠ 0 then .exited else .entry (nextIndex i) }
        (.message received printed)
  | idle (hup : pfd.revents &&& pollhup = 0) (input : pfd.revents &&& pollin = 0) :
      ClientIterated turn i s pfd { s with pc := .entry (nextIndex i) } .idle

theorem clientIterated_of_some {turn : ClientTurnEnv} {i : ℕ} {s s' : ClientMain} {effect : ClientEffect}
    (h : clientIterate turn i s = .ok (some (s', effect))) :
    ∃ pfd, s.pollfds.read i = .ok pfd ∧ ClientIterated turn i s pfd s' effect := by
  obtain ⟨pfd, hread, h⟩ := Checked.bind_eq_ok.1 h
  refine ⟨pfd, hread, ?_⟩
  by_cases hup : pfd.revents &&& pollhup = 0
  · rw [if_neg (not_not.2 hup)] at h
    by_cases input : pfd.revents &&& pollin = 0
    · rw [if_neg (not_not.2 input)] at h
      cases h
      exact .idle hup input
    · rw [if_pos input] at h
      by_cases typed : pfd.fd = stdinFileno
      · rw [if_pos typed] at h
        split at h
        · cases h
        · rename_i stdin read
          obtain ⟨⟨executed, status⟩, -, h⟩ := Checked.bind_eq_ok.1 h
          cases h
          exact .ended hup input typed read
        · rename_i line stdin read
          obtain ⟨⟨executed, status⟩, handled, h⟩ := Checked.bind_eq_ok.1 h
          dsimp only at h
          by_cases hwaits : executed.Waits turn.env
          · rw [if_pos hwaits] at h
            cases h
          rw [if_neg hwaits] at h
          cases h
          exact .line hup input typed read handled
      · rw [if_neg typed] at h
        generalize recv : recvall turn.recv s.connection = result at h
        obtain ⟨received, connection⟩ := result
        obtain ⟨result, handled, h⟩ := Checked.bind_eq_ok.1 h
        cases result with
        | none => cases h
        | some result =>
          cases h
          exact .message hup input typed recv handled
  · rw [if_pos hup] at h
    cases h
    exact .hangup hup

namespace ClientIterated

variable {turn : ClientTurnEnv} {i : ℕ} {s s' : ClientMain} {pfd : Pollfd} {effect : ClientEffect}

/-- An iteration keeps the poll array. -/
theorem keeps (h : ClientIterated turn i s pfd s' effect) :
    s'.server = s.server ∧ s'.pollfds = s.pollfds := by
  cases h <;> exact ⟨rfl, rfl⟩

/-- An iteration is followed by the one at the next index, or ends the program. -/
theorem next_or_exited (h : ClientIterated turn i s pfd s' effect) :
    s'.pc = .exited ∨ s'.pc = .entry (nextIndex i) := by
  cases h with
  | hangup hup => exact .inl rfl
  | ended hup input typed read => exact .inl rfl
  | line hup input typed read handled => exact (ite_eq_or_eq _ _ _).imp id id
  | message hup input server recv handled => exact (ite_eq_or_eq _ _ _).imp id id
  | idle hup input => exact .inr rfl

end ClientIterated

/-! ## What every run keeps -/

/-- The poll array holds the connection and the standard input, in this order. -/
structure TwoEntries (s : ClientMain) : Prop where
  len : s.pollfds.len = 2
  descriptors : s.pollfds.descriptors = [s.server, stdinFileno]
  server : s.server ≠ stdinFileno

theorem ClientInitial.twoEntries {s : ClientMain} (h : ClientInitial s) : TwoEntries s := by
  obtain ⟨heap, a, b, r, r', hinit, hserver, hstdin⟩ := h.pollfds
  unfold pollfdArrayInit at hinit
  split at hinit
  · rw [Option.some.injEq] at hinit
    subst hinit
    -- The initial capacity has room for both entries, so no block is resized.
    cases hserver
    have hentries : s.pollfds = (pollfdArrayAppend _ stdinFileno pollin r').1 :=
      (congrArg Prod.fst hstdin).symm
    exact ⟨by rw [hentries]; rfl, by rw [hentries]; rfl, h.server⟩
  · cases hinit

theorem TwoEntries.step {s s' : ClientMain} {event : ClientMainEvent} {effect : ClientEffect}
    (h : TwoEntries s) (step : ClientMainStep s event effect s') : TwoEntries s' := by
  cases step with
  | arrive source bytes unended => cases source <;> exact ⟨h.len, h.descriptors, h.server⟩
  | finish source ending unended => cases source <;> exact ⟨h.len, h.descriptors, h.server⟩
  | poll revents pc =>
    exact ⟨h.len, (PollfdArray.descriptors_report _ _).trans h.descriptors, h.server⟩
  | turn i env pc inside iterated =>
    obtain ⟨pfd, -, iter⟩ := clientIterated_of_some iterated
    obtain ⟨hserver, hpollfds⟩ := iter.keeps
    exact ⟨by rw [hpollfds]; exact h.len, by rw [hpollfds, hserver]; exact h.descriptors,
      by rw [hserver]; exact h.server⟩
  | endPass i pc outside => exact ⟨h.len, h.descriptors, h.server⟩

theorem Run.twoEntries {s₀ s : ClientMain} {trace : List ClientTurn} (h₀ : ClientInitial s₀)
    (run : Run ClientMainStep s₀ trace s) : TwoEntries s :=
  run.invariant TwoEntries h₀.twoEntries fun _ _ step h => h.step step

end ChatRooms
