import ChatRooms.ClientLoop
import ChatRooms.Lib.Pipe
import ChatRooms.Server.ChatRefinement
import ChatRooms.Server.MainLoop

/-!
# The clients and the server together

One server and any number of clients, each of them a process with its own main loop.  A connection carries the
bytes that a client sends to the server, and those that the server sends back, in their order and in any pieces;
the processes run in any order.  A client is known by the number of its connection in the order in which the
server accepts them, and it may have sent bytes before that.  The server may be any with such a main loop
(`ServerLoop`); the one of `server.c` on a finite map of users is `mainLoop`.

What is assumed of the world outside is `ServerReliable` and `ClientReliable`: one byte order, sends that take
bytes, a server that has memory for every block below 64 KiB, a clock between 1970 and 2106, and no first `recv`
that is cut short inside a header.
-/

namespace ChatRooms

/-- A client, and the bytes on their way from it to the server and back. -/
structure Peer where
  main : ClientMain
  toServer : Bytes
  toClient : Bytes

/-- A server with its main loop: who is connected, what an iteration relies on, and its steps. -/
structure ServerLoop (σ : Type) where
  ids : σ → List Fd
  Reliable : σ → MainEvent → Prop
  Step : σ → MainEvent → Effect → σ → Prop

/-- The server, the clients by number, whose a descriptor of the server is, and how many have been accepted. -/
structure ChatSystem (σ : Type) where
  server : σ
  peer : ℕ → Peer
  conn : Fd → ℕ
  accepted : ℕ

/-- What happens to the server or to a client. -/
inductive SystemEvent where
  | server (event : MainEvent)
  | client (c : ℕ) (event : ClientMainEvent)

/-- What it does. -/
inductive SystemEffect where
  | server (effect : Effect)
  | client (effect : ClientEffect)

/-! ## The world outside -/

/-- When the call reads a header, its first `recv` gets all four bytes. -/
def RecvEnv.HeaderWhole (env : RecvEnv) (s : Stream) : Prop := s.pending = [] ∨ env.firstRecvd s = 4

/-- What an iteration of a server with this poll array, listener and streams relies on. -/
def ServerReliable (host : ByteOrder) (pollfds : PollfdArray) (listener : Fd) (streams : Fd → Stream) :
    MainEvent → Prop
  | .turn i turn => turn.env.host = host ∧ Serving turn.env ∧
      (0 ≤ turn.env.clock.toInt ∧ turn.env.clock.toInt < 2 ^ 32) ∧
      ∀ pfd, pollfds.read i = .ok pfd → pfd.revents &&& pollhup = 0 → pfd.revents &&& pollin ≠ 0 →
        pfd.fd ≠ listener → turn.recv.HeaderWhole (streams pfd.fd)
  | _ => True

/-- What an iteration of a client relies on. -/
def ClientReliable (host : ByteOrder) (s : ClientMain) : ClientMainEvent → Prop
  | .turn i turn => turn.env.host = host ∧ (∀ call, (turn.env.send call).Accepted) ∧
      ∀ pfd, s.pollfds.read i = .ok pfd → pfd.revents &&& pollhup = 0 → pfd.revents &&& pollin ≠ 0 →
        pfd.fd ≠ stdinFileno → turn.recv.HeaderWhole s.connection
  | _ => True

/-- A turn of the server in which the calls succeed. -/
def TurnEnv.steady (accepted : Option Fd) : TurnEnv := ⟨.steady 0, .steady 4, accepted⟩

/-- A turn of a client in which the calls succeed. -/
def ClientTurnEnv.steady : ClientTurnEnv := ⟨.steady, .steady 4, fun _ => stdioBlock⟩

theorem ClientReliable.steady {s : ClientMain} {i : ℕ} (header : (RecvEnv.steady 4).HeaderWhole s.connection) :
    ClientReliable .little s (.turn i .steady) :=
  ⟨rfl, ClientEnv.steady_accepts, fun _ _ _ _ _ => header⟩

/-- The server with its main loop. -/
def mainLoop (host : ByteOrder) : ServerLoop MainState where
  ids s := s.server.userTable.ids
  Reliable s := ServerReliable host s.server.pollfds s.server.listener s.streams
  Step := MainStep pollfdArrayAppend

theorem mainLoop_steady {s : MainState} {i : ℕ} (accepted : Option Fd)
    (header : ∀ pfd, s.server.pollfds.read i = .ok pfd → (RecvEnv.steady 4).HeaderWhole (s.streams pfd.fd)) :
    (mainLoop .little).Reliable s (.turn i (.steady accepted)) := by
  have hnow : 0 ≤ (Env.steady 0).clock.toInt ∧ (Env.steady 0).clock.toInt < 2 ^ 32 := by decide
  have hserving : Serving (.steady 0) := ⟨fun _ hn _ => decide_eq_true hn, Env.steady_accepts 0⟩
  exact ⟨rfl, hserving, hnow, fun pfd hread _ _ _ => header pfd hread⟩

/-! ## Steps -/

section

variable {σ : Type}

/-- What the server does by itself. -/
def MainEvent.Own : MainEvent → Prop
  | .arrive _ _ | .finish _ _ => False
  | _ => True

/-- What a client does by itself, and what is typed. -/
def ClientMainEvent.Own : ClientMainEvent → Prop
  | .arrive .connection _ | .finish .connection _ => False
  | _ => True

/-- The messages that a client sends. -/
def ClientEffect.messages : ClientEffect → List Message
  | .input _ executed => executed.sent.map Sent.msg
  | _ => []

/-- The bytes of them that the kernel takes. -/
def ClientEffect.bytes : ClientEffect → Bytes
  | .input _ executed => executed.sent.flatMap Sent.sent
  | _ => []

/-- What a client prints of a message from the server. -/
def ClientEffect.printed : ClientEffect → List Printed
  | .message _ printed => printed.toList
  | _ => []

/-- The system when the server has taken a step: an accepted descriptor belongs to the next client, and what was
written is on its way. -/
def ChatSystem.served (sys : ChatSystem σ) (server : σ) : Effect → ChatSystem σ
  | .accepted (some fd) =>
    { sys with server, conn := Function.update sys.conn fd sys.accepted, accepted := sys.accepted + 1 }
  | .handled _ _ outs =>
    { sys with
      server
      peer c := { sys.peer c with toClient := (sys.peer c).toClient ++ (sentTo sys.conn c outs).flatten } }
  | _ => { sys with server }

/-- Replaces a client. -/
def ChatSystem.withPeer (sys : ChatSystem σ) (c : ℕ) (peer : Peer) : ChatSystem σ :=
  { sys with peer := Function.update sys.peer c peer }

/-- The steps of the system.  Bytes arrive in the order in which they were sent; a connection may end at any
time, with what was on its way lost. -/
inductive SystemStep (loop : ServerLoop σ) (host : ByteOrder) :
    ChatSystem σ → SystemEvent → SystemEffect → ChatSystem σ → Prop
  | server {event : MainEvent} {effect : Effect} {sys : ChatSystem σ} {server : σ} (own : event.Own)
      (reliable : loop.Reliable sys.server event) (step : loop.Step sys.server event effect server) :
      SystemStep loop host sys (.server event) (.server effect) (sys.served server effect)
  | toServer (fd : Fd) (bytes rest : Bytes) {sys : ChatSystem σ} {server : σ} (connected : fd ∈ loop.ids sys.server)
      (front : (sys.peer (sys.conn fd)).toServer = bytes ++ rest)
      (step : loop.Step sys.server (.arrive fd bytes) .idle server) :
      SystemStep loop host sys (.server (.arrive fd bytes)) (.server .idle)
        ({ sys with server }.withPeer (sys.conn fd) { sys.peer (sys.conn fd) with toServer := rest })
  | endServer (fd : Fd) (ending : StreamEnd) {sys : ChatSystem σ} {server : σ}
      (step : loop.Step sys.server (.finish fd ending) .idle server) :
      SystemStep loop host sys (.server (.finish fd ending)) (.server .idle) { sys with server }
  | client (c : ℕ) {event : ClientMainEvent} {effect : ClientEffect} {sys : ChatSystem σ} {main : ClientMain}
      (own : event.Own) (reliable : ClientReliable host (sys.peer c).main event)
      (step : ClientMainStep (sys.peer c).main event effect main) :
      SystemStep loop host sys (.client c event) (.client effect)
        (sys.withPeer c ⟨main, (sys.peer c).toServer ++ effect.bytes, (sys.peer c).toClient⟩)
  | toClient (c : ℕ) (bytes rest : Bytes) {sys : ChatSystem σ} {main : ClientMain}
      (front : (sys.peer c).toClient = bytes ++ rest)
      (step : ClientMainStep (sys.peer c).main (.arrive .connection bytes) .idle main) :
      SystemStep loop host sys (.client c (.arrive .connection bytes)) (.client .idle)
        (sys.withPeer c ⟨main, (sys.peer c).toServer, rest⟩)
  | endClient (c : ℕ) (ending : StreamEnd) {sys : ChatSystem σ} {main : ClientMain}
      (step : ClientMainStep (sys.peer c).main (.finish .connection ending) .idle main) :
      SystemStep loop host sys (.client c (.finish .connection ending)) (.client .idle)
        (sys.withPeer c ⟨main, (sys.peer c).toServer, (sys.peer c).toClient⟩)

/-- A step of the system is a step of its server, or leaves it as it is. -/
theorem SystemStep.server_step {loop : ServerLoop σ} {host : ByteOrder} {sys sys' : ChatSystem σ}
    {event : SystemEvent} {effect : SystemEffect} (step : SystemStep loop host sys event effect sys') :
    sys'.server = sys.server ∨ ∃ event effect, loop.Step sys.server event effect sys'.server := by
  cases step with
  | @server event effect _ server own reliable step =>
    have hserved : (sys.served server effect).server = server := by
      cases effect with
      | accepted fd => cases fd <;> rfl
      | _ => rfl
    refine .inr ⟨event, effect, ?_⟩
    rw [hserved]
    exact step
  | toServer fd bytes rest connected front step => exact .inr ⟨_, _, step⟩
  | endServer fd ending step => exact .inr ⟨_, _, step⟩
  | client c own reliable step => exact .inl rfl
  | toClient c bytes rest front step => exact .inl rfl
  | endClient c ending step => exact .inl rfl

/-- A step of the system in a trace. -/
abbrev SystemTurn (σ : Type) := Turn (ChatSystem σ) SystemEvent SystemEffect

/-- A trace of the system. -/
abbrev SystemTrace (σ : Type) := List (SystemTurn σ)

/-- The states in which every process enters its loop, and nothing has been sent. -/
structure SystemInitial (Init : σ → Prop) (sys : ChatSystem σ) : Prop where
  server : Init sys.server
  clients : ∀ c, ClientInitial (sys.peer c).main ∧ (sys.peer c).main.connection.pending = []
  quiet : ∀ c, (sys.peer c).toServer = [] ∧ (sys.peer c).toClient = []
  accepted : sys.accepted = 0

/-- The state in which all processes enter their loops when every allocation succeeds. -/
def ChatSystem.start (server : σ) (fd : Fd) : ChatSystem σ :=
  ⟨server, fun _ => ⟨.start fd, [], []⟩, fun _ => 0, 0⟩

theorem ChatSystem.start_initial {Init : σ → Prop} {server : σ} (hserver : Init server) {fd : Fd}
    (hfd : fd ≠ stdinFileno) : SystemInitial Init (.start server fd) where
  server := hserver
  clients _ := ⟨ClientMain.start_initial hfd, rfl⟩
  quiet _ := ⟨rfl, rfl⟩
  accepted := rfl

/-! ## What is seen of a client -/

/-- The frame of a message. -/
def Message.frame (host : ByteOrder) (msg : Message) : Bytes := msg.content.frame host

/-- The messages that a client sends in a turn. -/
def sentIn (c : ℕ) : SystemEvent × SystemEffect → List Message
  | (.client d _, .client effect) => if d = c then effect.messages else []
  | _ => []

/-- What a client prints of the messages from the server in a turn. -/
def printedIn (c : ℕ) : SystemEvent × SystemEffect → List Printed
  | (.client d _, .client effect) => if d = c then effect.printed else []
  | _ => []

/-- The messages that a client has sent. -/
def sentBy (c : ℕ) (trace : SystemTrace σ) : List Message := (labels trace).flatMap (sentIn c)

@[simp] theorem sentBy_concat (c : ℕ) (trace : SystemTrace σ) (t : SystemTurn σ) :
    sentBy c (trace ++ [t]) = sentBy c trace ++ sentIn c (t.event, t.output) := by
  simp [sentBy, labels]

/-- What a client has printed of the messages from the server. -/
def printedBy (c : ℕ) (trace : SystemTrace σ) : List Printed := (labels trace).flatMap (printedIn c)

@[simp] theorem printedBy_concat (c : ℕ) (trace : SystemTrace σ) (t : SystemTurn σ) :
    printedBy c (trace ++ [t]) = printedBy c trace ++ printedIn c (t.event, t.output) := by
  simp [printedBy, labels]

end

end ChatRooms
