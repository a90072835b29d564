import ChatRooms.SetUp
import ChatRooms.System.OnHash

/-!
# The system from the start of its processes

The set-ups of the server and of the clients lead to the states from which the runs of the system start, so what
holds in these runs holds from the start of the processes on: `started_system_runs_chat`.
-/

namespace ChatRooms

/-- The system when all processes have set up and enter their loops; the memory holds anything. -/
def startedSystem (server : ServerEntry) (rooms : RoomArray) (streams : Fd → Stream) (garbage : Addr → User)
    (clients : ℕ → ClientEntry) (stdin : ℕ → Stdin) (conn : Fd → ℕ) : ChatSystem HashedMain where
  server := (server.state rooms streams).onHash (.empty garbage)
  peer c := ⟨(clients c).state (stdin c), [], []⟩
  conn := conn
  accepted := 0

/-- A step of the system on the finite map keeps the ledger of the server's descriptors. -/
theorem Ledger.systemStep {host : ByteOrder} {base : List Fd} {sys sys' : ChatSystem MainState} {event : SystemEvent}
    {effect : SystemEffect} (h : Ledger base sys.server.server)
    (step : SystemStep (mainLoop host) host sys event effect sys') : Ledger base sys'.server.server := by
  rcases step.server_step with heq | ⟨event, effect, step⟩
  · rw [heq]
    exact h
  · exact h.mainStep step

section

variable {host : ByteOrder} {inherited : List Fd} {world : ServerWorld} {entry : ServerEntry} {rooms : RoomArray}
  {inherited' : ℕ → List Fd} {worlds : ℕ → ClientWorld} {entries : ℕ → ClientEntry}
  {streams : Fd → Stream} {garbage : Addr → User} {stdin : ℕ → Stdin} {conn : Fd → ℕ}

/-- From the set-ups on, the system starts as its runs do. -/
theorem startedSystem_initial (setUp : serverSetUp inherited world = .ok (some entry))
    (hrooms : entry.rooms = some rooms) (fresh : ∀ res, world.res = some res → ∀ p ∈ res, Fresh inherited p.socket)
    (setUps : ∀ c, clientSetUp (inherited' c) (worlds c) = .ok (some (entries c)))
    (hstdin : ∀ c, stdinFileno ∈ inherited' c)
    (fresh' : ∀ c res, (worlds c).res = some res → ∀ p ∈ res, Fresh (inherited' c) p.socket) :
    SystemInitial HashedInitial (startedSystem entry rooms streams garbage entries stdin conn) where
  server := ⟨_, garbage, serverSetUp_initial setUp hrooms fresh streams, rfl⟩
  clients c := ⟨clientSetUp_initial (setUps c) (hstdin c) (fresh' c) (stdin c), rfl⟩
  quiet _ := ⟨rfl, rfl⟩
  accepted := rfl

/-- From the start of its processes on, the program is a chat that leaks no descriptor.  When the server and every
client have got through their set-ups, then in every run, in any interleaving, the server has open what it
inherited, the listener, and one descriptor for each record in the hash table, all different; and the run is one of
a chat, turn by turn, whose participants are these records, in which the requests of a client are handled in the
order in which it sent them, and in which it prints what is shown to it in this order. -/
theorem started_system_runs_chat (setUp : serverSetUp inherited world = .ok (some entry))
    (hrooms : entry.rooms = some rooms) (distinct : inherited.Nodup)
    (fresh : ∀ res, world.res = some res → ∀ p ∈ res, Fresh inherited p.socket)
    (setUps : ∀ c, clientSetUp (inherited' c) (worlds c) = .ok (some (entries c)))
    (hstdin : ∀ c, stdinFileno ∈ inherited' c)
    (fresh' : ∀ c res, (worlds c).res = some res → ∀ p ∈ res, Fresh (inherited' c) p.socket)
    {sys : ChatSystem HashedMain} {trace : SystemTrace HashedMain}
    (run : Run (SystemStep (hashedLoop host) host)
      (startedSystem entry rooms streams garbage entries stdin conn) trace sys) :
    (sys.server.server.openFds.Perm ((hashedLoop host).ids sys.server ++ entry.listener :: inherited) ∧
      sys.server.server.openFds.Nodup) ∧
    ∃ chatTrace chat, HashedChat host trace sys chatTrace chat := by
  have h₀ : SystemInitial HashedInitial (startedSystem entry rooms streams garbage entries stdin conn) :=
    startedSystem_initial setUp hrooms fresh setUps hstdin fresh'
  have hs₀ := serverSetUp_initial setUp hrooms fresh streams
  have hrefines : ((entry.state rooms streams).onHash (.empty garbage)).Refines host (entry.state rooms streams) :=
    hs₀.onHash_refines garbage host
  obtain ⟨chatTrace, chat, hrun, hmoves, trace', sys', h⟩ :=
    run.hashedSynced hrefines ⟨hs₀, h₀.clients, h₀.quiet, h₀.accepted⟩
  have hledger := h.onMap.invariant (fun sys => Ledger (entry.listener :: inherited) sys.server.server)
    (serverSetUp_ledger setUp hrooms distinct fresh streams) fun _ _ step h => h.systemStep step
  refine ⟨?_, chatTrace, chat, h.hashedChat hrun hmoves⟩
  rw [(hashedLoop_refines host).ids h.same.server, h.same.server.server.openFds]
  exact ⟨hledger.openFds, hledger.nodup⟩

end

/-- The server and all clients get through their set-ups; then a client is accepted and joins room 2, and prints the
reply. -/
theorem started_system_runs_chat_joined : ∃ sys trace entry rooms entries,
    serverSetUp [0, 1, 2] ⟨.steady, .steady, some [⟨some 3, true, false⟩, ⟨some 3, true, true⟩], true, .failed⟩ =
      .ok (some entry) ∧
    (∀ c : ℕ, clientSetUp [0, 1, 2] ⟨.steady, some [⟨some 3, false⟩, ⟨some 3, true⟩], .failed, .failed⟩ =
      .ok (some (entries c))) ∧
    Run (SystemStep (hashedLoop .little) .little)
      (startedSystem entry rooms (fun _ => ⟨[], .open⟩) (fun _ => ⟨0, 0, .fill fun _ => 0⟩) entries
        (fun _ => ⟨[], ⟨[], .open⟩⟩) fun _ => 0) trace sys ∧
    sys.server.server.openFds.Nodup ∧ sys.server.server.openFds = [4, 3, 0, 1, 2] ∧
    ∃ chatTrace chat, HashedChat .little trace sys chatTrace chat ∧ chat 0 = some ⟨anonymous, some 2⟩ ∧
      requestsOf 0 chatTrace = [.join 2] ∧ shownTo 0 chatTrace = [.reply (ascii "you have joined room 2")] := by
  have setUp : serverSetUp [0, 1, 2] ⟨.steady, .steady, some [⟨some 3, true, false⟩, ⟨some 3, true, true⟩], true,
      .failed⟩ = .ok (some ⟨3, firstEntry 3, roomArrayInit .steady numRooms, [3, 0, 1, 2]⟩) := serverSetUp_eq _ _
  have setUps : ∀ c : ℕ, clientSetUp [0, 1, 2] ⟨.steady, some [⟨some 3, false⟩, ⟨some 3, true⟩], .failed, .failed⟩ =
      .ok (some ⟨3, bothEntries 3, [3, 0, 1, 2]⟩) := fun _ => clientSetUp_eq _ _
  obtain ⟨trace, sys, run, hopen, hids, hrecord, hconn, hstream, htoServer, hpc, hpending, htoClient, hsent,
    hprinted⟩ := hashed_join_run
  have fresh : Fresh [0, 1, 2] (some 3) := .of_notMem (by decide)
  have listens : ∀ p ∈ [⟨some 3, true, false⟩, (⟨some 3, true, true⟩ : ListenAddress)], Fresh [0, 1, 2] p.socket :=
    List.forall_mem_cons.2 ⟨fresh, List.forall_mem_singleton.2 fresh⟩
  have connects : ∀ p ∈ [⟨some 3, false⟩, (⟨some 3, true⟩ : ServerAddress)], Fresh [0, 1, 2] p.socket :=
    List.forall_mem_cons.2 ⟨fresh, List.forall_mem_singleton.2 fresh⟩
  obtain ⟨⟨-, hnodup⟩, chatTrace, chat, h⟩ := started_system_runs_chat setUp rfl (by decide)
    (fun _ hres => Option.some.inj hres ▸ listens) setUps (fun _ => by decide)
    (fun _ _ hres => Option.some.inj hres ▸ connects) run
  have hasked := h.all_handled 4 (hids ▸ List.mem_singleton_self _) hstream (by rwa [hconn])
  rw [hconn, hsent] at hasked
  have hshown := h.all_printed 0 hpc hpending htoClient
  exact ⟨sys, trace, _, _, _, setUp, setUps, run, hnodup, hopen, chatTrace, chat, h,
    (h.participants _ _).2 hrecord, hasked, hshown.symm.trans hprinted⟩

end ChatRooms
