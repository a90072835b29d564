import ChatRooms.System.EndToEnd

/-!
# One conversation in a room

Clients that stay in a room print the same messages of participants in the same order, each of them once:
`system_agrees`.  Replies come in between, to each client its own.
-/

namespace ChatRooms

/-- The server has the client in a room. -/
def ChatSystem.InRoom (sys : ChatSystem MainState) (c n : ℕ) : Prop :=
  ∃ u ∈ sys.server.server.userTable.users, sys.conn u.id = c ∧ u.person.room = some n

/-- A client that stays in a room of the server stays there in the chat. -/
theorem PartsMatch.stays {recent : SystemTrace MainState} {since : ChatTrace ℕ} (h : PartsMatch TableMoves recent since)
    {c n : ℕ} (stays : ∀ t ∈ recent, t.before.InRoom c n) : ∀ move ∈ since, move.before.roomOf c = some n := by
  intro move hmove
  obtain ⟨t, ht, part, ⟨-, hrep⟩, hpart⟩ := h.exists_of_mem hmove
  obtain ⟨u, hu, hconn, hroom⟩ := stays t ht
  have hknown : move.before c = some u.person := ((hrep move hpart).iff _ _).2 ⟨u, hu, hconn, rfl⟩
  rw [Chat.roomOf, hknown]
  exact hroom

/-- One conversation in a room.  A run of the system, in any interleaving and cut at any moment, is a run of the chat
that is cut there too.  What a client that has stayed in a room since then has printed of the messages of
participants, behind what had been shown to it at the cut, is the beginning of what has been said in the room since,
which is the same for all clients there; and it is all of it when nothing is underway to the client.  What had been
shown to a client at the cut is what it had printed, if nothing was underway to it then. -/
theorem system_agrees {host : ByteOrder} {sys₀ mid sys : ChatSystem MainState} {past recent : SystemTrace MainState}
    (h₀ : SystemInitial (MainInitial pollfdArrayAppend) sys₀)
    (run : Run (SystemStep (mainLoop host) host) sys₀ past mid)
    (more : Run (SystemStep (mainLoop host) host) mid recent sys) :
    ∃ before chat since chat', Run (ChatStep numRooms maxUsersPerRoom) (fun _ => none) before chat ∧
      Run (ChatStep numRooms maxUsersPerRoom) chat since chat' ∧
      PartsMatch TableMoves past before ∧ PartsMatch TableMoves recent since ∧
      (∀ c, (mid.peer c).main.pc ≠ .exited → (mid.peer c).main.connection.pending = [] →
        (mid.peer c).toClient = [] → shownTo c before = printedBy c past) ∧
      ∀ c n heard, (∀ t ∈ recent, t.before.InRoom c n) →
        printedBy c (past ++ recent) = shownTo c before ++ heard →
        heard.filter Printed.isChat <+: since.flatMap (saidIn n) ∧
          ((sys.peer c).main.pc ≠ .exited → (sys.peer c).main.connection.pending = [] →
            (sys.peer c).toClient = [] → heard.filter Printed.isChat = since.flatMap (saidIn n)) := by
  obtain ⟨before, chat, hbefore, hpast, h⟩ := run.synced h₀
  obtain ⟨since, chat', hsince, hrecent, h'⟩ := more.synced_from h
  refine ⟨before, chat, since, chat', hbefore, hsince, hpast, hrecent, fun c hrunning hpending htoClient => ?_, ?_⟩
  · exact (h.all_printed hrunning hpending htoClient).symm
  intro c n heard hstay hheard
  have hshown : shownTo c (before ++ since) = shownTo c before ++ shownTo c since := by
    simp [shownTo]
  rw [← hsince.filter_shownTo (hrecent.stays hstay)]
  constructor
  · have hpre := (h'.downward c).printed
    rw [hheard, hshown, List.prefix_append_right_inj] at hpre
    exact hpre.filter _
  · intro hrunning hpending htoClient
    have hall := h'.all_printed hrunning hpending htoClient
    rw [hheard, hshown, List.append_cancel_left_eq] at hall
    rw [hall]

/-! ## Two clients in a room -/

/-- Nothing is underway to a client, and it has printed this. -/
structure CaughtUp (sys : ChatSystem MainState) (trace : SystemTrace MainState) (c : ℕ) (printed : List Printed) :
    Prop where
  running : (sys.peer c).main.pc ≠ .exited
  read : (sys.peer c).main.connection.pending = []
  arrived : (sys.peer c).toClient = []
  printed : printedBy c trace = printed

set_option maxRecDepth 30000 in
/-- Two clients are accepted and join room 2.  When both have printed the reply, the first one says `"hi"`, and both
print it. -/
theorem conversation_run : ∃ past mid recent sys,
    Run (SystemStep (mainLoop .little) .little) (.start (.start 3) 3) past mid ∧
    Run (SystemStep (mainLoop .little) .little) mid recent sys ∧
    ∀ c, c = 0 ∨ c = 1 → (∀ t ∈ recent, t.before.InRoom c 2) ∧
      CaughtUp mid past c [.reply (ascii "you have joined room 2")] ∧
      CaughtUp sys recent c [.chat 0 anonymous (ascii "hi\n")] := by
  have run : Run (SystemStep (mainLoop .little) .little) (.start (.start 3) 3) [] (.start (.start 3) 3) := .start
  have run := run.turn (.server (by trivial) (by trivial) (.poll (fun _ => pollin) rfl))
  have run := run.turn (.server (by trivial) (mainLoop_steady (some 4) fun _ _ => .inl rfl)
    (.turn 0 (.steady (some 4)) rfl (by decide) (.of_notMem (by decide)) rfl))
  have run := run.turn (.server (by trivial) (mainLoop_steady none fun _ hread => by cases hread; exact .inl rfl)
    (.turn 1 (.steady none) rfl (by decide) .none rfl))
  have run := run.turn (.server (by trivial) (by trivial) (.endPass 2 rfl (by decide)))
  have run := run.turn (.server (by trivial) (by trivial) (.poll (fun i => if i = 0 then pollin else 0) rfl))
  have run := run.turn (.server (by trivial) (mainLoop_steady (some 5) fun _ hread => by cases hread; exact .inl rfl)
    (.turn 0 (.steady (some 5)) rfl (by decide) (.of_notMem (by decide)) rfl))
  have run := run.turn (.server (by trivial) (mainLoop_steady none fun _ hread => by cases hread; exact .inl rfl)
    (.turn 1 (.steady none) rfl (by decide) .none rfl))
  have run := run.turn (.server (by trivial) (mainLoop_steady none fun _ hread => by cases hread; exact .inl rfl)
    (.turn 2 (.steady none) rfl (by decide) .none rfl))
  have run := run.turn (.server (by trivial) (by trivial) (.endPass 3 rfl (by decide)))
  have run := run.turn (.client 0 (by trivial) (by trivial) (.arrive .stdin (ascii "/join 2\n") rfl))
  have run := run.turn (.client 0 (by trivial) (by trivial) (.poll (fun i => if i = 1 then pollin else 0) rfl))
  have run := run.turn (.client 0 (by trivial) (.steady (.inl rfl)) (.turn 0 .steady rfl (by decide) rfl))
  have run := run.turn (.client 0 (by trivial) (.steady (.inl rfl)) (.turn 1 .steady rfl (by decide) rfl))
  have run := run.turn (.client 0 (by trivial) (by trivial) (.endPass 2 rfl (by decide)))
  have run := run.turn (.client 1 (by trivial) (by trivial) (.arrive .stdin (ascii "/join 2\n") rfl))
  have run := run.turn (.client 1 (by trivial) (by trivial) (.poll (fun i => if i = 1 then pollin else 0) rfl))
  have run := run.turn (.client 1 (by trivial) (.steady (.inl rfl)) (.turn 0 .steady rfl (by decide) rfl))
  have run := run.turn (.client 1 (by trivial) (.steady (.inl rfl)) (.turn 1 .steady rfl (by decide) rfl))
  have run := run.turn (.client 1 (by trivial) (by trivial) (.endPass 2 rfl (by decide)))
  have run := run.turn (.toServer 4 (Message.frame .little (.join ⟨2⟩)) [] (by decide) rfl (.arrive _ _ rfl))
  have run := run.turn (.toServer 5 (Message.frame .little (.join ⟨2⟩)) [] (by decide) rfl (.arrive _ _ rfl))
  have run := run.turn (.server (by trivial) (by trivial) (.poll (fun i => if i = 0 then 0 else pollin) rfl))
  have run := run.turn (.server (by trivial) (mainLoop_steady none fun _ hread => by cases hread; exact .inl rfl)
    (.turn 0 (.steady none) rfl (by decide) .none rfl))
  have run := run.turn (.server (by trivial) (mainLoop_steady none fun _ hread => by cases hread; exact .inr rfl)
    (.turn 1 (.steady none) rfl (by decide) .none rfl))
  have run := run.turn (.server (by trivial) (mainLoop_steady none fun _ hread => by cases hread; exact .inr rfl)
    (.turn 2 (.steady none) rfl (by decide) .none rfl))
  have run := run.turn (.server (by trivial) (by trivial) (.endPass 3 rfl (by decide)))
  have run := run.turn (.toClient 0 (Printed.frame .little (.reply (ascii "you have joined room 2"))) [] rfl
    (.arrive _ _ rfl))
  have run := run.turn (.toClient 1 (Printed.frame .little (.reply (ascii "you have joined room 2"))) [] rfl
    (.arrive _ _ rfl))
  have run := run.turn (.client 0 (by trivial) (by trivial) (.poll (fun i => if i = 0 then pollin else 0) rfl))
  have run := run.turn (.client 0 (by trivial) (.steady (.inr rfl)) (.turn 0 .steady rfl (by decide) rfl))
  have run := run.turn (.client 0 (by trivial) (.steady (.inl rfl)) (.turn 1 .steady rfl (by decide) rfl))
  have run := run.turn (.client 0 (by trivial) (by trivial) (.endPass 2 rfl (by decide)))
  have run := run.turn (.client 1 (by trivial) (by trivial) (.poll (fun i => if i = 0 then pollin else 0) rfl))
  have run := run.turn (.client 1 (by trivial) (.steady (.inr rfl)) (.turn 0 .steady rfl (by decide) rfl))
  have next {sys₀ sys : ChatSystem MainState} {trace : SystemTrace MainState}
      (_ : Run (SystemStep (mainLoop .little) .little) sys₀ trace sys) :
      Run (SystemStep (mainLoop .little) .little) sys [] sys := .start
  have recent := next run
  have recent := recent.turn (.client 0 (by trivial) (by trivial) (.arrive .stdin (ascii "hi\n") rfl))
  have recent := recent.turn (.client 0 (by trivial) (by trivial) (.poll (fun i => if i = 1 then pollin else 0) rfl))
  have recent := recent.turn (.client 0 (by trivial) (.steady (.inl rfl)) (.turn 0 .steady rfl (by decide) rfl))
  have recent := recent.turn (.client 0 (by trivial) (.steady (.inl rfl)) (.turn 1 .steady rfl (by decide) rfl))
  have recent := recent.turn (.client 0 (by trivial) (by trivial) (.endPass 2 rfl (by decide)))
  have recent := recent.turn (.toServer 4 ((Content.chat 0 [] (ascii "hi\n")).frame .little) [] (by decide) rfl
    (.arrive _ _ rfl))
  have recent := recent.turn (.server (by trivial) (by trivial) (.poll (fun i => if i = 1 then pollin else 0) rfl))
  have recent := recent.turn (.server (by trivial) (mainLoop_steady none fun _ hread => by cases hread; exact .inl rfl)
    (.turn 0 (.steady none) rfl (by decide) .none rfl))
  have recent := recent.turn (.server (by trivial) (mainLoop_steady none fun _ hread => by cases hread; exact .inr rfl)
    (.turn 1 (.steady none) rfl (by decide) .none rfl))
  have recent := recent.turn (.toClient 0 ((Content.chat 0 anonymous (ascii "hi\n")).frame .little) [] rfl
    (.arrive _ _ rfl))
  have recent := recent.turn (.toClient 1 ((Content.chat 0 anonymous (ascii "hi\n")).frame .little) [] rfl
    (.arrive _ _ rfl))
  have recent := recent.turn (.client 0 (by trivial) (by trivial) (.poll (fun i => if i = 0 then pollin else 0) rfl))
  have recent := recent.turn (.client 0 (by trivial) (.steady (.inr rfl)) (.turn 0 .steady rfl (by decide) rfl))
  have recent := recent.turn (.client 1 (by trivial) (.steady (.inr rfl)) (.turn 1 .steady rfl (by decide) rfl))
  have recent := recent.turn (.client 1 (by trivial) (by trivial) (.endPass 2 rfl (by decide)))
  have recent := recent.turn (.client 1 (by trivial) (by trivial) (.poll (fun i => if i = 0 then pollin else 0) rfl))
  have recent := recent.turn (.client 1 (by trivial) (.steady (.inr rfl)) (.turn 0 .steady rfl (by decide) rfl))
  refine ⟨_, _, _, _, run, recent, ?_⟩
  rintro c (rfl | rfl)
  · refine ⟨?_, ⟨by decide, rfl, rfl, rfl⟩, ⟨by decide, rfl, rfl, rfl⟩⟩
    repeat refine Run.forall_concat ?_ ⟨_, List.mem_cons_self, rfl, rfl⟩
    exact List.forall_mem_nil _
  · refine ⟨?_, ⟨by decide, rfl, rfl, rfl⟩, ⟨by decide, rfl, rfl, rfl⟩⟩
    repeat refine Run.forall_concat ?_ ⟨_, List.mem_cons_of_mem _ List.mem_cons_self, rfl, rfl⟩
    exact List.forall_mem_nil _

/-- Both clients have printed the one message that has been said. -/
theorem system_agrees_two : ∃ past mid recent sys before since,
    Run (SystemStep (mainLoop .little) .little) (.start (.start 3) 3) past mid ∧
    Run (SystemStep (mainLoop .little) .little) mid recent sys ∧
    PartsMatch TableMoves past before ∧ PartsMatch TableMoves recent since ∧
    printedBy 0 recent = [.chat 0 anonymous (ascii "hi\n")] ∧ printedBy 1 recent = [.chat 0 anonymous (ascii "hi\n")] ∧
    since.flatMap (saidIn 2) = [.chat 0 anonymous (ascii "hi\n")] := by
  obtain ⟨past, mid, recent, sys, run, more, hboth⟩ := conversation_run
  obtain ⟨before, chat, since, chat', -, -, hpast, hrecent, hshown, hagrees⟩ :=
    system_agrees (ChatSystem.start_initial (MainState.start_initial (by decide)) (by decide)) run more
  obtain ⟨hstay, hmid, hend⟩ := hboth 0 (.inl rfl)
  have hbefore := hshown 0 hmid.running hmid.read hmid.arrived
  have hheard : printedBy 0 (past ++ recent) = shownTo 0 before ++ [.chat 0 anonymous (ascii "hi\n")] := by
    rw [hbefore, ← hend.printed]
    simp [printedBy]
  have hsaid := (hagrees 0 2 _ hstay hheard).2 hend.running hend.read hend.arrived
  exact ⟨past, mid, recent, sys, before, since, run, more, hpast, hrecent, hend.printed,
    (hboth 1 (.inr rfl)).2.2.printed, hsaid.symm⟩

end ChatRooms
