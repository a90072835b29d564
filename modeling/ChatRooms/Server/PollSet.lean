import ChatRooms.Server.MainLoop

/-!
# The poll set and the connected users

With an append that has its documented effect, the poll array holds the listener in front and behind
it one entry for each connected user, in every state of the main loop.

* `PollSet` is the invariant, `PollSet.iterated` its preservation by an iteration;
* `poll_set_agrees` is what follows for every run.
-/

namespace ChatRooms

/-! ## The invariant -/

/-- The poll array holds the listener and the connected users. -/
structure PollSet (s : Server) : Prop where
  connected : Connected s
  wf : s.pollfds.Wf
  clients : ∃ clients, s.pollfds.descriptors = s.listener :: clients ∧ clients.Perm s.userTable.ids

namespace PollSet

variable {s : Server}

theorem mem_descriptors (h : PollSet s) {fd : Fd} :
    fd ∈ s.pollfds.descriptors ↔ fd = s.listener ∨ fd ∈ s.userTable.ids := by
  obtain ⟨clients, hfds, hperm⟩ := h.clients
  rw [hfds, List.mem_cons, hperm.mem_iff]

theorem nodup_descriptors (h : PollSet s) : s.pollfds.descriptors.Nodup := by
  obtain ⟨clients, hfds, hperm⟩ := h.clients
  rw [hfds]
  refine List.nodup_cons.2 ⟨?_, hperm.nodup_iff.2 s.userTable.nodup⟩
  rw [hperm.mem_iff]
  exact h.connected.listener

theorem len_eq (h : PollSet s) : s.pollfds.len = s.userTable.ids.length + 1 := by
  obtain ⟨clients, hfds, hperm⟩ := h.clients
  rw [← h.wf.length_entries, ← List.length_map (f := Pollfd.fd), ← hperm.length_eq,
    ← List.length_cons (a := s.listener), ← hfds]
  rfl

theorem len_lt (h : PollSet s) : s.pollfds.len < 2 ^ 32 := by
  have := h.connected.length_ids_lt
  rw [h.len_eq]
  omega

/-- The user of a client's entry is in the table. -/
theorem find (h : PollSet s) {i : ℕ} {pfd : Pollfd} (hi : i < s.pollfds.len)
    (hread : s.pollfds.read i = .ok pfd) (hclient : pfd.fd ≠ s.listener) :
    ∃ user ∈ s.userTable.users, user.id = pfd.fd := by
  have hentry := (PollfdArray.read_eq_ok hi).1 hread
  have hmem : pfd.fd ∈ s.pollfds.descriptors :=
    List.mem_map_of_mem (List.mem_of_getElem? hentry)
  rcases h.mem_descriptors.1 hmem with hl | hids
  · exact absurd hl hclient
  · exact List.mem_map.1 hids

/-- The entries behind the listener are those of connected users. -/
theorem client (h : PollSet s) {i : ℕ} {pfd : Pollfd} (hi : 1 ≤ i) (hlt : i < s.pollfds.len)
    (hread : s.pollfds.read i = .ok pfd) : pfd.fd ∈ s.userTable.ids := by
  obtain ⟨clients, hfds, hperm⟩ := h.clients
  have hcell := PollfdArray.descriptors_of_read hlt hread
  obtain ⟨j, rfl⟩ : ∃ j, i = j + 1 := ⟨i - 1, by omega⟩
  rw [hfds, List.getElem?_cons_succ] at hcell
  exact hperm.mem_iff.1 (List.mem_of_getElem? hcell)

/-- The listener's entry is the first one, and no other. -/
theorem listener_iff (h : PollSet s) {i : ℕ} {pfd : Pollfd} (hi : i < s.pollfds.len)
    (hread : s.pollfds.read i = .ok pfd) : pfd.fd = s.listener ↔ i = 0 := by
  constructor
  · intro hl
    by_contra h0
    have hc := h.client (Nat.pos_of_ne_zero h0) hi hread
    rw [hl] at hc
    exact h.connected.listener hc
  · rintro rfl
    obtain ⟨clients, hfds, -⟩ := h.clients
    have hcell := PollfdArray.descriptors_of_read hi hread
    rw [hfds, List.getElem?_cons_zero, Option.some.injEq] at hcell
    exact hcell.symm

/-! ## Preservation -/

theorem report (h : PollSet s) (revents : ℕ → Events) :
    PollSet { s with pollfds := s.pollfds.report revents } where
  connected := ⟨h.connected.agree, h.connected.named, h.connected.listener, h.connected.opened⟩
  wf := PollfdArray.wf_report h.wf revents
  clients := by
    rw [PollfdArray.descriptors_report]
    exact h.clients

/-- A new connection adds its descriptor behind the others and to the table. -/
theorem connect {append : Append} (doc : Documented append) {env : Env} {fd : Fd} {s' : Server}
    (h : PollSet s) (connected : Connected s')
    (handled : handleNewClient append env (some fd) s = .ok (s', 0)) : PollSet s' := by
  obtain ⟨_, pollfds, table', hfd, happ, hadd, rfl⟩ := handleNewClient_eq_zero handled
  cases hfd
  obtain ⟨hwf, hentries⟩ := doc.append_ok h.wf happ
  obtain ⟨-, name, -, -, husers⟩ := userTableAdd_eq_some hadd
  obtain ⟨clients, hclients, hperm⟩ := h.clients
  refine ⟨connected, hwf, clients ++ [fd], ?_, ?_⟩
  · change pollfds.entries.map Pollfd.fd = _
    rw [hentries, List.map_append]
    change s.pollfds.descriptors ++ [fd] = _
    rw [hclients, List.cons_append]
  · change (clients ++ [fd]).Perm (table'.users.map User.id)
    rw [husers, List.map_append]
    exact hperm.append_right [fd]

/-- The descriptors after a deletion at the index of a connected client, which is behind the
listener. -/
theorem descriptors_delete (h : PollSet s) {i : ℕ} {client : Fd} (hi : i < s.pollfds.len)
    (hcell : s.pollfds.descriptors[i]? = some client) (hclient : client ∈ s.userTable.ids)
    (r : Realloc) :
    (pollfdArrayDelete s.pollfds i r).1.Wf ∧ ∃ clients,
      (pollfdArrayDelete s.pollfds i r).1.descriptors = s.listener :: clients ∧
        (client :: clients).Perm s.userTable.ids := by
  obtain ⟨hwf, hentries⟩ := entries_delete h.wf hi h.len_lt r
  obtain ⟨clients, hclients, hperm⟩ := h.clients
  rw [hclients] at hcell
  cases i with
  | zero =>
    rw [List.getElem?_cons_zero, Option.some.injEq] at hcell
    exact absurd (hcell ▸ hclient) h.connected.listener
  | succ j =>
    rw [List.getElem?_cons_succ] at hcell
    obtain ⟨hj, rfl⟩ := List.getElem?_eq_some_iff.1 hcell
    refine ⟨hwf, swapRemove clients j, ?_, (cons_swapRemove_perm hj).trans hperm⟩
    rw [PollfdArray.descriptors, hentries, map_swapRemove _ (by rw [h.wf.length_entries]; exact hi)]
    change swapRemove s.pollfds.descriptors (j + 1) = _
    rw [hclients, swapRemove_cons_succ _ hj]

/-- A termination at the index of the client removes its descriptor from the poll set and its record
from the table. -/
theorem terminate {env : Env} {i : ℕ} {pfd : Pollfd} {s' : Server} (h : PollSet s)
    (connected : Connected s') (hread : s.pollfds.read i = .ok pfd)
    (handled : handleClientTermination env pfd.fd i s = .ok (s', 0)) : PollSet s' := by
  obtain ⟨hi, hc, rooms', table', rfl, -, hmem⟩ :=
    handleClientTermination_eq_zero h.connected.agree handled
  have hcell := PollfdArray.descriptors_of_read hi hread
  obtain ⟨hwf, clients, hfds, hperm⟩ := h.descriptors_delete hi hcell hc env.realloc
  have hnodup : (pfd.fd :: clients).Nodup := hperm.nodup_iff.2 s.userTable.nodup
  refine ⟨connected, hwf, clients, hfds, ?_⟩
  refine (List.perm_ext_iff_of_nodup (List.nodup_cons.1 hnodup).2 table'.nodup).2 fun fd => ?_
  change fd ∈ clients ↔ fd ∈ table'.ids
  rw [UserTable.mem_ids_iff_of_users hmem, ← hperm.mem_iff, List.mem_cons]
  constructor
  · exact fun hfd => ⟨.inr hfd, fun he => (List.nodup_cons.1 hnodup).1 (he ▸ hfd)⟩
  · exact fun ⟨hfd, hne⟩ => hfd.resolve_left hne

/-- An iteration keeps the poll set. -/
theorem iterated {append : Append} (doc : Documented append) {turn : TurnEnv} {i : ℕ} {s s' : MainState}
    {pfd : Pollfd} {effect : Effect} (h : PollSet s.server) (fresh : Fresh s.server.openFds turn.accepted)
    (hread : s.server.pollfds.read i = .ok pfd) (iter : Iterated append turn i s pfd s' effect) :
    PollSet s'.server := by
  have connected := h.connected.iterated fresh iter
  cases iter with
  | hangup hup gone => exact h.terminate connected hread gone
  | connected hup input listener accept added => exact h.connect doc connected added
  | message hup input client recv success returned =>
    obtain rfl | ⟨user, -, -, rooms', user', -, -, -, rfl⟩ :=
      handleClientMessage_cases h.connected.agree success
    · exact h
    · refine ⟨connected, h.wf, ?_⟩
      dsimp only
      rw [UserTable.ids_set]
      exact h.clients
  | closed hup input client recv gone => exact h.terminate connected hread gone
  | idle hup input => exact h

theorem step {append : Append} (doc : Documented append) {s s' : MainState} {event : MainEvent}
    {effect : Effect} (h : PollSet s.server) (step : MainStep append s event effect s') :
    PollSet s'.server := by
  cases step with
  | arrive fd bytes unended => exact h
  | finish fd ending unended => exact h
  | poll revents pc => exact h.report revents
  | turn i env pc inside fresh iterated =>
    obtain ⟨pfd, hread, iter⟩ := iterated_of_next iterated
    exact h.iterated doc fresh hread iter
  | endPass i pc outside => exact h

end PollSet

theorem MainInitial.pollSet {append : Append} (doc : Documented append) {s : MainState}
    (h : MainInitial append s) : PollSet s.server := by
  obtain ⟨heap, a, r, hinit, happ⟩ := h.server.pollfds
  unfold pollfdArrayInit at hinit
  split at hinit
  · rw [Option.some.injEq] at hinit
    have hwf : a.Wf := by
      rw [← hinit]
      exact ⟨by decide, List.length_replicate .., by decide⟩
    have hnone : a.entries = [] := by
      rw [← hinit]
      exact List.take_zero
    obtain ⟨hwf', hentries⟩ := doc.append_ok hwf happ
    rw [hnone, List.nil_append] at hentries
    refine ⟨h.connected, hwf', [], ?_, ?_⟩
    · rw [PollfdArray.descriptors, hentries]
      rfl
    · rw [h.server.userTable]
      exact .refl _
  · cases hinit

theorem Run.pollSet {append : Append} (doc : Documented append) {s₀ s : MainState} {trace : MainTrace}
    (h₀ : MainInitial append s₀) (run : Run (MainStep append) s₀ trace s) : PollSet s.server :=
  run.invariant (fun s => PollSet s.server) (h₀.pollSet doc) fun _ _ step h => h.step doc step

/-- The poll set is the listener and the connected users.  In every state of the main loop, reached
by any poll results, connections, messages and terminations, entry 0 is the listener and the entries
behind it carry the ids of the connected users, each once; so the user of a client's entry is in the
table, and a descriptor that `accept` returns is not. -/
theorem poll_set_agrees {append : Append} (doc : Documented append) {s₀ s : MainState}
    {trace : MainTrace} (h₀ : MainInitial append s₀) (run : Run (MainStep append) s₀ trace s) :
    (∃ clients, s.server.pollfds.descriptors = s.server.listener :: clients ∧ clients.Nodup ∧
      s.server.listener ∉ clients ∧ clients.length + 1 = s.server.pollfds.len ∧
      ∀ fd, fd ∈ clients ↔ fd ∈ s.server.userTable.ids) ∧
    (∀ i pfd, i < s.server.pollfds.len → s.server.pollfds.read i = .ok pfd →
      pfd.fd ≠ s.server.listener → ∃ user, userTableFind s.server.userTable pfd.fd = some user) ∧
    ∀ fd, fd ∉ s.server.openFds → userTableFind s.server.userTable fd = none := by
  have h := run.pollSet doc h₀
  refine ⟨?_, fun i pfd hi hread hclient => ?_, fun fd hfd => ?_⟩
  · obtain ⟨clients, hfds, hperm⟩ := h.clients
    refine ⟨clients, hfds, hperm.nodup_iff.2 s.server.userTable.nodup, ?_, ?_, fun fd => hperm.mem_iff⟩
    · rw [hperm.mem_iff]
      exact h.connected.listener
    · rw [h.len_eq, hperm.length_eq]
  · obtain ⟨user, hu, hid⟩ := h.find hi hread hclient
    exact ⟨user, userTableFind_eq_some.2 ⟨hu, hid⟩⟩
  · exact userTableFind_eq_none.2 (h.connected.notMem_of_not_open hfd).2

theorem MainState.start_documented {listener : Fd} (h : 0 ≤ listener ∧ listener < 2 ^ 31) :
    MainInitial documentedAppend (.start listener) where
  server := {
    rooms := ⟨.steady, rfl⟩
    pollfds := ⟨.steady, _, .failed, rfl, rfl⟩
    userTable := rfl
    openFds := List.mem_singleton.2 rfl }
  pc := rfl
  listener := h

/-- `poll` reports the listener, and one client connects. -/
theorem poll_set_agrees_connect : ∃ s trace, Run (MainStep documentedAppend) (.start 3) trace s ∧
    s.server.pollfds.descriptors = [3, 4] ∧ s.server.userTable.ids = [4] ∧
    ∃ clients, s.server.pollfds.descriptors = s.server.listener :: clients ∧ clients.Nodup ∧
      s.server.listener ∉ clients ∧ clients.length + 1 = s.server.pollfds.len ∧
      ∀ fd, fd ∈ clients ↔ fd ∈ s.server.userTable.ids :=
  have run := (Run.start.turn (.poll (fun _ => pollin) rfl)).turn
    (.turn 0 ⟨.steady 0, .steady 4, some 4⟩ rfl (by decide) (.of_notMem (by decide)) rfl)
  ⟨_, _, run, rfl, rfl,
    (poll_set_agrees documentedAppend_documented (MainState.start_documented (by decide)) run).1⟩

end ChatRooms
