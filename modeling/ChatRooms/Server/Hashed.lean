import ChatRooms.Lib.Simulation
import ChatRooms.Server.Steps
import ChatRooms.UserHash

/-!
# The server on the hash table

The handlers of `server.c` that use the user table, once more, with the hash table of `uthash.h` in the place
of the finite map: they get the address of a record from `user_table_find` and write to the record through it.
The other handlers are the same.

`hashed_server_refines`: a run of this server is a run of the server on the finite map, with the same outputs.
What is proved of the runs of that server holds of this one.
-/

namespace ChatRooms

/-- The data of `main`, with the hash table of users. -/
structure HashedServer where
  listener : Fd
  pollfds : PollfdArray
  rooms : RoomArray
  users : UserHash
  openFds : List Fd

/-- A computation that does not touch the hash table. -/
def Checked.hashed {α : Type} : Checked α → Except HashStop α
  | .ok a => .ok a
  | .error f => .error (.fault f)

/-- Writes `room` and `name` through a pointer to a record. -/
def UserHash.write (s : UserHash) (p : Addr) (user : User) : UserHash :=
  { s with user := Function.update s.user p user }

namespace HashedServer

/-- `handle_client_message` -/
def handleClientMessage (env : Env) (client : Fd) (received : Received) (s : HashedServer) :
    Except HashStop (Option (HashedServer × List Output × ℤ)) :=
  match received with
  | .waits => return none
  | .failed => return some (s, [], -1)
  | .closed => return some (s, [], 0)
  | .message buf _ => do
    match ← s.users.userTableFind env.host client with
    | none => return some (s, [], -1)
    | some p =>
      match ← (getMessageType buf).hashed with
      | .chat =>
        let (outs, status) ← (handleChatMessage env buf (s.users.user p) s.rooms).hashed
        return some (s, outs, if status ≠ 0 then -1 else 1)
      | .join =>
        let (rooms, user, outs) ← (handleJoinMessage env buf s.rooms (s.users.user p)).hashed
        return some ({ s with rooms, users := s.users.write p user }, outs, 1)
      | .name =>
        let (user, outs) ← (handleNameMessage env buf (s.users.user p)).hashed
        return some ({ s with users := s.users.write p user }, outs, 1)
      | .reply | .invalid => return some (s, [.invalidType], -1)

/-- `handle_new_client`; `addr` is where `malloc` puts the new record. -/
def handleNewClient (append : Append) (env : Env) (addr : Addr) (accepted : Option Fd) (s : HashedServer) :
    Except HashStop (HashedServer × ℤ) :=
  match accepted with
  | none => return (s, -1)
  | some sockfd =>
    match append s.pollfds sockfd pollin env.realloc with
    | (pollfds, status) =>
      if status ≠ 0 then return ({ s with pollfds }, -1)
      else do
        let s := { s with pollfds, openFds := sockfd :: s.openFds }
        let (users, status) ← s.users.userTableAdd env.host env.heap addr sockfd
        return ({ s with users }, if status ≠ 0 then -1 else 0)

/-- The end of `handle_client_termination`, from `user_table_delete` on. -/
def deleteUser (env : Env) (client : Fd) (s : HashedServer) : Except HashStop (HashedServer × ℤ) := do
  let (users, status) ← s.users.userTableDelete env.host client
  if status ≠ 0 then return (s, -1)
  else return ({ s with users, openFds := s.openFds.erase client }, 0)

/-- `handle_client_termination` -/
def handleClientTermination (env : Env) (client : Fd) (i : ℕ) (s : HashedServer) :
    Except HashStop (HashedServer × ℤ) :=
  match pollfdArrayDelete s.pollfds i env.realloc with
  | (pollfds, status) =>
    let s := { s with pollfds }
    if status ≠ 0 then return (s, -1)
    else do
      match ← s.users.userTableFind env.host client with
      | none => return (s, -1)
      | some p =>
        match roomArrayGetRoom s.rooms (s.users.user p).room.toNat with
        | none => s.deleteUser env client
        | some r =>
          match ← (s.rooms.removeUser r (s.users.user p)).hashed with
          | none => return (s, -1)
          | some (rooms, user) =>
            ({ s with rooms, users := s.users.write p user } : HashedServer).deleteUser env client

end HashedServer

/-- The steps of the server on the hash table: those of the server on the finite map, on a host of one byte
order.  `malloc` hands out an address that is not in use, and descriptors are not negative. -/
inductive HashedStep (append : Append) (host : ByteOrder) :
    HashedServer → Env × Event → List Output → HashedServer → Prop
  | connect (env : Env) (fd : Fd) (addr : Addr) {s s' : HashedServer} (order : env.host = host)
      (bounded : env.heap.Bounded) (unused : addr ∉ s.users.live) (isFd : IsFd fd) (fresh : fd ∉ s.openFds)
      (handled : s.handleNewClient append env addr (some fd) = .ok (s', 0)) :
      HashedStep append host s (env, .connect fd) [] s'
  | terminate (env : Env) (client : Fd) (i : ℕ) {s s' : HashedServer} (order : env.host = host)
      (isFd : IsFd client) (handled : s.handleClientTermination env client i = .ok (s', 0)) :
      HashedStep append host s (env, .terminate client i) [] s'
  | message (env : Env) (client : Fd) (received : Received) {s s' : HashedServer} {outs : List Output}
      {status : ℤ} (order : env.host = host) (isFd : IsFd client)
      (handled : s.handleClientMessage env client received = .ok (some (s', outs, status)))
      (success : status ≠ -1) (returned : Returned env outs) :
      HashedStep append host s (env, .message client received) outs s'

/-- The data of a server, with a hash table in the place of its finite map. -/
def Server.onHash (s : Server) (users : UserHash) : HashedServer :=
  ⟨s.listener, s.pollfds, s.rooms, users, s.openFds⟩

/-- A server on the hash table and one on the finite map with the same data; rooms and users agree. -/
structure HashedServer.Refines (host : ByteOrder) (c : HashedServer) (s : Server) : Prop where
  listener : c.listener = s.listener
  pollfds : c.pollfds = s.pollfds
  rooms : c.rooms = s.rooms
  openFds : c.openFds = s.openFds
  users : c.users.Refines host s.userTable
  agree : Agree s.rooms s.userTable

theorem HashedServer.Refines.eq_onHash {host : ByteOrder} {c : HashedServer} {s : Server} (h : c.Refines host s) :
    c = s.onHash c.users := by
  rw [Server.onHash, ← h.listener, ← h.pollfds, ← h.rooms, ← h.openFds]

/-- A computation on the hash table gives a result related to that on the finite map, or ends in the same
fault, or ends the process for want of memory. -/
def Matched {α β : Type} (Rel : α → β → Prop) (x : Except HashStop α) (y : Checked β) : Prop :=
  x = .error .outOfMemory ∨ (∃ f, x = .error (.fault f) ∧ y = .error f) ∨ ∃ a b, x = .ok a ∧ y = .ok b ∧ Rel a b

namespace Matched

variable {α β γ δ : Type} {Rel : α → β → Prop} {Rel' : γ → δ → Prop}

theorem ok {a : α} {b : β} (h : Rel a b) : Matched Rel (.ok a) (.ok b) := .inr (.inr ⟨a, b, rfl, rfl, h⟩)

/-- Computations one after another. -/
theorem bind {x : Except HashStop α} {y : Checked β} {f : α → Except HashStop γ} {g : β → Checked δ}
    (h : Matched Rel x y) (hnext : ∀ a b, x = .ok a → y = .ok b → Rel a b → Matched Rel' (f a) (g b)) :
    Matched Rel' (x >>= f) (y >>= g) := by
  rcases h with rfl | ⟨e, rfl, rfl⟩ | ⟨a, b, rfl, rfl, hrel⟩
  · exact .inl rfl
  · exact .inr (.inl ⟨e, rfl, rfl⟩)
  · exact hnext a b rfl rfl hrel

/-- A computation that does not touch the table. -/
theorem hashed (x : Checked α) : Matched Eq x.hashed x := by
  cases x with
  | ok a => exact .ok rfl
  | error f => exact .inr (.inl ⟨f, rfl, rfl⟩)

end Matched

/-! ## The handlers -/

/-- Both handlers wait, or they return the same outputs and the same status with servers of the same data. -/
def SameResult (host : ByteOrder) :
    Option (HashedServer × List Output × ℤ) → Option (Server × List Output × ℤ) → Prop
  | none, none => True
  | some (c, outs, status), some (s, outs', status') => c.Refines host s ∧ outs = outs' ∧ status = status'
  | _, _ => False

/-- Both handlers return the same status with servers of the same data. -/
def SameStatus (host : ByteOrder) (x : HashedServer × ℤ) (y : Server × ℤ) : Prop :=
  x.1.Refines host y.1 ∧ x.2 = y.2

namespace HashedServer.Refines

variable {env : Env} {c : HashedServer} {s : Server}

theorem withPollfds {host : ByteOrder} (h : c.Refines host s) (pollfds : PollfdArray) :
    ({ c with pollfds } : HashedServer).Refines host { s with pollfds } where
  listener := h.listener
  pollfds := rfl
  rooms := h.rooms
  openFds := h.openFds
  users := h.users
  agree := h.agree

/-- Writes through a pointer to a record, and new rooms that agree with it. -/
theorem write (h : c.Refines env.host s) {p : Addr} (hp : p ∈ c.users.live) {rooms rooms' : RoomArray}
    {user : User} (hagree : Agree rooms' (s.userTable.set user)) (hid : (c.users.user p).id = user.id)
    (hrooms : rooms = rooms') :
    ({ c with rooms, users := c.users.write p user } : HashedServer).Refines env.host
      { s with rooms := rooms', userTable := s.userTable.set user } where
  listener := h.listener
  pollfds := h.pollfds
  rooms := hrooms
  openFds := h.openFds
  users := h.users.update hp hid
  agree := hagree

/-- The record that a search found is one of those in use, and it is in the finite map. -/
theorem found (h : c.Refines env.host s) {client : Fd} {p : Addr}
    (hp : (c.users.live.find? fun a => (c.users.user a).id = client) = some p) :
    p ∈ c.users.live ∧ c.users.user p ∈ s.userTable.users ∧ (c.users.user p).id = client := by
  have hlive : p ∈ c.users.live := List.mem_of_find?_eq_some hp
  refine ⟨hlive, ?_, by simpa using List.find?_some hp⟩
  rw [h.users.users]
  exact List.mem_map_of_mem hlive

theorem clientMessage (h : c.Refines env.host s) {client : Fd} (hclient : IsFd client) (received : Received) :
    Matched (SameResult env.host) (c.handleClientMessage env client received)
      (ChatRooms.handleClientMessage env client received s) := by
  cases received with
  | waits => exact .ok trivial
  | failed => exact .ok ⟨h, rfl, rfl⟩
  | closed => exact .ok ⟨h, rfl, rfl⟩
  | message buf recvd =>
    obtain ⟨hfind, hmap⟩ := h.users.find hclient
    unfold HashedServer.handleClientMessage ChatRooms.handleClientMessage
    dsimp only
    rw [hfind, ← hmap, HashStop.ok_bind]
    cases hp : c.users.live.find? fun a => (c.users.user a).id = client with
    | none => exact .ok ⟨h, rfl, rfl⟩
    | some p =>
      obtain ⟨hlive, hu, -⟩ := h.found hp
      dsimp only [Option.map_some]
      apply Matched.bind (.hashed (getMessageType buf))
      rintro type _ - - rfl
      cases type with
      | chat =>
        dsimp only
        rw [h.rooms]
        apply Matched.bind (.hashed _)
        rintro ⟨outs, status⟩ _ - - rfl
        exact .ok ⟨h, rfl, rfl⟩
      | join =>
        dsimp only
        rw [h.rooms]
        apply Matched.bind (.hashed _)
        rintro ⟨rooms, user, outs⟩ _ - hjoin rfl
        obtain ⟨n, hn⟩ := exists_roomId hjoin
        obtain ⟨rooms', user', outs', fmt, hspec, hagree, hout, -⟩ := handleJoinMessage_spec env h.agree hu hn
        rw [hspec, Except.ok.injEq, Prod.mk.injEq, Prod.mk.injEq] at hjoin
        obtain ⟨rfl, rfl, rfl⟩ := hjoin
        exact .ok ⟨h.write hlive hagree hout.keeps.1.symm rfl, rfl, rfl⟩
      | name =>
        apply Matched.bind (.hashed _)
        rintro ⟨user, outs⟩ _ - hname rfl
        obtain ⟨name, -, rfl, -⟩ := handleNameMessage_eq_ok hname
        exact .ok ⟨h.write hlive (h.agree.set hu rfl rfl) rfl h.rooms, rfl, rfl⟩
      | reply => exact .ok ⟨h, rfl, rfl⟩
      | invalid => exact .ok ⟨h, rfl, rfl⟩

theorem newClient (h : c.Refines env.host s) (append : Append) (hheap : env.heap.Bounded) {addr : Addr}
    (haddr : addr ∉ c.users.live) {sockfd : Fd} (hsockfd : IsFd sockfd) :
    Matched (SameStatus env.host) (c.handleNewClient append env addr (some sockfd))
      (ChatRooms.handleNewClient append env (some sockfd) s) := by
  unfold HashedServer.handleNewClient ChatRooms.handleNewClient
  dsimp only
  rw [h.pollfds]
  generalize append s.pollfds sockfd pollin env.realloc = appended
  obtain ⟨pollfds, status⟩ := appended
  dsimp only
  by_cases hstatus : status ≠ 0
  · rw [if_pos hstatus, if_pos hstatus]
    exact .ok ⟨h.withPollfds pollfds, rfl⟩
  · rw [if_neg hstatus, if_neg hstatus]
    have h' := h.withPollfds pollfds
    have hopen : sockfd :: c.openFds = sockfd :: s.openFds := by
      rw [h.openFds]
    rcases h.users.add hheap haddr hsockfd with hstop | ⟨hmap, hhash⟩ | ⟨table', users', hmap, hhash, husers⟩
    · rw [hstop]
      exact .inl rfl
    · rw [hmap, hhash]
      exact .ok ⟨⟨h'.listener, h'.pollfds, h'.rooms, hopen, h'.users, h'.agree⟩, rfl⟩
    · rw [hmap, hhash]
      exact .ok ⟨⟨h'.listener, h'.pollfds, h'.rooms, hopen, husers, h'.agree.add hmap⟩, rfl⟩

/-- The deletion of a user that is in no room. -/
theorem deleteUser (h : c.Refines env.host s) {user : User} (hu : user ∈ s.userTable.users)
    (hroom : user.room = invalidRoom) {client : Fd} (hid : user.id = client) (hclient : IsFd client) :
    Matched (SameStatus env.host) (c.deleteUser env client) (.ok (ChatRooms.deleteUser client s)) := by
  subst hid
  unfold HashedServer.deleteUser ChatRooms.deleteUser
  obtain ⟨table, hdelete, hagree, -⟩ := h.agree.delete hu hroom
  rcases h.users.delete hclient with ⟨hmap, -⟩ | ⟨table', users', hmap, hhash, husers⟩
  · rw [hdelete] at hmap
    cases hmap
  · rw [hhash, hmap]
    rw [hdelete, Option.some.injEq] at hmap
    subst hmap
    have hopen : c.openFds.erase user.id = s.openFds.erase user.id := by
      rw [h.openFds]
    exact .ok ⟨⟨h.listener, h.pollfds, h.rooms, hopen, husers, hagree⟩, rfl⟩

theorem clientTermination (h : c.Refines env.host s) {client : Fd} (hclient : IsFd client) (i : ℕ) :
    Matched (SameStatus env.host) (c.handleClientTermination env client i)
      (ChatRooms.handleClientTermination env client i s) := by
  unfold HashedServer.handleClientTermination ChatRooms.handleClientTermination
  rw [h.pollfds]
  generalize pollfdArrayDelete s.pollfds i env.realloc = deleted
  obtain ⟨pollfds, status⟩ := deleted
  dsimp only
  by_cases hstatus : status ≠ 0
  · rw [if_pos hstatus, if_pos hstatus]
    exact .ok ⟨h.withPollfds pollfds, rfl⟩
  rw [if_neg hstatus, if_neg hstatus]
  have h' := h.withPollfds pollfds
  obtain ⟨hfind, hmap⟩ := h'.users.find hclient
  dsimp only at hfind hmap
  rw [hfind, ← hmap, HashStop.ok_bind]
  cases hp : c.users.live.find? fun a => (c.users.user a).id = client with
  | none => exact .ok ⟨h', rfl⟩
  | some p =>
    obtain ⟨hlive, hu, rfl⟩ := h.found hp
    dsimp only [Option.map_some]
    by_cases hroom : (c.users.user p).room = invalidRoom
    · have hnone := h.agree.getRoom_eq_none.2 (.inl hroom)
      have hnone' := hnone
      rw [← h.rooms] at hnone'
      rw [hnone, hnone']
      exact h'.deleteUser hu hroom rfl hclient
    · obtain ⟨r, room, room', hget, -, -, hremove, -, -, hagree⟩ := h.agree.leave hu hroom
      rw [h.rooms, hget]
      dsimp only
      rw [hremove]
      have hmem : { c.users.user p with room := invalidRoom } ∈
          (s.userTable.set { c.users.user p with room := invalidRoom }).users := UserTable.mem_set_self hu rfl
      exact (h'.write hlive hagree rfl rfl).deleteUser hmem rfl rfl hclient

end HashedServer.Refines

/-! ## Runs -/

theorem Matched.of_ok {α β : Type} {Rel : α → β → Prop} {x : Except HashStop α} {y : Checked β} {a : α}
    (h : Matched Rel x y) (hx : x = .ok a) : ∃ b, y = .ok b ∧ Rel a b := by
  rcases h with h | ⟨f, h, -⟩ | ⟨a', b, h, hy, hrel⟩
  · rw [hx] at h
    cases h
  · rw [hx] at h
    cases h
  · rw [hx, Except.ok.injEq] at h
    subst h
    exact ⟨b, hy, hrel⟩

/-- A step on the hash table is a step on the finite map. -/
theorem HashedStep.step {append : Append} {host : ByteOrder} {c c' : HashedServer} {s : Server}
    {input : Env × Event} {outs : List Output} (h : c.Refines host s)
    (step : HashedStep append host c input outs c') :
    ∃ s', Step append s input outs s' ∧ c'.Refines host s' := by
  cases step with
  | connect env fd addr order bounded unused isFd fresh handled =>
    subst order
    obtain ⟨⟨s', status⟩, hs, hrefines, rfl⟩ := (h.newClient append bounded unused isFd).of_ok handled
    rw [h.openFds] at fresh
    exact ⟨s', .connect env fd fresh hs, hrefines⟩
  | terminate env client i order isFd handled =>
    subst order
    obtain ⟨⟨s', status⟩, hs, hrefines, rfl⟩ := (h.clientTermination isFd i).of_ok handled
    exact ⟨s', .terminate env client i hs, hrefines⟩
  | message env client received order isFd handled success returned =>
    subst order
    obtain ⟨result, hs, hsame⟩ := (h.clientMessage isFd received).of_ok handled
    cases result with
    | none => exact hsame.elim
    | some result =>
      obtain ⟨s', outs', status'⟩ := result
      obtain ⟨hrefines, rfl, rfl⟩ := hsame
      exact ⟨s', .message env client received hs success returned, hrefines⟩

/-- The server on the hash table is simulated step by step. -/
theorem HashedStep.simulation (append : Append) (host : ByteOrder) :
    Simulation (HashedStep append host) (Step append) (HashedServer.Refines host)
      (fun label part => part = [label]) := by
  intro c c' s input outs h step
  obtain ⟨s', hstep, h'⟩ := step.step h
  exact ⟨[⟨s, input, outs, s'⟩], s', Run.start.turn hstep, rfl, h'⟩

/-- Every run of the server on the hash table is a run of the server on the finite map, with the same events
and outputs.  Where it ends the two have the same data and the hash table passes the library's check; and
whatever comes next, the handlers give the same result on both, or commit the same fault, or the process ends
for want of memory. -/
theorem hashed_server_refines {append : Append} (host : ByteOrder) {s₀ : Server} (h₀ : Initial append s₀)
    (garbage : Addr → User) {trace : List (Turn HashedServer (Env × Event) (List Output))} {c : HashedServer}
    (run : Run (HashedStep append host) (s₀.onHash (.empty garbage)) trace c) :
    ∃ trace' s, Run (Step append) s₀ trace' s ∧ labels trace' = labels trace ∧ c = s.onHash c.users ∧
      s.userTable.users = c.users.live.map c.users.user ∧ hashFsck c.users.hash = true ∧
      ∀ env : Env, env.host = host → ∀ client, IsFd client →
        (∀ received, Matched (SameResult host) (c.handleClientMessage env client received)
          (handleClientMessage env client received s)) ∧
        (∀ i, Matched (SameStatus host) (c.handleClientTermination env client i)
          (handleClientTermination env client i s)) ∧
        ∀ addr ∉ c.users.live, env.heap.Bounded → Matched (SameStatus host)
          (c.handleNewClient append env addr (some client)) (handleNewClient append env (some client) s) := by
  have hrefines : (s₀.onHash (.empty garbage)).Refines host s₀ := by
    refine ⟨rfl, rfl, rfl, rfl, ?_, h₀.agree⟩
    rw [h₀.userTable]
    exact .empty garbage
  obtain ⟨trace', s, run', hmatch, h⟩ := (HashedStep.simulation append host).run hrefines run
  refine ⟨trace', s, run', hmatch.eq_of_singletons, h.eq_onHash, h.users.users,
    hashFsck_of_represents h.users.represents, ?_⟩
  rintro env rfl client hclient
  exact ⟨h.clientMessage hclient, h.clientTermination hclient,
    fun addr haddr hheap => h.newClient append hheap haddr hclient⟩

/-- Every call succeeds; an allocation does within 1 MiB. -/
def Env.mebibyte : Env := { Env.steady 0 with heap := .mebibyte }

theorem Env.mebibyte_returned (outs : List Output) : Returned .mebibyte outs :=
  returned_of_accepted (Env.steady_accepts 0) outs

/-- Two clients connect, the second one joins a room, and the first one leaves. -/
theorem hashed_server_refines_two : ∃ trace s, Run (Step pollfdArrayAppend) (.start 3) trace s ∧
    (labels trace).map (fun label => label.2.length) = [0, 0, 1, 0] ∧ s.userTable.ids = [5] ∧
    (s.rooms.rooms.map Room.members) = [[], [5], [], [], []] := by
  have run : Run (HashedStep pollfdArrayAppend .little)
      ((Server.start 3).onHash (.empty fun _ => ⟨0, 0, .fill fun _ => 0⟩)) _ _ :=
    (((Run.start.turn (.connect .mebibyte 4 1 rfl Heap.mebibyte_bounded (by decide) ⟨by decide, by decide⟩
      (by decide) rfl)).turn (.connect .mebibyte 5 2 rfl Heap.mebibyte_bounded (by decide)
        ⟨by decide, by decide⟩ (by decide) rfl)).turn
          (.message .mebibyte 5 (.message [0, 0, 0, 6, 3, 2] 6) rfl ⟨by decide, by decide⟩ rfl (by decide)
            (Env.mebibyte_returned _))).turn
            (.terminate .mebibyte 4 1 rfl ⟨by decide, by decide⟩ rfl)
  obtain ⟨trace, s, run', hlabels, hdata, husers, -⟩ :=
    hashed_server_refines .little (Server.start_initial 3) (fun _ => ⟨0, 0, .fill fun _ => 0⟩) run
  refine ⟨trace, s, run', ?_, ?_, ?_⟩
  · rw [hlabels]
    rfl
  · rw [UserTable.ids, husers]
    rfl
  · have hrooms := congrArg HashedServer.rooms hdata
    change _ = s.rooms at hrooms
    rw [← hrooms]
    rfl

end ChatRooms
