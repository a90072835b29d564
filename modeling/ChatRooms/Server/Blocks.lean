import ChatRooms.Server.Buffers
import ChatRooms.Server.HashedMain
import ChatRooms.UtHash.Blocks

/-!
# The blocks of the server

What the server keeps on the heap between two iterations: the block of the poll array, the hash table with its
buckets while there are users, and a record for each of them.  The functions that allocate and free these blocks
once more, and the handlers of `server.c` above them.

Each `Runs` lemma says that a function does what the plain one does, and that the blocks in use stay those of the
server's data: `Accounted`.  Only `pollfd_array_append` uses a block that it may have freed.
-/

namespace ChatRooms

/-- The addresses of the poll array, and of the hash table and its buckets. -/
structure ServerBlocks where
  fds : Addr
  table : TableBlocks Addr

/-- The blocks in use are those of the hash table, a record for each user, and `rest`. -/
def Accounted (rest : Multiset Addr) (t : TableBlocks Addr) (users : UserHash) (live : Multiset Addr) : Prop :=
  live = users.hash.tableBlocks t + ((users.live : Multiset Addr) + rest)

/-- The elements of the hash are the records in use, and its counters can count one more. -/
structure UserHash.Intact (users : UserHash) : Prop where
  represents : users.hash.Represents users.live
  short : users.live.length + 1 < 2 ^ 32

theorem UserHash.Refines.intact {host : ByteOrder} {users : UserHash} {t : UserTable} (h : users.Refines host t) :
    users.Intact :=
  ⟨h.represents, h.length_lt⟩

/-- A record is among the blocks that are not of the table. -/
theorem mem_records {users : UserHash} (rest : Multiset Addr) {p : Addr} (hp : p ∈ users.live) :
    p ∈ (users.live : Multiset Addr) + rest := by
  simp [hp]

theorem Accounted.mem_record {rest : Multiset Addr} {t : TableBlocks Addr} {users : UserHash}
    {live : Multiset Addr} (h : Accounted rest t users live) {p : Addr} (hp : p ∈ users.live) : p ∈ live := by
  rw [h]
  exact Multiset.mem_add.2 (.inr (mem_records rest hp))

theorem Accounted.mem_rest {rest : Multiset Addr} {t : TableBlocks Addr} {users : UserHash}
    {live : Multiset Addr} (h : Accounted rest t users live) {p : Addr} (hp : p ∈ rest) : p ∈ live := by
  rw [h]
  exact Multiset.mem_add.2 (.inr (Multiset.mem_add.2 (.inr hp)))

namespace Heaped

variable {ε : Type} (malloc : Allocator Addr)

/-! ## The poll array -/

/-- `reallocarray` of the block at `p`: the address of the block behind it. -/
def reallocarray (p : Addr) : Realloc → OnHeap Addr ε (Option Addr)
  | .failed => return none
  | .inPlace _ => return some p
  | .moved _ => do
    let new ← OnHeap.alloc malloc
    OnHeap.free p
    return some new

/-- The entry is written through a copy of `pollfds->fds` from before the resize. -/
def pollfdArrayAppend (a : PollfdArray) (block : Addr) (fd : Fd) (events : Events) (r : Realloc) :
    OnHeap Addr ε (PollfdArray × Addr × ℤ) := do
  let fds := block
  if u32 (a.len + 1) > a.capacity then
    match ← reallocarray malloc block r with
    | none => return (a, block, -1)
    | some block => do
      OnHeap.access fds
      let (a, status) := ChatRooms.pollfdArrayAppend a fd events r
      return (a, block, status)
  else
    OnHeap.access fds
    let (a, status) := ChatRooms.pollfdArrayAppend a fd events r
    return (a, block, status)

def pollfdArrayDelete (a : PollfdArray) (block : Addr) (i : ℕ) (r : Realloc) :
    OnHeap Addr ε (PollfdArray × Addr × ℤ) := do
  let (b, status) := ChatRooms.pollfdArrayDelete a i r
  if status ≠ 0 then return (b, block, status)
  else
    OnHeap.access block
    if shouldShrink (u32 (a.len + 2 ^ 32 - 1)) a.capacity then
      match ← reallocarray malloc block r with
      | none => return (b, block, status)
      | some block => return (b, block, status)
    else return (b, block, status)

/-! ## The user table -/

def userTableFind (host : ByteOrder) (t : TableBlocks Addr) (s : UserHash) (id : Fd) :
    OnHeap Addr HashStop (Option Addr) :=
  hashFind s.hash t (intBytes host id)

def userTableAdd (host : ByteOrder) (heap : Heap) (t : TableBlocks Addr) (s : UserHash) (id : Fd) :
    OnHeap Addr HashStop (UserHash × TableBlocks Addr × ℤ) := do
  match ← userTableFind host t s id with
  | some _ => return (s, t, -1)
  | none =>
    if heap.serves sizeofUser then
      let addr ← OnHeap.alloc malloc
      OnHeap.access addr
      match copyInto (.fill heap.fresh) (anonymous ++ [0]) with
      | .error f => OnHeap.lift (.error (.fault f))
      | .ok name =>
        let user := Function.update s.user addr { id, room := invalidRoom, name }
        let (hash, t) ← hashAdd malloc heap s.hash t (intBytes host id) addr
        return ({ hash, user, live := s.live ++ [addr] }, t, 0)
    else return (s, t, -1)

def userTableDelete (host : ByteOrder) (t : TableBlocks Addr) (s : UserHash) (id : Fd) :
    OnHeap Addr HashStop (UserHash × ℤ) := do
  match ← userTableFind host t s id with
  | none => return (s, -1)
  | some user =>
    let hash ← hashDelete s.hash t user
    OnHeap.free user
    return ({ s with hash, live := s.live.erase user }, 0)

/-! ## The handlers -/

def handleNewClient (env : Env) (accepted : Option Fd) (s : HashedServer) (b : ServerBlocks) :
    OnHeap Addr HashStop (HashedServer × ServerBlocks × ℤ) :=
  match accepted with
  | none => return (s, b, -1)
  | some sockfd => do
    let (pollfds, fds, status) ← pollfdArrayAppend malloc s.pollfds b.fds sockfd pollin env.realloc
    if status ≠ 0 then return ({ s with pollfds }, { b with fds }, -1)
    else
      let s := { s with pollfds, openFds := sockfd :: s.openFds }
      let (users, table, status) ← userTableAdd malloc env.host env.heap b.table s.users sockfd
      return ({ s with users }, ⟨fds, table⟩, if status ≠ 0 then -1 else 0)

/-- Handles what `recvall` returned, with the block of a message; `recv_buf` is not freed when there is no user. -/
def handleClientMessage (env : Env) (client : Fd) (received : Received) (recvBuf : Option Addr) (s : HashedServer)
    (b : ServerBlocks) : OnHeap Addr HashStop (Option (HashedServer × List Output × ℤ)) :=
  match received, recvBuf with
  | .waits, _ => return none
  | .failed, _ => return some (s, [], -1)
  | .closed, _ => return some (s, [], 0)
  | .message _ _, none => OnHeap.lift (.error (.fault .null))
  | .message buf _, some recvBuf => do
    match ← userTableFind env.host b.table s.users client with
    | none => return some (s, [], -1)
    | some p => do
      OnHeap.access recvBuf
      match ← OnHeap.lift (getMessageType buf).hashed with
      | .chat => do
        OnHeap.access p
        let (outs, status) ←
          (handleChatMessage malloc env recvBuf buf (s.users.user p) s.rooms).mapStop .fault
        OnHeap.free recvBuf
        return some (s, outs, if status ≠ 0 then -1 else 1)
      | .join => do
        OnHeap.access p
        let (rooms, user, outs) ←
          (handleJoinMessage malloc env recvBuf buf s.rooms (s.users.user p)).mapStop .fault
        OnHeap.free recvBuf
        return some ({ s with rooms, users := s.users.write p user }, outs, 1)
      | .name => do
        OnHeap.access p
        let (user, outs) ← (handleNameMessage malloc env recvBuf buf (s.users.user p)).mapStop .fault
        OnHeap.free recvBuf
        return some ({ s with users := s.users.write p user }, outs, 1)
      | .reply | .invalid => do
        OnHeap.free recvBuf
        return some (s, [.invalidType], -1)

def deleteUser (env : Env) (client : Fd) (s : HashedServer) (b : ServerBlocks) :
    OnHeap Addr HashStop (HashedServer × ServerBlocks × ℤ) := do
  let (users, status) ← userTableDelete env.host b.table s.users client
  if status ≠ 0 then return (s, b, -1)
  else return ({ s with users, openFds := s.openFds.erase client }, b, 0)

def handleClientTermination (env : Env) (client : Fd) (i : ℕ) (s : HashedServer) (b : ServerBlocks) :
    OnHeap Addr HashStop (HashedServer × ServerBlocks × ℤ) := do
  let (pollfds, fds, status) ← pollfdArrayDelete malloc s.pollfds b.fds i env.realloc
  let s := { s with pollfds }
  let b := { b with fds }
  if status ≠ 0 then return (s, b, -1)
  else
    match ← userTableFind env.host b.table s.users client with
    | none => return (s, b, -1)
    | some p => do
      OnHeap.access p
      match roomArrayGetRoom s.rooms (s.users.user p).room.toNat with
      | none => deleteUser env client s b
      | some r =>
        match ← OnHeap.lift (s.rooms.removeUser r (s.users.user p)).hashed with
        | none => return (s, b, -1)
        | some (rooms, user) => deleteUser env client { s with rooms, users := s.users.write p user } b

/-! ## The poll array keeps its block -/

section

variable {live rest : Multiset Addr}

theorem reallocarray_runs {p : Addr} (h : live = p ::ₘ rest) (r : Realloc) :
    Runs live (reallocarray malloc p r) (.ok () : Except ε Unit)
      fun a _ left => left = a.getD p ::ₘ rest := by
  cases r with
  | failed => exact .pure h
  | inPlace fresh => exact .pure h
  | moved fresh =>
    apply Runs.alloc_bind malloc
    intro new
    have hlive : new ::ₘ live = p ::ₘ new ::ₘ rest := by
      rw [h, Multiset.cons_swap]
    exact .free_bind hlive (.pure rfl)

/-- An append that does not move the array leaves all blocks where they are, and writes to one in use. -/
theorem pollfdArrayAppend_runs {block : Addr} (hblock : block ∈ live) (a : PollfdArray) (fd : Fd)
    (events : Events) {r : Realloc} (hstay : ∀ fresh, r = .moved fresh → u32 (a.len + 1) ≤ a.capacity) :
    Runs live (pollfdArrayAppend malloc a block fd events r)
      (.ok (ChatRooms.pollfdArrayAppend a fd events r) : Except ε (PollfdArray × ℤ))
      fun a b left => a = (b.1, block, b.2) ∧ left = live := by
  unfold pollfdArrayAppend
  by_cases hfull : u32 (a.len + 1) > a.capacity
  · rw [if_pos hfull]
    cases r with
    | failed =>
      have hfail : ChatRooms.pollfdArrayAppend a fd events .failed = (a, -1) := by
        simp [ChatRooms.pollfdArrayAppend, growForAppend, hfull, resize]
      rw [hfail]
      exact .pure ⟨rfl, rfl⟩
    | inPlace fresh =>
      rw [reallocarray, pure_bind]
      apply Runs.access_bind hblock
      exact .pure ⟨rfl, rfl⟩
    | moved fresh => exact absurd (hstay fresh rfl) (not_le.2 hfull)
  · rw [if_neg hfull]
    apply Runs.access_bind hblock
    exact .pure ⟨rfl, rfl⟩

/-- An append that moves the array writes to its old block. -/
theorem pollfdArrayAppend_moved {block : Addr} (hblock : block ∈ live) (distinct : live.Nodup) {a : PollfdArray}
    (hfull : a.capacity < u32 (a.len + 1)) (fd : Fd) (events : Events) (fresh : ℕ → Pollfd) :
    (pollfdArrayAppend malloc a block fd events (.moved fresh) : OnHeap Addr ε (PollfdArray × Addr × ℤ)) live =
      .error (.noBlock block) := by
  obtain ⟨rest, rfl⟩ := Multiset.exists_cons_of_mem hblock
  have hmoved : (reallocarray malloc block (.moved fresh) : OnHeap Addr ε (Option Addr)) (block ::ₘ rest) =
      .ok (some (malloc.place (block ::ₘ rest)), malloc.place (block ::ₘ rest) ::ₘ rest) := by
    have halloc : (OnHeap.alloc malloc : OnHeap Addr ε Addr) (block ::ₘ rest) =
        .ok (malloc.place (block ::ₘ rest), block ::ₘ malloc.place (block ::ₘ rest) ::ₘ rest) := by
      rw [Multiset.cons_swap]
      rfl
    rw [reallocarray, OnHeap.bind_apply_of_ok halloc, OnHeap.bind_apply_of_ok (OnHeap.free_cons block _)]
    rfl
  have hgone : block ∉ malloc.place (block ::ₘ rest) ::ₘ rest := by
    intro hmem
    rcases Multiset.mem_cons.1 hmem with heq | hmem
    · exact malloc.fresh (block ::ₘ rest) (heq ▸ Multiset.mem_cons_self block rest)
    · exact (Multiset.nodup_cons.1 distinct).1 hmem
  unfold pollfdArrayAppend
  rw [if_pos hfull, OnHeap.bind_apply_of_ok hmoved]
  exact OnHeap.bind_apply_of_error (if_neg hgone) _

theorem pollfdArrayDelete_runs {block : Addr} (h : live = block ::ₘ rest) (a : PollfdArray) (i : ℕ) (r : Realloc) :
    Runs live (pollfdArrayDelete malloc a block i r)
      (.ok (ChatRooms.pollfdArrayDelete a i r) : Except ε (PollfdArray × ℤ))
      fun a b left => (a.1, a.2.2) = b ∧ left = a.2.1 ::ₘ rest := by
  unfold pollfdArrayDelete
  generalize ChatRooms.pollfdArrayDelete a i r = result
  obtain ⟨b, status⟩ := result
  dsimp only
  by_cases hstatus : status ≠ 0
  · rw [if_pos hstatus]
    exact .pure ⟨rfl, h⟩
  rw [if_neg hstatus]
  have hblock : block ∈ live := h ▸ Multiset.mem_cons_self block rest
  apply Runs.access_bind hblock
  by_cases hshrink : shouldShrink (u32 (a.len + 2 ^ 32 - 1)) a.capacity
  · rw [if_pos hshrink]
    apply (reallocarray_runs malloc h r).bind_left
    rintro new left hleft
    cases new with
    | none => exact .pure ⟨rfl, hleft⟩
    | some new => exact .pure ⟨rfl, hleft⟩
  · rw [if_neg hshrink]
    exact .pure ⟨rfl, h⟩

/-! ## The user table keeps its blocks -/

/-- A search returns a record in use. -/
theorem userTableFind_runs (host : ByteOrder) {t : TableBlocks Addr} {s : UserHash} (intact : s.Intact)
    (h : Accounted rest t s live) (id : Fd) :
    Runs live (userTableFind host t s id) (s.userTableFind host id)
      fun a b left => a = b ∧ left = live ∧ ∀ p ∈ a, p ∈ s.live :=
  hashFind_runs intact.represents (fun _ => mem_records rest) h (intBytes host id)

theorem userTableAdd_runs (host : ByteOrder) (heap : Heap) {t : TableBlocks Addr} {s : UserHash} (intact : s.Intact)
    (h : Accounted rest t s live) (id : Fd) :
    Runs live (userTableAdd malloc host heap t s id) (s.userTableAdd host heap (malloc.place live) id)
      fun a b left => (a.1, a.2.2) = b ∧ Accounted rest a.2.1 a.1 left := by
  have hunused : malloc.place live ∉ s.live := fun hmem => malloc.fresh live (h.mem_record hmem)
  unfold userTableAdd UserHash.userTableAdd
  apply (userTableFind_runs host intact h id).bind
  rintro found _ now - ⟨rfl, rfl, -⟩
  cases found with
  | some p => exact .pure ⟨rfl, h⟩
  | none =>
    dsimp only
    by_cases hserves : heap.serves sizeofUser = true
    · rw [if_pos hserves, if_pos hserves]
      apply Runs.alloc_place_bind malloc
      generalize malloc.place _ = addr at hunused ⊢
      apply Runs.access_bind (Multiset.mem_cons_self addr now)
      cases copyInto (.fill heap.fresh) (anonymous ++ [0]) with
      | error f => exact Runs.error _
      | ok name =>
        have hitems : ∀ a ∈ s.live, a ∈ addr ::ₘ ((s.live : Multiset Addr) + rest) :=
          fun a ha => Multiset.mem_cons_of_mem (mem_records rest ha)
        have hlive : addr ::ₘ now = s.hash.tableBlocks t + (addr ::ₘ ((s.live : Multiset Addr) + rest)) := by
          rw [h, Multiset.add_cons]
        apply (hashAdd_runs malloc heap intact.represents hitems hunused (Multiset.mem_cons_self addr _)
          intact.short hlive (intBytes host id)).bind
        rintro ⟨hash, t⟩ _ left - ⟨rfl, hleft⟩
        refine .pure ⟨rfl, ?_⟩
        have happend : ((s.live ++ [addr] : List Addr) : Multiset Addr) = addr ::ₘ (s.live : Multiset Addr) :=
          Multiset.coe_eq_coe.2 (List.perm_append_singleton addr s.live)
        rw [Accounted, hleft, happend, Multiset.cons_add]
    · rw [if_neg hserves, if_neg hserves]
      exact .pure ⟨rfl, h⟩

theorem userTableDelete_runs (host : ByteOrder) {t : TableBlocks Addr} {s : UserHash} (intact : s.Intact)
    (h : Accounted rest t s live) (id : Fd) :
    Runs live (userTableDelete host t s id) (s.userTableDelete host id)
      fun a b left => a = b ∧ Accounted rest t a.1 left ∧ (a.2 ≠ 0 → a.1 = s) := by
  unfold userTableDelete UserHash.userTableDelete
  apply (userTableFind_runs host intact h id).bind
  rintro found _ _ - ⟨rfl, rfl, hfound⟩
  cases found with
  | none => exact .pure ⟨rfl, h, fun _ => rfl⟩
  | some p =>
    have hp : p ∈ s.live := hfound p rfl
    have hrecords : (s.live : Multiset Addr) = p ::ₘ (s.live.erase p : Multiset Addr) := by
      rw [← Multiset.coe_erase, Multiset.cons_erase (Multiset.mem_coe.2 hp)]
    apply (hashDelete_runs intact.represents (fun _ => mem_records rest) hp h).bind
    rintro hash _ left - ⟨rfl, hleft⟩
    have hlive : left = p ::ₘ (hash.tableBlocks t + ((s.live.erase p : Multiset Addr) + rest)) := by
      rw [hleft, hrecords, Multiset.cons_add, Multiset.add_cons]
    exact .free_bind hlive (.pure ⟨rfl, rfl, by simp⟩)

/-! ## The handlers keep the blocks -/

/-- What a handler returns is what the plain one does, and all blocks in use are those of the server and `base`. -/
def SameBlocks (base : Multiset Addr) (a : HashedServer × ServerBlocks × ℤ) (b : HashedServer × ℤ)
    (left : Multiset Addr) : Prop :=
  (a.1, a.2.2) = b ∧ Accounted (a.2.1.fds ::ₘ base) a.2.1.table a.1.users left

variable {malloc}

theorem SameBlocks.of_accounted {base : Multiset Addr} {s : HashedServer} {b : ServerBlocks} {status : ℤ}
    (h : Accounted (b.fds ::ₘ base) b.table s.users live) : SameBlocks base (s, b, status) (s, status) live :=
  ⟨rfl, h⟩

theorem handleNewClient_runs (malloc : Allocator Addr) {env : Env} {base : Multiset Addr} {s : HashedServer}
    {b : ServerBlocks} (intact : s.users.Intact) (h : Accounted (b.fds ::ₘ base) b.table s.users live)
    (accepted : Option Fd)
    (hstay : accepted ≠ none → ∀ fresh, env.realloc = .moved fresh → u32 (s.pollfds.len + 1) ≤ s.pollfds.capacity) :
    Runs live (handleNewClient malloc env accepted s b)
      (s.handleNewClient ChatRooms.pollfdArrayAppend env (malloc.place live) accepted) (SameBlocks base) := by
  cases accepted with
  | none => exact .pure (.of_accounted h)
  | some sockfd =>
    have hfds : b.fds ∈ live := h.mem_rest (Multiset.mem_cons_self b.fds base)
    have happend := pollfdArrayAppend_runs (ε := HashStop) malloc hfds s.pollfds sockfd pollin
      (hstay (Option.some_ne_none sockfd))
    unfold handleNewClient HashedServer.handleNewClient
    dsimp only
    generalize ChatRooms.pollfdArrayAppend s.pollfds sockfd pollin env.realloc = appended at happend ⊢
    obtain ⟨pollfds, status⟩ := appended
    apply happend.bind_left
    rintro _ left ⟨rfl, rfl⟩
    dsimp only
    by_cases hstatus : status ≠ 0
    · rw [if_pos hstatus, if_pos hstatus]
      exact .pure (.of_accounted h)
    · rw [if_neg hstatus, if_neg hstatus]
      apply (userTableAdd_runs malloc env.host env.heap intact h sockfd).bind
      rintro ⟨users, t, status⟩ _ left - ⟨rfl, hleft⟩
      exact .pure ⟨rfl, hleft⟩

theorem mapStop_runs {α : Type} {c : OnHeap Addr Fault α} {x : Checked α} (h : Runs live c x (Keeps live)) :
    Runs live (c.mapStop .fault) x.hashed (Keeps live) := by
  have hmapped := h.mapStop HashStop.fault
  cases x with
  | ok a => exact hmapped
  | error f => exact hmapped

/-- A message is handled with its block in use, and the block is freed behind it; a failure ends the process. -/
theorem handleClientMessage_runs (malloc : Allocator Addr) {env : Env} {rest left : Multiset Addr} {s : HashedServer}
    {b : ServerBlocks} (intact : s.users.Intact) (h : Accounted rest b.table s.users live) (client : Fd)
    {received : Received} {stream : Stream} {recvBuf : Option Addr}
    (hreceived : Handed live (received, stream, recvBuf) (received, stream) left) :
    Runs left (handleClientMessage malloc env client received recvBuf s b) (s.handleClientMessage env client received)
      fun a b' left => a = b' ∧ ∀ s' outs status, a = some (s', outs, status) →
        (status ≠ -1 → Accounted rest b.table s'.users left) ∧ (status = 0 → s' = s) := by
  obtain ⟨-, -, hreceived⟩ := hreceived
  cases received with
  | waits => exact .pure ⟨rfl, by simp⟩
  | failed => exact .pure ⟨rfl, by simp⟩
  | closed =>
    obtain rfl : left = live := hreceived
    refine .pure ⟨rfl, ?_⟩
    rintro _ _ _ ⟨⟩
    exact ⟨fun _ => h, fun _ => rfl⟩
  | message buf recvd =>
    obtain ⟨q, hbuf, rfl⟩ := hreceived
    dsimp only at hbuf
    subst hbuf
    have hq : q ∈ q ::ₘ live := Multiset.mem_cons_self q live
    have hmore : Accounted (q ::ₘ rest) b.table s.users (q ::ₘ live) := by
      rw [Accounted, h, Multiset.add_cons, Multiset.add_cons]
    unfold handleClientMessage HashedServer.handleClientMessage
    apply (userTableFind_runs env.host intact hmore client).bind
    rintro found _ now - ⟨rfl, rfl, hfound⟩
    cases found with
    | none => exact .pure ⟨rfl, by simp⟩
    | some p =>
      have hp : p ∈ q ::ₘ live := hmore.mem_record (hfound p rfl)
      apply Runs.access_bind hq
      apply Runs.lift_bind
      intro type _
      cases type with
      | chat =>
        apply Runs.access_bind hp
        apply (mapStop_runs (handleChatMessage_runs malloc env hq buf (s.users.user p) s.rooms)).bind
        rintro ⟨outs, status⟩ _ _ - ⟨rfl, rfl⟩
        apply Runs.free_last_bind
        refine .pure ⟨rfl, ?_⟩
        rintro _ _ _ ⟨⟩
        exact ⟨fun _ => h, fun _ => rfl⟩
      | join =>
        apply Runs.access_bind hp
        apply (mapStop_runs (handleJoinMessage_runs malloc env hq buf s.rooms (s.users.user p))).bind
        rintro ⟨rooms, user, outs⟩ _ _ - ⟨rfl, rfl⟩
        apply Runs.free_last_bind
        refine .pure ⟨rfl, ?_⟩
        rintro _ _ _ ⟨⟩
        exact ⟨fun _ => h, by simp⟩
      | name =>
        apply Runs.access_bind hp
        apply (mapStop_runs (handleNameMessage_runs malloc env hq buf (s.users.user p))).bind
        rintro ⟨user, outs⟩ _ _ - ⟨rfl, rfl⟩
        apply Runs.free_last_bind
        refine .pure ⟨rfl, ?_⟩
        rintro _ _ _ ⟨⟩
        exact ⟨fun _ => h, by simp⟩
      | reply => exact .free_last_bind (.pure ⟨rfl, by simp⟩)
      | invalid => exact .free_last_bind (.pure ⟨rfl, by simp⟩)

theorem deleteUser_runs {env : Env} {base : Multiset Addr} {s : HashedServer} {b : ServerBlocks}
    (intact : s.users.Intact) (h : Accounted (b.fds ::ₘ base) b.table s.users live) (client : Fd) :
    Runs live (deleteUser env client s b) (s.deleteUser env client) (SameBlocks base) := by
  apply (userTableDelete_runs env.host intact h client).bind
  rintro ⟨users, status⟩ _ left - ⟨rfl, hleft, hsame⟩
  dsimp only at hleft hsame ⊢
  by_cases hstatus : status ≠ 0
  · rw [if_pos hstatus, if_pos hstatus]
    rw [hsame hstatus] at hleft
    exact .pure (.of_accounted hleft)
  · rw [if_neg hstatus, if_neg hstatus]
    exact .pure ⟨rfl, hleft⟩

theorem handleClientTermination_runs (malloc : Allocator Addr) {env : Env} {base : Multiset Addr} {s : HashedServer}
    {b : ServerBlocks} (intact : s.users.Intact) (h : Accounted (b.fds ::ₘ base) b.table s.users live)
    (client : Fd) (i : ℕ) :
    Runs live (handleClientTermination malloc env client i s b) (s.handleClientTermination env client i)
      (SameBlocks base) := by
  have hfds : live = b.fds ::ₘ (s.users.hash.tableBlocks b.table + ((s.users.live : Multiset Addr) + base)) := by
    rw [h, Multiset.add_cons, Multiset.add_cons]
  have hdelete := pollfdArrayDelete_runs (ε := HashStop) malloc hfds s.pollfds i env.realloc
  unfold handleClientTermination HashedServer.handleClientTermination
  generalize ChatRooms.pollfdArrayDelete s.pollfds i env.realloc = deleted at hdelete ⊢
  apply hdelete.bind_left
  rintro ⟨pollfds, fds, status⟩ left ⟨rfl, hleft⟩
  have h' : Accounted (fds ::ₘ base) b.table s.users left := by
    rw [Accounted, hleft, Multiset.add_cons, Multiset.add_cons]
  dsimp only
  by_cases hstatus : status ≠ 0
  · rw [if_pos hstatus, if_pos hstatus]
    exact .pure (.of_accounted h')
  rw [if_neg hstatus, if_neg hstatus]
  apply (userTableFind_runs env.host intact h' client).bind
  rintro found _ now - ⟨rfl, rfl, hfound⟩
  cases found with
  | none => exact .pure (.of_accounted h')
  | some p =>
    apply Runs.access_bind (h'.mem_record (hfound p rfl))
    dsimp only
    cases roomArrayGetRoom s.rooms (s.users.user p).room.toNat with
    | none =>
      dsimp only
      refine deleteUser_runs ?_ ?_ client
      · exact intact
      · exact h'
    | some r =>
      apply Runs.lift_bind
      intro removed _
      cases removed with
      | none => exact .pure (.of_accounted h')
      | some removed =>
        dsimp only
        refine deleteUser_runs ?_ ?_ client
        · exact ⟨intact.represents, intact.short⟩
        · exact h'

end

end Heaped

end ChatRooms
