import ChatRooms.Server.Blocks

/-!
# The main loop with its heap

`main` of `server.c` once more, with the blocks that its iterations allocate and free.

`server_heap`: between two iterations the heap holds the server's data and nothing else; and the only block that
is ever used after it was freed is that of a poll array which `pollfd_array_append` has just moved.
-/

namespace ChatRooms

/-- How an iteration ends. -/
inductive HeapedIteration where
  | next (s : HashedMain) (b : ServerBlocks) (effect : Effect)
  | exited (outs : List Output)
  | killed (outs : List Output)
  | blocked

/-- Both iterations end in the same way.  When `main` goes on, the blocks in use are those of the server and
`base`. -/
def SameTurn (base : Multiset Addr) : HeapedIteration → HashedIteration → Multiset Addr → Prop
  | .next s b effect, .next s' effect', left =>
    s = s' ∧ effect = effect' ∧ Accounted (b.fds ::ₘ base) b.table s.server.users left
  | .exited outs, .exited outs', _ => outs = outs'
  | .killed outs, .killed outs', _ => outs = outs'
  | .blocked, .blocked, _ => True
  | _, _, _ => False

/-- The iteration accepts a connection when the poll array is full, and `reallocarray` moves the array. -/
def MovesArray (turn : TurnEnv) (i : ℕ) (s : HashedServer) : Prop :=
  turn.accepted ≠ none ∧ (∃ fresh, turn.env.realloc = .moved fresh) ∧ s.pollfds.capacity < u32 (s.pollfds.len + 1) ∧
    ∃ pfd, s.pollfds.read i = .ok pfd ∧ pfd.revents &&& pollhup = 0 ∧ pfd.revents &&& pollin ≠ 0 ∧
      pfd.fd = s.listener

theorem Checked.of_hashed_ok {α : Type} {x : Checked α} {a : α} (h : x.hashed = .ok a) : x = .ok a := by
  cases x with
  | error f => cases h
  | ok b =>
    cases h
    rfl

namespace Heaped

variable (malloc : Allocator Addr)

/-- Terminates the client at index `i` and repeats the index. -/
def terminateAt (turn : TurnEnv) (client : Fd) (i : ℕ) (s : HashedMain) (b : ServerBlocks) :
    OnHeap Addr HashStop HeapedIteration := do
  let (server, b, status) ← handleClientTermination malloc turn.env client i s.server b
  if status ≠ 0 then return .exited []
  else return .next { s with server, pc := .entry (repeatIndex i) } b (.terminated client)

/-- One iteration of the inner loop of `main`. -/
def iterate (turn : TurnEnv) (i : ℕ) (s : HashedMain) (b : ServerBlocks) :
    OnHeap Addr HashStop HeapedIteration := do
  OnHeap.access b.fds
  let pfd ← OnHeap.lift (s.server.pollfds.read i).hashed
  if pfd.revents &&& pollhup ≠ 0 then terminateAt malloc turn pfd.fd i s b
  else if pfd.revents &&& pollin ≠ 0 then
    if pfd.fd = s.server.listener then
      let (server, b, status) ← handleNewClient malloc turn.env turn.accepted s.server b
      if status ≠ 0 then return .exited []
      else
        let streams := s.opened turn.accepted
        return .next { server, pc := .entry (nextIndex i), streams } b (.accepted turn.accepted)
    else
      let (received, stream, recvBuf) ← recvall malloc turn.recv (s.streams pfd.fd)
      let s := { s with streams := Function.update s.streams pfd.fd stream }
      match ← handleClientMessage malloc turn.env pfd.fd received recvBuf s.server b with
      | none => return .blocked
      | some (server, outs, status) =>
        let s := { s with server }
        if Killed turn.env outs then return .killed outs
        else if ¬ Returned turn.env outs then return .blocked
        else if status = 0 then terminateAt malloc turn pfd.fd i s b
        else if status = -1 then return .exited outs
        else return .next { s with pc := .entry (nextIndex i) } b (.handled pfd.fd received outs)
  else return .next { s with pc := .entry (nextIndex i) } b .idle

variable {malloc} {live base : Multiset Addr} {turn : TurnEnv} {i : ℕ} {s : HashedMain} {b : ServerBlocks}

theorem terminateAt_runs (intact : s.server.users.Intact)
    (h : Accounted (b.fds ::ₘ base) b.table s.server.users live) (client : Fd) :
    Runs live (terminateAt malloc turn client i s b) (s.terminateAt turn client i) (SameTurn base) := by
  apply (handleClientTermination_runs malloc intact h client i).bind
  rintro ⟨server, b, status⟩ _ left - ⟨rfl, hleft⟩
  dsimp only at hleft ⊢
  by_cases hstatus : status ≠ 0
  · rw [if_pos hstatus, if_pos hstatus]
    exact .pure rfl
  · rw [if_neg hstatus, if_neg hstatus]
    exact .pure ⟨rfl, rfl, hleft⟩

/-- An iteration that does not move the poll array does what the plain one does. -/
theorem iterate_runs (malloc : Allocator Addr) (intact : s.server.users.Intact)
    (h : Accounted (b.fds ::ₘ base) b.table s.server.users live) (hstay : ¬ MovesArray turn i s.server) :
    Runs live (iterate malloc turn i s b) (s.iterate ChatRooms.pollfdArrayAppend turn (malloc.place live) i)
      (SameTurn base) := by
  have hfds : b.fds ∈ live := h.mem_rest (Multiset.mem_cons_self b.fds base)
  unfold iterate HashedMain.iterate
  apply Runs.access_bind hfds
  apply Runs.lift_bind
  intro pfd hread
  replace hread := Checked.of_hashed_ok hread
  by_cases hup : pfd.revents &&& pollhup ≠ 0
  · rw [if_pos hup, if_pos hup]
    exact terminateAt_runs intact h pfd.fd
  rw [if_neg hup, if_neg hup]
  by_cases input : pfd.revents &&& pollin ≠ 0
  · rw [if_pos input, if_pos input]
    by_cases listener : pfd.fd = s.server.listener
    · rw [if_pos listener, if_pos listener]
      have hroom : turn.accepted ≠ none → ∀ fresh, turn.env.realloc = .moved fresh →
          u32 (s.server.pollfds.len + 1) ≤ s.server.pollfds.capacity := by
        intro haccepted fresh hmoved
        by_contra hfull
        exact hstay ⟨haccepted, ⟨fresh, hmoved⟩, not_le.1 hfull, pfd, hread, not_not.1 hup, input, listener⟩
      apply (handleNewClient_runs malloc intact h turn.accepted hroom).bind
      rintro ⟨server, b, status⟩ _ left - ⟨rfl, hleft⟩
      dsimp only at hleft ⊢
      by_cases hstatus : status ≠ 0
      · rw [if_pos hstatus, if_pos hstatus]
        exact .pure rfl
      · rw [if_neg hstatus, if_neg hstatus]
        exact .pure ⟨rfl, rfl, hleft⟩
    · rw [if_neg listener, if_neg listener]
      have hrecv : Runs live (recvall malloc turn.recv (s.streams pfd.fd))
          (.ok _ : Except HashStop (Received × Stream)) (Handed live) := recvall_runs malloc turn.recv _
      generalize ChatRooms.recvall turn.recv (s.streams pfd.fd) = result at hrecv ⊢
      apply hrecv.bind_left
      rintro ⟨received, stream, recvBuf⟩ left hreceived
      obtain ⟨rfl, rfl⟩ : received = result.1 ∧ stream = result.2 := ⟨hreceived.1, hreceived.2.1⟩
      apply (handleClientMessage_runs malloc intact h pfd.fd hreceived).bind
      rintro handled _ left - ⟨rfl, hleft⟩
      cases handled with
      | none => exact .pure trivial
      | some handled =>
        obtain ⟨server, outs, status⟩ := handled
        obtain ⟨hkept, hclosed⟩ := hleft server outs status rfl
        dsimp only
        by_cases hkilled : Killed turn.env outs
        · rw [if_pos hkilled, if_pos hkilled]
          exact .pure rfl
        rw [if_neg hkilled, if_neg hkilled]
        by_cases hwaits : ¬ Returned turn.env outs
        · rw [if_pos hwaits, if_pos hwaits]
          exact .pure trivial
        rw [if_neg hwaits, if_neg hwaits]
        by_cases hzero : status = 0
        · rw [if_pos hzero, if_pos hzero]
          obtain rfl := hclosed hzero
          refine terminateAt_runs ?_ ?_ pfd.fd
          · exact intact
          · exact hkept (by simp [hzero])
        rw [if_neg hzero, if_neg hzero]
        by_cases hfail : status = -1
        · rw [if_pos hfail, if_pos hfail]
          exact .pure rfl
        · rw [if_neg hfail, if_neg hfail]
          exact .pure ⟨rfl, rfl, hkept hfail⟩
  · rw [if_neg input, if_neg input]
    exact .pure ⟨rfl, rfl, h⟩

/-- An iteration that moves the poll array writes its new entry to the block that is no longer there. -/
theorem iterate_moves (h : Accounted (b.fds ::ₘ base) b.table s.server.users live) (distinct : live.Nodup)
    (hmoves : MovesArray turn i s.server) :
    iterate malloc turn i s b live = .error (.noBlock b.fds) := by
  obtain ⟨haccepted, ⟨fresh, hmoved⟩, hfull, pfd, hread, hup, input, listener⟩ := hmoves
  obtain ⟨sockfd, hsockfd⟩ := Option.ne_none_iff_exists'.1 haccepted
  have hfds : b.fds ∈ live := h.mem_rest (Multiset.mem_cons_self b.fds base)
  have happend := pollfdArrayAppend_moved (ε := HashStop) malloc hfds distinct hfull sockfd pollin fresh
  have hclient : handleNewClient malloc turn.env turn.accepted s.server b live = .error (.noBlock b.fds) := by
    rw [hsockfd, handleNewClient, hmoved]
    exact OnHeap.bind_apply_of_error happend _
  have hlift : (OnHeap.lift (s.server.pollfds.read i).hashed : OnHeap Addr HashStop Pollfd) live = .ok (pfd, live) := by
    rw [hread]
    rfl
  unfold iterate
  rw [OnHeap.bind_apply_of_ok (if_pos hfds), OnHeap.bind_apply_of_ok hlift, if_neg (not_not.2 hup), if_pos input,
    if_pos listener]
  exact OnHeap.bind_apply_of_error hclient _

end Heaped

/-! ## Runs -/

/-- `main`, with the addresses of its blocks, and the blocks of the heap. -/
structure HeapedMain where
  main : HashedMain
  blocks : ServerBlocks
  live : Multiset Addr

/-- The steps of the process: those of `HashedMainStep`, where an iteration gets the addresses of new blocks from
an allocator.  It may be another one in each step. -/
inductive HeapedMainStep (host : ByteOrder) : HeapedMain → MainEvent → Effect → HeapedMain → Prop
  | other {event : MainEvent} {effect : Effect} {s s' : HashedMain} {b : ServerBlocks} {live : Multiset Addr}
      (quiet : ∀ i turn, event ≠ .turn i turn) (step : HashedMainStep pollfdArrayAppend host s event effect s') :
      HeapedMainStep host ⟨s, b, live⟩ event effect ⟨s', b, live⟩
  | turn (malloc : Allocator Addr) (i : ℕ) (env : TurnEnv) {s s' : HashedMain} {b b' : ServerBlocks}
      {live left : Multiset Addr}
      {effect : Effect} (pc : s.pc = .entry i) (inside : i < s.server.pollfds.len)
      (fresh : Fresh s.server.openFds env.accepted) (order : env.env.host = host) (bounded : env.env.heap.Bounded)
      (isFd : ∀ pfd, s.server.pollfds.read i = .ok pfd → pfd.revents ≠ 0 → IsFd pfd.fd)
      (iterated : Heaped.iterate malloc env i s b live = .ok (.next s' b' effect, left)) :
      HeapedMainStep host ⟨s, b, live⟩ (.turn i env) effect ⟨s', b', left⟩

/-- A run on the heap, from the blocks `base` beside those of the server, and the run without one. -/
structure ServerHeap (host : ByteOrder) (base : Multiset Addr)
    (trace : List (Turn HeapedMain MainEvent Effect)) (h : HeapedMain)
    (trace' : List (Turn HashedMain MainEvent Effect)) (s : HashedMain) : Prop where
  labels : labels trace' = labels trace
  main : s = h.main
  refines : ∃ s, h.main.Refines host s
  accounted : Accounted (h.blocks.fds ::ₘ base) h.blocks.table h.main.server.users h.live
  distinct : h.live.Nodup

/-- A step with the heap is a step without it, and keeps the account of the blocks. -/
theorem HeapedMainStep.step {host : ByteOrder} {base : Multiset Addr} {h h' : HeapedMain} {event : MainEvent}
    {effect : Effect} (step : HeapedMainStep host h event effect h')
    (hrefines : ∃ s, h.main.Refines host s)
    (haccounted : Accounted (h.blocks.fds ::ₘ base) h.blocks.table h.main.server.users h.live)
    (distinct : h.live.Nodup) :
    HashedMainStep pollfdArrayAppend host h.main event effect h'.main ∧
      Accounted (h'.blocks.fds ::ₘ base) h'.blocks.table h'.main.server.users h'.live ∧ h'.live.Nodup := by
  cases step with
  | other quiet step =>
    refine ⟨step, ?_, distinct⟩
    cases step with
    | arrive fd bytes unended => exact haccounted
    | finish fd ending unended => exact haccounted
    | poll revents pc => exact haccounted
    | turn i env addr => exact absurd rfl (quiet i env)
    | endPass i pc outside => exact haccounted
  | @turn malloc i env s s' b b' live left effect pc inside fresh order bounded isFd iterated =>
    obtain ⟨t, hrefines⟩ := hrefines
    dsimp only at haccounted distinct hrefines ⊢
    by_cases hmoves : MovesArray env i s.server
    · rw [Heaped.iterate_moves haccounted distinct hmoves] at iterated
      cases iterated
    · have hruns := Heaped.iterate_runs malloc hrefines.server.users.intact haccounted hmoves
      obtain ⟨result, hplain, hsame, hdistinct⟩ := hruns.of_ok distinct iterated
      cases result with
      | next s'' effect' =>
        obtain ⟨rfl, rfl, hleft⟩ := hsame
        have unused : malloc.place live ∉ s.server.users.live :=
          fun hmem => malloc.fresh live (haccounted.mem_record hmem)
        exact ⟨.turn i env _ pc inside fresh order bounded unused isFd hplain, hleft, hdistinct⟩
      | exited outs => exact hsame.elim
      | killed outs => exact hsame.elim
      | blocked => exact hsame.elim

/-- The heap when `main` enters its loop: there are no users, and `base` is what it allocated besides the array. -/
theorem HashedInitial.heap {s₀ : HashedMain} (h₀ : HashedInitial s₀) (host : ByteOrder) {blocks : ServerBlocks}
    {base : Multiset Addr} (distinct : (blocks.fds ::ₘ base).Nodup) :
    ServerHeap host base [] ⟨s₀, blocks, blocks.fds ::ₘ base⟩ [] s₀ := by
  obtain ⟨t, ht⟩ : ∃ t : MainState, s₀.Refines host t := (h₀.refines host).imp fun _ => And.right
  obtain ⟨s, garbage, -, rfl⟩ := h₀
  refine ⟨rfl, rfl, ⟨t, ht⟩, ?_, distinct⟩
  simp [Accounted, UtHash.tableBlocks, MainState.onHash, Server.onHash, UserHash.empty]

theorem Run.heapedMain {host : ByteOrder} {base : Multiset Addr} {h₀ h : HeapedMain}
    {trace : List (Turn HeapedMain MainEvent Effect)} (hstart : ServerHeap host base [] h₀ [] h₀.main)
    (run : Run (HeapedMainStep host) h₀ trace h) :
    ∃ trace' s, Run (HashedMainStep pollfdArrayAppend host) h₀.main trace' s ∧
      ServerHeap host base trace h trace' s := by
  apply run.simulated (R := ServerHeap host base) hstart
  rintro trace trace' _ t ⟨hlabels, rfl, hrefines, haccounted, hdistinct⟩ step
  obtain ⟨hstep, haccounted', hdistinct'⟩ := step.step hrefines haccounted hdistinct
  obtain ⟨s, hrefines⟩ := hrefines
  obtain ⟨s', -, hrefines'⟩ := hstep.step hrefines
  refine ⟨_, _, Run.start.turn hstep, ?_, rfl, ⟨s', hrefines'⟩, haccounted', hdistinct'⟩
  rw [labels_append, labels_append trace, hlabels]
  rfl

/-- The server leaks no block, frees none twice and uses none behind its `free`, with one exception.  Its runs on
the heap are its runs without one.  In every run, whatever the clients, the sockets and the allocators do, the
blocks in use between two iterations are the poll array, one record for each user, and the hash table with its
buckets as long as there is a user, besides those from before the loop.  An iteration comes to an address without
a block exactly when it moves the poll array to accept a connection; otherwise it does what the plain one does. -/
theorem server_heap {host : ByteOrder} {s₀ : HashedMain} (h₀ : HashedInitial s₀) {blocks : ServerBlocks}
    {base : Multiset Addr} (distinct : (blocks.fds ::ₘ base).Nodup)
    {trace : List (Turn HeapedMain MainEvent Effect)} {h : HeapedMain}
    (run : Run (HeapedMainStep host) ⟨s₀, blocks, blocks.fds ::ₘ base⟩ trace h) :
    (∃ trace', Run (HashedMainStep pollfdArrayAppend host) s₀ trace' h.main ∧ labels trace' = labels trace) ∧
      (h.live = h.main.server.users.hash.tableBlocks h.blocks.table +
        ((h.main.server.users.live : Multiset Addr) + h.blocks.fds ::ₘ base) ∧ h.live.Nodup) ∧
      (h.main.server.users.hash.head = none ↔ h.main.server.users.live = []) ∧
      ∀ malloc turn i,
        ((∃ p, Heaped.iterate malloc turn i h.main h.blocks h.live = .error (.noBlock p)) ↔
          MovesArray turn i h.main.server) ∧
        (¬ MovesArray turn i h.main.server → Runs h.live (Heaped.iterate malloc turn i h.main h.blocks)
          (h.main.iterate pollfdArrayAppend turn (malloc.place h.live) i) (SameTurn base)) := by
  obtain ⟨trace', _, run', hlabels, rfl, ⟨s, hrefines⟩, haccounted, hdistinct⟩ :=
    run.heapedMain (h₀.heap host distinct)
  refine ⟨⟨trace', run', hlabels⟩, ⟨haccounted, hdistinct⟩, ?_, fun malloc turn i => ?_⟩
  · rcases hrefines.server.users.represents.empty_or_holds with ⟨hhead, hnil⟩ | ⟨first, tbl, hhead, hholds⟩
    · simp [hhead, hnil]
    · have hne : h.main.server.users.live ≠ [] := by
        intro hnil
        have hfirst := hholds.head
        simp [hnil] at hfirst
      simp [hhead, hne]
  · have hruns : ¬ MovesArray turn i h.main.server → Runs h.live _ _ (SameTurn base) :=
      Heaped.iterate_runs malloc hrefines.server.users.intact haccounted
    refine ⟨⟨?_, fun hmoves => ⟨_, Heaped.iterate_moves haccounted hdistinct hmoves⟩⟩, hruns⟩
    rintro ⟨p, hstop⟩
    by_contra hstay
    exact (hruns hstay).noBlock hdistinct p hstop

/-- An iteration in which the calls succeed, and every new block comes behind the others. -/
theorem HeapedMainStep.above (i : ℕ) (accepted : Option Fd) {s s' : HashedMain} {b b' : ServerBlocks}
    {live left : Multiset Addr} {effect : Effect} (pc : s.pc = .entry i) (inside : i < s.server.pollfds.len)
    (fresh : Fresh s.server.openFds accepted) (isFd : ∀ pfd, s.server.pollfds.read i = .ok pfd → IsFd pfd.fd)
    (iterated : Heaped.iterate .above (.mebibyte accepted) i s b live = .ok (.next s' b' effect, left)) :
    HeapedMainStep .little ⟨s, b, live⟩ (.turn i (.mebibyte accepted)) effect ⟨s', b', left⟩ :=
  .turn .above i (.mebibyte accepted) pc inside fresh rfl Heap.mebibyte_bounded (fun pfd hread _ => isFd pfd hread)
    iterated

set_option maxRecDepth 30000 in
/-- The array is at 10.  Two clients are accepted: the record of the first comes to 11, the table with its buckets
behind it, and the record of the second to 14.  Both join room 2, and what the first one says is received into a block
that `realloc` moves, and sent to both; all blocks but these are gone then. -/
theorem server_heap_said : ∃ trace h received outs,
    Run (HeapedMainStep .little)
      ⟨(MainState.start 3).onHash (.empty fun _ => ⟨0, 0, .fill fun _ => 0⟩), ⟨10, ⟨0, 0⟩⟩, 10 ::ₘ {1, 2}⟩ trace h ∧
    (trace.map Turn.output).getLast? = some (.handled 4 received outs) ∧ outs.length = 2 ∧
    h.main.server.users.live = [11, 14] ∧ h.live.Nodup ∧ h.live = {1, 2, 10, 11, 12, 13, 14} := by
  have h₀ : HashedInitial ((MainState.start 3).onHash (.empty fun _ => ⟨0, 0, .fill fun _ => 0⟩)) :=
    ⟨_, _, MainState.start_initial (by decide), rfl⟩
  have run : Run (HeapedMainStep .little)
      ⟨(MainState.start 3).onHash (.empty fun _ => ⟨0, 0, .fill fun _ => 0⟩), ⟨10, ⟨0, 0⟩⟩, 10 ::ₘ {1, 2}⟩ [] _ :=
    .start
  have run := run.turn (.other (by simp) (.poll (fun _ => pollin) rfl))
  have run := run.turn (.above 0 (some 4) rfl (by decide) (.of_notMem (by decide))
    (fun _ hread => by cases hread; exact ⟨by decide, by decide⟩) rfl)
  have run := run.turn (.above 1 none rfl (by decide) .none
    (fun _ hread => by cases hread; exact ⟨by decide, by decide⟩) rfl)
  have run := run.turn (.other (by simp) (.endPass 2 rfl (by decide)))
  have run := run.turn (.other (by simp) (.poll (fun i => if i = 0 then pollin else 0) rfl))
  have run := run.turn (.above 0 (some 5) rfl (by decide) (.of_notMem (by decide))
    (fun _ hread => by cases hread; exact ⟨by decide, by decide⟩) rfl)
  have run := run.turn (.other (by simp) (.arrive 4 [0, 0, 0, 6, 3, 2] rfl))
  have run := run.turn (.other (by simp) (.arrive 5 [0, 0, 0, 6, 3, 2] rfl))
  have run := run.turn (.above 1 none rfl (by decide) .none
    (fun _ hread => by cases hread; exact ⟨by decide, by decide⟩) rfl)
  have run := run.turn (.above 2 none rfl (by decide) .none
    (fun _ hread => by cases hread; exact ⟨by decide, by decide⟩) rfl)
  have run := run.turn (.other (by simp) (.endPass 3 rfl (by decide)))
  have run := run.turn (.other (by simp) (.poll (fun i => if i = 0 then 0 else pollin) rfl))
  have run := run.turn (.above 0 none rfl (by decide) .none
    (fun _ hread => by cases hread; exact ⟨by decide, by decide⟩) rfl)
  have run := run.turn (.above 1 none rfl (by decide) .none
    (fun _ hread => by cases hread; exact ⟨by decide, by decide⟩) rfl)
  have run := run.turn (.other (by simp) (.arrive 4 ((Content.chat 0 [] (ascii "hi")).frame .little) rfl))
  have run := run.turn (.above 2 none rfl (by decide) .none
    (fun _ hread => by cases hread; exact ⟨by decide, by decide⟩) rfl)
  have run := run.turn (.other (by simp) (.endPass 3 rfl (by decide)))
  have run := run.turn (.other (by simp) (.poll (fun i => if i = 1 then pollin else 0) rfl))
  have run := run.turn (.above 0 none rfl (by decide) .none
    (fun _ hread => by cases hread; exact ⟨by decide, by decide⟩) rfl)
  have run := run.turn (.above 1 none rfl (by decide) .none
    (fun _ hread => by cases hread; exact ⟨by decide, by decide⟩) rfl)
  have hheap := server_heap h₀ (by decide) run
  refine ⟨_, _, _, _, run, rfl, rfl, rfl, hheap.2.1.2, ?_⟩
  rw [hheap.2.1.1]
  decide

end ChatRooms
