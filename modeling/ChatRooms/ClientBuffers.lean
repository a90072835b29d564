import ChatRooms.Buffers
import ChatRooms.ClientLoop
import ChatRooms.Lib.Simulation

/-!
# The buffers of the client

The client once more, with the blocks that its functions allocate and free: a `send_buf` for every message that
it sends, and the `recv_buf` that `recvall` hands over for every message from the server.

`client_heap`: in every run the client frees what it allocates, once and after its last use, as long as it does
not exit.
-/

namespace ChatRooms

namespace Heaped

variable {A : Type} [DecidableEq A] (malloc : Allocator A)

/-! ## Sending -/

/-- `send_buf` is freed behind `sendall`, on both paths. -/
def sendMessage (env : ClientEnv) (msg : Message) : OnHeap A Fault (List Sent × ℤ) := do
  match ← serialized malloc (msg.serialize env.host env.heap) with
  | none => return ([], -1)
  | some (p, sendBuf, len) => do
    OnHeap.access p
    let (sent, result) := sendall env.send sendBuf len
    OnHeap.free p
    return ([⟨msg, sendBuf, sent⟩], if result = none then -1 else 0)

def sendNameMessage (env : ClientEnv) (name : CArray UInt8 nameSizeLimit) : OnHeap A Fault (List Sent × ℤ) := do
  let msg : NameMessage := { name := ← OnHeap.lift (strcpy env.locals.name.name name) }
  sendMessage malloc env (.name msg)

def sendJoinMessage (env : ClientEnv) (roomId : UInt8) : OnHeap A Fault (List Sent × ℤ) :=
  sendMessage malloc env (.join { roomId })

def sendChatMessage (env : ClientEnv) (text : CArray UInt8 textSizeLimit) : OnHeap A Fault (List Sent × ℤ) := do
  let zero : ChatMessage := { timestamp := 0, name := .fill fun _ => 0, text := .fill fun _ => 0 }
  let msg := { zero with text := ← OnHeap.lift (strcpy zero.text text) }
  sendMessage malloc env (.chat msg)

/-! ## Input -/

def executeCommand (env : ClientEnv) (str : Bytes) : OnHeap A Fault Executed := do
  match sscanf str [.char 47, .str 5] with
  | [.word word] =>
    let command ← OnHeap.lift (copyInto env.command (word ++ [0]))
    if cstr command.toList = ascii "name" then
      match sscanf str [.char 47, .str 5, .space, .str 100] with
      | [.word word, .word name] =>
        let _ ← OnHeap.lift (copyInto command (word ++ [0]))
        let newName ← OnHeap.lift (copyInto env.newName (name ++ [0]))
        return { sent := (← sendNameMessage malloc env newName).1, exited := false }
      | _ => return { sent := [], exited := false }
    else if cstr command.toList = ascii "join" then
      match sscanf str [.char 47, .str 5, .space, .hhd] with
      | [.word word, .byte roomId] =>
        let _ ← OnHeap.lift (copyInto command (word ++ [0]))
        return { sent := (← sendJoinMessage malloc env roomId).1, exited := false }
      | _ => return { sent := [], exited := false }
    else if cstr command.toList = ascii "exit" then return { sent := [], exited := true }
    else return { sent := [], exited := false }
  | _ => return { sent := [], exited := false }

def handleInput (env : ClientEnv) (input : Option Bytes) : OnHeap A Fault (Executed × ℤ) :=
  match input with
  | none => return ({ sent := [], exited := false }, -1)
  | some line => do
    let buf ← OnHeap.lift (copyInto env.buf (line ++ [0]))
    if buf.toList.head? = some 47 then return (← executeCommand malloc env (cstr buf.toList), 0)
    else
      let (sent, status) ← sendChatMessage malloc env buf
      return ({ sent, exited := false }, if status ≠ 0 then -1 else 0)

/-! ## Messages from the server -/

/-- Handles what `recvall` returned, with the block of a message. -/
def handleServerMessage (host : ByteOrder) (locals : Locals) (received : Received)
    (recvBuf : Option A) : OnHeap A Fault (Option (Option Printed × ℤ)) :=
  match received, recvBuf with
  | .waits, _ => return none
  | .failed, _ | .closed, _ => return some (none, -1)
  | .message _ _, none => OnHeap.lift (.error .null)
  | .message buf _, some p => do
    OnHeap.access p
    match ← OnHeap.lift (getMessageType buf) with
    | .chat => do
      let printed ← OnHeap.lift (printChatMessage host locals buf)
      OnHeap.free p
      return some (some printed, 0)
    | .reply => do
      let printed ← OnHeap.lift (handleReplyMessage locals buf)
      OnHeap.free p
      return some (some printed, 0)
    | .name | .join | .invalid => do
      OnHeap.free p
      return some (none, -1)

/-! ## The main loop -/

def clientIterate (turn : ClientTurnEnv) (i : ℕ) (s : ClientMain) :
    OnHeap A Fault (Option (ClientMain × ClientEffect)) := do
  let pfd ← OnHeap.lift (s.pollfds.read i)
  if pfd.revents &&& pollhup ≠ 0 then return some ({ s with pc := .exited }, .idle)
  else if pfd.revents &&& pollin ≠ 0 then
    if pfd.fd = stdinFileno then
      match fgets turn.read (textSizeLimit - 1) s.stdin with
      | (.waits, _) => return none
      | (.null, stdin) =>
        let (executed, _) ← handleInput malloc turn.env none
        return some ({ s with stdin, pc := .exited }, .input none executed)
      | (.line line, stdin) =>
        let (executed, status) ← handleInput malloc turn.env (some line)
        if executed.Waits turn.env then return none
        else
          let pc := if executed.Ends turn.env status then .exited else .entry (nextIndex i)
          return some ({ s with stdin, pc }, .input (some line) executed)
    else
      let (received, connection, recvBuf) ← recvall malloc turn.recv s.connection
      match ← handleServerMessage turn.env.host turn.env.locals received recvBuf with
      | none => return none
      | some (printed, status) =>
        let pc := if status ≠ 0 then .exited else .entry (nextIndex i)
        return some ({ s with connection, pc }, .message received printed)
  else return some ({ s with pc := .entry (nextIndex i) }, .idle)

variable {live : Multiset A} (env : ClientEnv)

theorem sendMessage_runs (msg : Message) :
    Runs live (sendMessage malloc env msg) (ChatRooms.sendMessage env msg) (Keeps live) := by
  apply serialized_bind malloc
  · exact .pure ⟨rfl, rfl⟩
  · intro p sendBuf len
    apply Runs.access_bind (Multiset.mem_cons_self p live)
    exact .free_last_bind (.pure ⟨rfl, rfl⟩)

theorem sendNameMessage_runs (name : CArray UInt8 nameSizeLimit) :
    Runs live (sendNameMessage malloc env name) (ChatRooms.sendNameMessage env name) (Keeps live) :=
  .lift_bind fun _ _ => sendMessage_runs malloc env _

theorem sendChatMessage_runs (text : CArray UInt8 textSizeLimit) :
    Runs live (sendChatMessage malloc env text) (ChatRooms.sendChatMessage env text) (Keeps live) :=
  .lift_bind fun _ _ => sendMessage_runs malloc env _

theorem executeCommand_runs (str : Bytes) :
    Runs live (executeCommand malloc env str) (ChatRooms.executeCommand env str) (Keeps live) := by
  have hrejected : Runs live (pure { sent := [], exited := false } : OnHeap A Fault Executed)
      (pure { sent := [], exited := false }) (Keeps live) := .pure ⟨rfl, rfl⟩
  unfold executeCommand ChatRooms.executeCommand
  generalize sscanf str [.char 47, .str 5] = items
  match items with
  | [] | .byte _ :: _ | .word _ :: _ :: _ => exact hrejected
  | [.word word] =>
    apply Runs.lift_bind
    intro command _
    by_cases hname : cstr command.toList = ascii "name"
    · rw [if_pos hname, if_pos hname]
      generalize sscanf str [.char 47, .str 5, .space, .str 100] = items
      match items with
      | [] | .byte _ :: _ | [.word _] | .word _ :: .byte _ :: _ | .word _ :: .word _ :: _ :: _ => exact hrejected
      | [.word word, .word name] =>
        apply Runs.lift_bind
        intro _ _
        apply Runs.lift_bind
        intro newName _
        apply (sendNameMessage_runs malloc env newName).bind
        rintro sent _ _ - ⟨rfl, rfl⟩
        exact .pure ⟨rfl, rfl⟩
    rw [if_neg hname, if_neg hname]
    by_cases hjoin : cstr command.toList = ascii "join"
    · rw [if_pos hjoin, if_pos hjoin]
      generalize sscanf str [.char 47, .str 5, .space, .hhd] = items
      match items with
      | [] | .byte _ :: _ | [.word _] | .word _ :: .word _ :: _ | .word _ :: .byte _ :: _ :: _ => exact hrejected
      | [.word word, .byte roomId] =>
        apply Runs.lift_bind
        intro _ _
        apply (sendMessage_runs malloc env _).bind
        rintro sent _ _ - ⟨rfl, rfl⟩
        exact .pure ⟨rfl, rfl⟩
    rw [if_neg hjoin, if_neg hjoin]
    by_cases hexit : cstr command.toList = ascii "exit"
    · rw [if_pos hexit, if_pos hexit]
      exact .pure ⟨rfl, rfl⟩
    · rw [if_neg hexit, if_neg hexit]
      exact hrejected

theorem handleInput_runs (input : Option Bytes) :
    Runs live (handleInput malloc env input) (ChatRooms.handleInput env input) (Keeps live) := by
  cases input with
  | none => exact .pure ⟨rfl, rfl⟩
  | some line =>
    apply Runs.lift_bind
    intro buf _
    by_cases hcommand : buf.toList.head? = some 47
    · rw [if_pos hcommand, if_pos hcommand]
      apply (executeCommand_runs malloc env (cstr buf.toList)).bind
      rintro executed _ _ - ⟨rfl, rfl⟩
      exact .pure ⟨rfl, rfl⟩
    · rw [if_neg hcommand, if_neg hcommand]
      apply (sendChatMessage_runs malloc env buf).bind
      rintro sent _ _ - ⟨rfl, rfl⟩
      exact .pure ⟨rfl, rfl⟩

omit env in
/-- The message is handled with its block in use, and the block is freed behind it; a failure ends the process. -/
theorem handleServerMessage_runs (host : ByteOrder) (locals : Locals) {left : Multiset A} {received : Received}
    {connection : Stream} {recvBuf : Option A}
    (h : Handed live (received, connection, recvBuf) (received, connection) left) :
    Runs left (handleServerMessage host locals received recvBuf)
      (ChatRooms.handleServerMessage host locals received)
      fun a b left => a = b ∧ ∀ printed, a = some (printed, 0) → left = live := by
  obtain ⟨-, -, h⟩ := h
  cases received with
  | waits => exact .pure ⟨rfl, by simp⟩
  | failed => exact .pure ⟨rfl, by simp⟩
  | closed => exact .pure ⟨rfl, by simp⟩
  | message buf recvd =>
    obtain ⟨p, hbuf, rfl⟩ := h
    dsimp only at hbuf
    subst hbuf
    apply Runs.access_bind (Multiset.mem_cons_self p live)
    apply Runs.lift_bind
    intro type _
    cases type with
    | chat => exact .lift_bind fun _ _ => .free_last_bind (.pure ⟨rfl, fun _ _ => rfl⟩)
    | reply => exact .lift_bind fun _ _ => .free_last_bind (.pure ⟨rfl, fun _ _ => rfl⟩)
    | name => exact .free_last_bind (.pure ⟨rfl, by simp⟩)
    | join => exact .free_last_bind (.pure ⟨rfl, by simp⟩)
    | invalid => exact .free_last_bind (.pure ⟨rfl, by simp⟩)

/-- The iterations are the same, and unless the process exits or waits all blocks are left. -/
def KeepsRunning (live : Multiset A) (a b : Option (ClientMain × ClientEffect)) (left : Multiset A) : Prop :=
  a = b ∧ ∀ s effect, a = some (s, effect) → s.pc = .exited ∨ left = live

omit env in
theorem clientIterate_runs (turn : ClientTurnEnv) (i : ℕ) (s : ClientMain) :
    Runs live (clientIterate malloc turn i s) (ChatRooms.clientIterate turn i s) (KeepsRunning live) := by
  apply Runs.lift_bind
  intro pfd _
  by_cases hup : pfd.revents &&& pollhup ≠ 0
  · rw [if_pos hup, if_pos hup]
    exact .pure ⟨rfl, fun _ _ _ => .inr rfl⟩
  rw [if_neg hup, if_neg hup]
  by_cases input : pfd.revents &&& pollin ≠ 0
  · rw [if_pos input, if_pos input]
    by_cases typed : pfd.fd = stdinFileno
    · rw [if_pos typed, if_pos typed]
      obtain ⟨answer, stdin⟩ := fgets turn.read (textSizeLimit - 1) s.stdin
      cases answer with
      | waits => exact .pure ⟨rfl, by simp⟩
      | null =>
        apply (handleInput_runs malloc turn.env none).bind
        rintro executed _ _ - ⟨rfl, rfl⟩
        exact .pure ⟨rfl, fun _ _ _ => .inr rfl⟩
      | line line =>
        apply (handleInput_runs malloc turn.env (some line)).bind
        rintro ⟨executed, status⟩ _ _ - ⟨rfl, rfl⟩
        dsimp only
        by_cases hwaits : executed.Waits turn.env
        · rw [if_pos hwaits, if_pos hwaits]
          exact .pure ⟨rfl, by simp⟩
        · rw [if_neg hwaits, if_neg hwaits]
          exact .pure ⟨rfl, fun _ _ _ => .inr rfl⟩
    · rw [if_neg typed, if_neg typed]
      have hrecv : Runs live (recvall malloc turn.recv s.connection)
          (.ok _ : Checked (Received × Stream)) (Handed live) := recvall_runs malloc turn.recv s.connection
      generalize ChatRooms.recvall turn.recv s.connection = result at hrecv ⊢
      apply hrecv.bind_left
      rintro ⟨received, connection, recvBuf⟩ left h
      obtain ⟨rfl, rfl⟩ : received = result.1 ∧ connection = result.2 := ⟨h.1, h.2.1⟩
      apply (handleServerMessage_runs turn.env.host turn.env.locals h).bind
      rintro handled _ left - ⟨rfl, hleft⟩
      cases handled with
      | none => exact .pure ⟨rfl, by simp⟩
      | some handled =>
        obtain ⟨printed, status⟩ := handled
        refine .pure ⟨rfl, ?_⟩
        rintro _ _ ⟨⟩
        by_cases hstatus : status = 0
        · subst hstatus
          exact .inr (hleft printed rfl)
        · exact .inl (if_pos hstatus)
  · rw [if_neg input, if_neg input]
    exact .pure ⟨rfl, fun _ _ _ => .inr rfl⟩

end Heaped

/-! ## Runs -/

/-- The client, with the blocks of its heap. -/
structure HeapedClient (A : Type) where
  main : ClientMain
  live : Multiset A

/-- The steps of the client: only an iteration can touch the heap.  The allocator may be another one in each. -/
inductive HeapedClientStep {A : Type} [DecidableEq A] :
    HeapedClient A → ClientMainEvent → ClientEffect → HeapedClient A → Prop
  | other {event : ClientMainEvent} {effect : ClientEffect} {s s' : ClientMain} {live : Multiset A}
      (quiet : ∀ i turn, event ≠ .turn i turn) (step : ClientMainStep s event effect s') :
      HeapedClientStep ⟨s, live⟩ event effect ⟨s', live⟩
  | turn (malloc : Allocator A) (i : ℕ) (env : ClientTurnEnv) {s s' : ClientMain} {effect : ClientEffect}
      {live left : Multiset A} (pc : s.pc = .entry i) (inside : i < s.pollfds.len)
      (iterated : Heaped.clientIterate malloc env i s live = .ok (some (s', effect), left)) :
      HeapedClientStep ⟨s, live⟩ (.turn i env) effect ⟨s', left⟩

section

variable {A : Type} [DecidableEq A]

/-- A step with the heap is a step without it, and leaves the blocks that it found unless the process exits. -/
theorem HeapedClientStep.step {h h' : HeapedClient A} {event : ClientMainEvent} {effect : ClientEffect}
    (step : HeapedClientStep h event effect h') (distinct : h.live.Nodup) :
    ClientMainStep h.main event effect h'.main ∧ h'.live.Nodup ∧ (h'.main.pc = .exited ∨ h'.live = h.live) := by
  cases step with
  | other quiet step => exact ⟨step, distinct, .inr rfl⟩
  | turn malloc i env pc inside iterated =>
    obtain ⟨_, hplain, ⟨rfl, hleft⟩, hdistinct⟩ := (Heaped.clientIterate_runs malloc env i _).of_ok distinct iterated
    exact ⟨.turn i env pc inside hplain, hdistinct, hleft _ _ rfl⟩

/-- A process that has exited stays so. -/
theorem ClientMainStep.exited {s s' : ClientMain} {event : ClientMainEvent} {effect : ClientEffect}
    (step : ClientMainStep s event effect s') (h : s.pc = .exited) : s'.pc = .exited := by
  cases step with
  | arrive source bytes unended => cases source <;> exact h
  | finish source ending unended => cases source <;> exact h
  | poll revents pc => simp [h] at pc
  | turn i env pc inside iterated => simp [h] at pc
  | endPass i pc outside => simp [h] at pc

/-- A run on the heap from the blocks `live₀`, and the run without one. -/
structure ClientHeap (live₀ : Multiset A) (trace : List (Turn (HeapedClient A) ClientMainEvent ClientEffect))
    (h : HeapedClient A) (trace' : List ClientTurn) (s : ClientMain) : Prop where
  labels : labels trace' = labels trace
  main : s = h.main
  distinct : h.live.Nodup
  left : h.main.pc = .exited ∨ h.live = live₀

theorem Run.heaped {h₀ h : HeapedClient A} {trace : List (Turn (HeapedClient A) ClientMainEvent ClientEffect)}
    (distinct : h₀.live.Nodup) (run : Run HeapedClientStep h₀ trace h) :
    ∃ trace' s, Run ClientMainStep h₀.main trace' s ∧ ClientHeap h₀.live trace h trace' s := by
  apply run.simulated (R := ClientHeap h₀.live) ⟨rfl, rfl, distinct, .inr rfl⟩
  rintro trace trace' _ t ⟨hlabels, rfl, hdistinct, hleft⟩ step
  obtain ⟨hstep, hdistinct', hleft'⟩ := step.step hdistinct
  refine ⟨_, _, Run.start.turn hstep, ?_, rfl, hdistinct', ?_⟩
  · rw [labels_append, labels_append trace, hlabels]
    rfl
  · rcases hleft with hexited | hleft
    · exact .inl (hstep.exited hexited)
    · exact hleft'.imp_right (·.trans hleft)

/-- The client uses and frees only blocks that it has, and loses none.  Its runs on the heap are its runs without
one.  In every run, whatever the allocators do, the blocks in use between two iterations are those from before the
run, until the process exits.  No iteration comes to an address without a block: each does what the plain one
does. -/
theorem client_heap {h₀ h : HeapedClient A} {trace : List (Turn (HeapedClient A) ClientMainEvent ClientEffect)}
    (distinct : h₀.live.Nodup) (run : Run HeapedClientStep h₀ trace h) :
    (∃ trace', Run ClientMainStep h₀.main trace' h.main ∧ labels trace' = labels trace) ∧
      (h.main.pc = .exited ∨ h.live = h₀.live) ∧
      ∀ malloc turn i, (∀ p, Heaped.clientIterate malloc turn i h.main h.live ≠ .error (.noBlock p)) ∧
        Runs h.live (Heaped.clientIterate malloc turn i h.main) (clientIterate turn i h.main)
          (Heaped.KeepsRunning h.live) := by
  obtain ⟨trace', _, run', hlabels, rfl, hdistinct, hleft⟩ := run.heaped distinct
  refine ⟨⟨trace', run', hlabels⟩, hleft, fun malloc turn i => ?_⟩
  have hruns : Runs h.live _ _ (Heaped.KeepsRunning h.live) := Heaped.clientIterate_runs malloc turn i h.main
  exact ⟨hruns.noBlock hdistinct, hruns⟩

end

/-- With two blocks in use the user types `/join 2` and the frame is sent; then the reply is received into a block that
`realloc` moves, and printed. -/
theorem client_heap_replied : ∃ h trace received, Run HeapedClientStep ⟨.start 3, {1, 2}⟩ trace h ∧
    h.main.pc = .entry 1 ∧ (trace.map Turn.output).getLast? =
      some (.message received (some (.reply (ascii "you have joined room 2")))) ∧ h.live = {1, 2} := by
  have run : Run HeapedClientStep ⟨.start 3, {1, 2}⟩ [] _ := .start
  have run := run.turn (.other (by simp) (.arrive .stdin (ascii "/join 2\n") rfl))
  have run := run.turn (.other (by simp) (.poll (fun i => if i = 1 then pollin else 0) rfl))
  have run := run.turn (.turn .above 0 ⟨.steady, .steady 4, fun _ => stdioBlock⟩ rfl (by decide) rfl)
  have run := run.turn (.turn .above 1 ⟨.steady, .steady 4, fun _ => stdioBlock⟩ rfl (by decide) rfl)
  have run := run.turn (.other (by simp) (.endPass 2 rfl (by decide)))
  have run := run.turn (.other (by simp)
    (.arrive .connection ((Content.reply (ascii "you have joined room 2")).frame .little) rfl))
  have run := run.turn (.other (by simp) (.poll (fun i => if i = 0 then pollin else 0) rfl))
  have run := run.turn (.turn .above 0 ⟨.steady, .steady 4, fun _ => stdioBlock⟩ rfl (by decide) rfl)
  have hheap := client_heap (by decide) run
  have hrunning : (ClientPc.entry 1) ≠ .exited := by decide
  exact ⟨_, _, _, run, rfl, rfl, hheap.2.1.resolve_left hrunning⟩

end ChatRooms
