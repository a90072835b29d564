import ChatRooms.Lib.Scan
import ChatRooms.Framing

/-!
# The client

The functions of `client.c` below its main loop: sending the three kinds of messages, executing a
command, handling a line of input and handling a message from the server.

`executeCommand_join` follows a typed `/join` from its line to the frame that is sent: the room id in
the frame is the byte that `%hhd` stores for the number.
-/

namespace ChatRooms

/-- `COMMAND_SIZE_LIMIT` -/
abbrev commandSizeLimit : ℕ := 5

/-- What the world outside contributes to one call of a client function; `locals`, `command`,
`newName` and `buf` are the previous contents of uninitialised local variables. -/
structure ClientEnv where
  host : ByteOrder
  heap : Heap
  send : ℕ → SendAnswer
  locals : Locals
  command : CArray UInt8 commandSizeLimit
  newName : CArray UInt8 nameSizeLimit
  buf : CArray UInt8 textSizeLimit

/-- A little-endian client whose calls succeed. -/
def ClientEnv.steady : ClientEnv where
  host := .little
  heap := .steady
  send _ := .accepted 1
  locals := .filled 0
  command := .fill fun _ => 0
  newName := .fill fun _ => 0
  buf := .fill fun _ => 0

theorem ClientEnv.steady_accepts (call : ℕ) : (steady.send call).Accepted := trivial

/-- One `sendall` to the server: the message that was serialized, its buffer, and what the kernel
took of it. -/
structure Sent where
  msg : Message
  sendBuf : Bytes
  sent : Bytes

/-! ## Sending -/

/-- `send_name_message`, `send_join_message` and `send_chat_message` differ in the message; a status
of -1 is an error. -/
def sendMessage (env : ClientEnv) (msg : Message) : Checked (List Sent × ℤ) := do
  match ← msg.serialize env.host env.heap with
  | none => return ([], -1)
  | some (sendBuf, len) =>
    let (sent, result) := sendall env.send sendBuf len
    return ([⟨msg, sendBuf, sent⟩], if result = none then -1 else 0)

def sendNameMessage (env : ClientEnv) (name : CArray UInt8 nameSizeLimit) : Checked (List Sent × ℤ) := do
  let msg : NameMessage := { name := ← strcpy env.locals.name.name name }
  sendMessage env (.name msg)

def sendJoinMessage (env : ClientEnv) (roomId : UInt8) : Checked (List Sent × ℤ) :=
  sendMessage env (.join { roomId })

def sendChatMessage (env : ClientEnv) (text : CArray UInt8 textSizeLimit) : Checked (List Sent × ℤ) := do
  let zero : ChatMessage := { timestamp := 0, name := .fill fun _ => 0, text := .fill fun _ => 0 }
  let msg := { zero with text := ← strcpy zero.text text }
  sendMessage env (.chat msg)

/-! ## Input -/

/-- What a call of `execute_command` or `handle_input` did: what it sent, and whether it called
`exit(EXIT_SUCCESS)`. -/
structure Executed where
  sent : List Sent
  exited : Bool

/-- Every `sendall` of the call returned. -/
def Executed.Returned (env : ClientEnv) (executed : Executed) : Prop :=
  ∀ p ∈ executed.sent, (sendEnd env.send p.sendBuf p.sendBuf.length).Returns

/-- A `sendall` of the call waits for the server. -/
def Executed.Waits (env : ClientEnv) (executed : Executed) : Prop :=
  ∃ p ∈ executed.sent, sendEnd env.send p.sendBuf p.sendBuf.length = .waits

/-- The call is the last one: because of `exit`, because of its status, or because a `sendall` did not return. -/
def Executed.Ends (env : ClientEnv) (executed : Executed) (status : ℤ) : Prop :=
  executed.exited ∨ status ≠ 0 ∨ ¬ executed.Returned env

instance Executed.decidableReturned (env : ClientEnv) (executed : Executed) :
    Decidable (executed.Returned env) :=
  inferInstanceAs (Decidable (∀ p ∈ executed.sent, _))

instance Executed.decidableWaits (env : ClientEnv) (executed : Executed) : Decidable (executed.Waits env) :=
  inferInstanceAs (Decidable (∃ p ∈ executed.sent, _))

instance Executed.decidableEnds (env : ClientEnv) (executed : Executed) (status : ℤ) :
    Decidable (executed.Ends env status) :=
  inferInstanceAs (Decidable (_ ∨ _ ∨ _))

/-- Executes the command in a line, given by its characters before the NUL. -/
def executeCommand (env : ClientEnv) (str : Bytes) : Checked Executed := do
  match sscanf str [.char 47, .str 5] with
  | [.word word] =>
    let command ← copyInto env.command (word ++ [0])
    if cstr command.toList = ascii "name" then
      match sscanf str [.char 47, .str 5, .space, .str 100] with
      | [.word word, .word name] =>
        let _ ← copyInto command (word ++ [0])
        let newName ← copyInto env.newName (name ++ [0])
        return { sent := (← sendNameMessage env newName).1, exited := false }
      | _ => return { sent := [], exited := false }
    else if cstr command.toList = ascii "join" then
      match sscanf str [.char 47, .str 5, .space, .hhd] with
      | [.word word, .byte roomId] =>
        let _ ← copyInto command (word ++ [0])
        return { sent := (← sendJoinMessage env roomId).1, exited := false }
      | _ => return { sent := [], exited := false }
    else if cstr command.toList = ascii "exit" then return { sent := [], exited := true }
    else return { sent := [], exited := false }
  | _ => return { sent := [], exited := false }

/-- Handles what `fgets` read, at most 999 characters; `none` is `NULL`. -/
def handleInput (env : ClientEnv) (input : Option Bytes) : Checked (Executed × ℤ) :=
  match input with
  | none => return ({ sent := [], exited := false }, -1)
  | some line => do
    let buf ← copyInto env.buf (line ++ [0])
    if buf.toList.head? = some 47 then return (← executeCommand env (cstr buf.toList), 0)
    else
      let (sent, status) ← sendChatMessage env buf
      return ({ sent, exited := false }, if status ≠ 0 then -1 else 0)

/-! ## Messages from the server -/

/-- What is printed: the strings of a chat message with its timestamp, or a reply. -/
inductive Printed where
  | chat (timestamp : Timestamp) (name text : Bytes)
  | reply (text : Bytes)
deriving DecidableEq, Repr

/-- Reads a string to print it. -/
def printString {n : ℕ} (s : CArray UInt8 n) : Checked Bytes := do
  return s.toList.take (← strlen s)

/-- `handle_chat_message` of the client. -/
def printChatMessage (host : ByteOrder) (locals : Locals) (buf : Bytes) : Checked Printed := do
  let msg ← chatMessageDeserialize host buf locals.chat
  return .chat msg.timestamp (← printString msg.name) (← printString msg.text)

def handleReplyMessage (locals : Locals) (buf : Bytes) : Checked Printed := do
  let msg ← replyMessageDeserialize buf locals.reply
  return .reply (← printString msg.reply)

/-- Handles what `recvall` returned; `none` when it does not return.  A status of 0 is success, -1
is an error. -/
def handleServerMessage (host : ByteOrder) (locals : Locals) (received : Received) :
    Checked (Option (Option Printed × ℤ)) :=
  match received with
  | .waits => return none
  | .failed | .closed => return some (none, -1)
  | .message buf _ => do
    match ← getMessageType buf with
    | .chat => return some (some (← printChatMessage host locals buf), 0)
    | .reply => return some (some (← handleReplyMessage locals buf), 0)
    | .name | .join | .invalid => return some (none, -1)

theorem printString_eq {n : ℕ} {s : CArray UInt8 n} (h : Terminated s) :
    printString s = .ok (cstr s.toList) := by
  have htake : s.toList.take (cstr s.toList).length = cstr s.toList :=
    List.prefix_iff_eq_take.1 (List.takeWhile_prefix _) |>.symm
  rw [printString, strlen_eq h, Checked.ok_bind, htake]
  rfl

/-- What is printed are the strings of the message. -/
def Printed.Says : Printed → Message → Prop
  | .chat _ name text, .chat msg => name = cstr msg.name.toList ∧ text = cstr msg.text.toList
  | .reply text, .reply msg => text = cstr msg.reply.toList
  | _, _ => False

/-- The client decodes and prints every chat and every reply frame, whatever its local structs held
before. -/
theorem handleServerMessage_frame (host : ByteOrder) (locals : Locals) {msg : Message}
    (hterm : msg.Terminated) (hkind : msg.content.type = .chat ∨ msg.content.type = .reply) (n : ℕ) :
    ∃ p, handleServerMessage host locals (.message (msg.content.frame host) n) =
      .ok (some (some p, 0)) ∧ p.Says msg := by
  have hfits := hterm.fits
  cases msg with
  | chat msg =>
    obtain ⟨m, hdecode, -, ⟨hname, hnameStr⟩, htext, htextStr⟩ := chatMessageDeserialize_frame host
      (msg.timestamp.toNat % 2 ^ 32) locals.chat (by omega) hfits.1.1 hfits.1.2 hfits.2.1 hfits.2.2
    refine ⟨.chat m.timestamp (cstr m.name.toList) (cstr m.text.toList), ?_, hnameStr, htextStr⟩
    simp only [handleServerMessage, Message.content, Content.frame, Content.type, Content.body,
      getMessageType_frame, Checked.ok_bind, printChatMessage, hdecode, printString_eq hname,
      printString_eq htext, Checked.pure_eq_ok]
  | reply msg =>
    obtain ⟨v, hdecode, hv, hstr⟩ := stringMessageDeserialize_frame .reply locals.reply.reply
      (by decide) hfits.1 hfits.2
    refine ⟨.reply (cstr v.toList), ?_, hstr⟩
    simp only [handleServerMessage, Message.content, Content.frame, Content.type, Content.body,
      getMessageType_frame, Checked.ok_bind, handleReplyMessage, replyMessageDeserialize, hdecode,
      printString_eq hv, Checked.pure_eq_ok]
  | name msg => simp [Message.content, Content.type] at hkind
  | join msg => simp [Message.content, Content.type] at hkind

/-! ## From a line to a frame -/

/-- What is sent of a message whose strings end: nothing without memory, otherwise what the kernel took
of its frame. -/
theorem sendMessage_serialized (env : ClientEnv) {msg : Message} (hterm : msg.Terminated) :
    sendMessage env msg = .ok (if env.heap.serves (msg.content.frame env.host).length then
      ([⟨msg, msg.content.frame env.host,
        (sendall env.send (msg.content.frame env.host) (msg.content.frame env.host).length).1⟩],
        if (sendall env.send (msg.content.frame env.host) (msg.content.frame env.host).length).2 = none
        then -1 else 0)
      else ([], -1)) := by
  rw [sendMessage, serialize_eq env.host env.heap msg hterm, Checked.ok_bind]
  by_cases hserves : env.heap.serves (msg.content.frame env.host).length = true
  · rw [if_pos hserves, if_pos hserves]
    rfl
  · rw [if_neg hserves, if_neg hserves]
    rfl

theorem sendMessage_eq {env : ClientEnv} (hheap : ∀ n, 0 < n → env.heap.serves n = true)
    (hsend : ∀ call, (env.send call).Accepted) (msg : Message) (hterm : msg.Terminated) :
    sendMessage env msg =
      .ok ([⟨msg, msg.content.frame env.host, msg.content.frame env.host⟩], 0) := by
  rw [sendMessage_serialized env hterm, if_pos (hheap _ (length_frame_pos env.host _)),
    sendall_of_accepted hsend]
  rfl

/-- Sending a message whose strings end commits no fault. -/
theorem sendMessage_ok (env : ClientEnv) {msg : Message} (hterm : msg.Terminated) :
    ∃ sent status, sendMessage env msg = .ok (sent, status) :=
  ⟨_, _, sendMessage_serialized env hterm⟩

/-- Nothing but the message is sent. -/
theorem msg_of_mem_sendMessage {env : ClientEnv} {msg : Message} {sent : List Sent} {status : ℤ}
    (h : sendMessage env msg = .ok (sent, status)) {p : Sent} (hp : p ∈ sent) : p.msg = msg := by
  obtain ⟨serialized, -, h⟩ := Checked.bind_eq_ok.1 h
  cases serialized with
  | none =>
    cases h
    cases hp
  | some frame =>
    cases h
    rw [List.mem_singleton.1 hp]

/-- A command sends names and room ids. -/
theorem msg_of_mem_executeCommand {env : ClientEnv} {str : Bytes} {executed : Executed}
    (h : executeCommand env str = .ok executed) {p : Sent} (hp : p ∈ executed.sent) :
    (∃ m, p.msg = .name m) ∨ ∃ m, p.msg = .join m := by
  unfold executeCommand at h
  split at h
  · obtain ⟨command, -, h⟩ := Checked.bind_eq_ok.1 h
    split at h
    · split at h
      · obtain ⟨command', -, h⟩ := Checked.bind_eq_ok.1 h
        obtain ⟨newName, -, h⟩ := Checked.bind_eq_ok.1 h
        obtain ⟨⟨sent, status⟩, hsend, h⟩ := Checked.bind_eq_ok.1 h
        obtain ⟨name, -, hsend⟩ := Checked.bind_eq_ok.1 hsend
        cases h
        exact .inl ⟨_, msg_of_mem_sendMessage hsend hp⟩
      · cases h
        cases hp
    · split at h
      · split at h
        · obtain ⟨command', -, h⟩ := Checked.bind_eq_ok.1 h
          obtain ⟨⟨sent, status⟩, hsend, h⟩ := Checked.bind_eq_ok.1 h
          cases h
          exact .inr ⟨_, msg_of_mem_sendMessage hsend hp⟩
        · cases h
          cases hp
      · split at h
        · cases h
          cases hp
        · cases h
          cases hp
  · cases h
    cases hp

/-- The line `/join N`, with or without its newline. -/
def joinLine (n : ℤ) (newline : Bool) : Bytes :=
  ascii "/join " ++ (decimal n ++ if newline then [10] else [])

theorem sscanf_join (n : ℤ) (newline : Bool) :
    sscanf (joinLine n newline) [.char 47, .str 5] = [.word (ascii "join")] ∧
      sscanf (joinLine n newline) [.char 47, .str 5, .space, .hhd] =
        [.word (ascii "join"), .byte (storedByte n)] := by
  refine ⟨rfl, ?_⟩
  have hrest : ∀ c ∈ (if newline then [10] else [] : Bytes).head?, isDigit c = false := by
    cases newline <;> simp [isDigit]
  set rest := (if newline then [10] else [] : Bytes)
  have hspace : skipSpace (32 :: (decimal n ++ rest)) = decimal n ++ rest := skipSpace_decimal n rest
  change Scanned.word (ascii "join") :: sscanf (32 :: (decimal n ++ rest)) [.space, .hhd] = _
  rw [sscanf, hspace, sscanf, skipSpace_decimal, scanInt_decimal n hrest]
  rfl

/-- A typed `/join` sends a join frame with the room id that `%hhd` stored. -/
theorem executeCommand_join {env : ClientEnv} (hheap : ∀ n, 0 < n → env.heap.serves n = true)
    (hsend : ∀ call, (env.send call).Accepted) (n : ℤ) (newline : Bool) :
    executeCommand env (joinLine n newline) = .ok {
      sent := [⟨.join ⟨storedByte n⟩, (Content.join (storedByte n)).frame env.host,
        (Content.join (storedByte n)).frame env.host⟩]
      exited := false } := by
  obtain ⟨hcommand, hjoin⟩ := sscanf_join n newline
  have hstored := fun dst : CArray UInt8 commandSizeLimit =>
    copyInto_string dst (show 0 ∉ ascii "join" by decide) (by decide)
  obtain ⟨command, hcopy, -, hstr⟩ := hstored env.command
  obtain ⟨command', hcopy', -⟩ := hstored command
  have hsent := sendMessage_eq hheap hsend (.join ⟨storedByte n⟩) trivial
  have hname : ascii "join" ≠ ascii "name" := by decide
  rw [executeCommand, hcommand]
  dsimp only
  rw [hcopy, Checked.ok_bind, hstr, if_neg hname, if_pos rfl, hjoin]
  dsimp only
  rw [hcopy', Checked.ok_bind, sendJoinMessage, hsent]
  rfl

end ChatRooms
