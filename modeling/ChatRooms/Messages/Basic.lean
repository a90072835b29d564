import ChatRooms.Lib.ByteOrder

/-!
# The four messages

The data types of `types/messages`: the message types and their codes, the structs a message is
kept in, and `getMessageType`, which reads the type of a received message.  A string field is a
`CArray` of the field's size, holding a C string when it is `Terminated`; `Message.content` is what
the fields of a message say, without the bytes behind their NULs.
-/

namespace ChatRooms

/-- `sizeof(TOTAL_MSG_LEN)`, a `uint32_t`. -/
def sizeofTotalMsgLen : ℕ := 4

/-- `sizeof(MSG_TYPE)`, a `uint8_t`. -/
def sizeofMsgType : ℕ := 1

/-- `sizeof(TIMESTAMP)`, an `int64_t`. -/
def sizeofTimestamp : ℕ := 8

/-- `sizeof(NAME_LEN)` and `sizeof(REPLY_LEN)`, a `uint8_t` each. -/
def sizeofNameLen : ℕ := 1

/-- `sizeof(TEXT_LEN)`, a `uint16_t`. -/
def sizeofTextLen : ℕ := 2

/-- `sizeof(ROOM_ID)`, a `uint8_t`. -/
def sizeofRoomId : ℕ := 1

/-- `NAME_SIZE_LIMIT` -/
abbrev nameSizeLimit : ℕ := 50

/-- `TEXT_SIZE_LIMIT` -/
abbrev textSizeLimit : ℕ := 1000

/-- `REPLY_SIZE_LIMIT` -/
abbrev replySizeLimit : ℕ := 100

/-- `enum MessageType` -/
inductive MessageType where
  | chat
  | name
  | invalid
  | join
  | reply
deriving DecidableEq, Repr

/-- The enumerator's value, which is the type byte of a message. -/
def MessageType.code : MessageType → UInt8
  | .chat => 0
  | .name => 1
  | .invalid => 2
  | .join => 3
  | .reply => 4

/-- The type whose enumerator a type byte is; every other byte is invalid. -/
def MessageType.ofCode (c : UInt8) : MessageType :=
  if c = code .chat then .chat
  else if c = code .name then .name
  else if c = code .join then .join
  else if c = code .reply then .reply
  else .invalid

/-- Reads the type of a received message. -/
def getMessageType (buf : Bytes) : Checked MessageType := do
  let c ← readByte buf sizeofTotalMsgLen
  return .ofCode c

theorem getMessageType_of_getElem? {buf : Bytes} {c : UInt8} (h : buf[4]? = some c) :
    getMessageType buf = .ok (.ofCode c) := by
  have hc : readByte buf sizeofTotalMsgLen = .ok c := readByte_eq_ok.2 h
  rw [getMessageType, hc]
  rfl

theorem getMessageType_eq_ok {buf : Bytes} {t : MessageType} :
    getMessageType buf = .ok t ↔ ∃ c, buf[4]? = some c ∧ MessageType.ofCode c = t := by
  rw [getMessageType, Checked.bind_eq_ok]
  simp only [readByte_eq_ok, sizeofTotalMsgLen, Checked.pure_eq_ok, Except.ok.injEq]

/-! ## The structs -/

/-- A `TIMESTAMP`, an `int64_t` by its bits. -/
abbrev Timestamp := BitVec 64

/-- `struct chat_message` -/
structure ChatMessage where
  timestamp : Timestamp
  name : CArray UInt8 nameSizeLimit
  text : CArray UInt8 textSizeLimit

/-- `struct name_message` -/
structure NameMessage where
  name : CArray UInt8 nameSizeLimit

/-- `struct join_message`; a `ROOM_ID` is a `uint8_t`. -/
structure JoinMessage where
  roomId : UInt8

/-- `struct reply_message` -/
structure ReplyMessage where
  reply : CArray UInt8 replySizeLimit

/-- A message of any of the four kinds. -/
inductive Message where
  | chat (msg : ChatMessage)
  | name (msg : NameMessage)
  | join (msg : JoinMessage)
  | reply (msg : ReplyMessage)

/-- What a message says: its strings up to their NULs and its numbers. -/
inductive Content where
  | chat (timestamp : Timestamp) (name text : Bytes)
  | name (name : Bytes)
  | join (roomId : UInt8)
  | reply (reply : Bytes)
deriving DecidableEq, Repr

/-- The strings have no NUL and leave room for one in their fields. -/
def Content.Fits : Content → Prop
  | .chat _ s t => (0 ∉ s ∧ s.length < nameSizeLimit) ∧ 0 ∉ t ∧ t.length < textSizeLimit
  | .name s => 0 ∉ s ∧ s.length < nameSizeLimit
  | .join _ => True
  | .reply s => 0 ∉ s ∧ s.length < replySizeLimit

/-- A chat message's timestamp lies in `[0, 2 ^ 32)`; the other kinds have none. -/
def Content.TimestampFits : Content → Prop
  | .chat timestamp _ _ => 0 ≤ timestamp.toInt ∧ timestamp.toInt < 2 ^ 32
  | _ => True

def Content.type : Content → MessageType
  | .chat .. => .chat
  | .name _ => .name
  | .join _ => .join
  | .reply _ => .reply

namespace Message

def content : Message → Content
  | .chat msg => .chat msg.timestamp (cstr msg.name.toList) (cstr msg.text.toList)
  | .name msg => .name (cstr msg.name.toList)
  | .join msg => .join msg.roomId
  | .reply msg => .reply (cstr msg.reply.toList)

/-- Every string field is NUL-terminated within its size limit. -/
def Terminated : Message → Prop
  | .chat msg => ChatRooms.Terminated msg.name ∧ ChatRooms.Terminated msg.text
  | .name msg => ChatRooms.Terminated msg.name
  | .join _ => True
  | .reply msg => ChatRooms.Terminated msg.reply

theorem Terminated.fits {msg : Message} (h : msg.Terminated) : msg.content.Fits := by
  cases msg with
  | chat msg =>
    exact ⟨⟨nul_notMem_cstr _, length_cstr_lt h.1⟩, nul_notMem_cstr _, length_cstr_lt h.2⟩
  | name msg => exact ⟨nul_notMem_cstr _, length_cstr_lt h⟩
  | join msg => trivial
  | reply msg => exact ⟨nul_notMem_cstr _, length_cstr_lt h⟩

end Message

theorem ofCode_code (t : MessageType) : MessageType.ofCode t.code = t := by
  cases t <;> rfl

end ChatRooms
