import ChatRooms.Messages.Basic

/-!
# Serializing

The four serializers, each as the source has it: compute the total length in the widths of the
length fields, allocate, and copy the fields one after another into the block.  A result of `none`
is the source's `-1`, a failed allocation; otherwise it is the block together with the length
reported through `*len`.

`serialize_eq` says what comes out: the `frame` of the message, whose body is laid out by
`stringBody` (name and reply), `joinBody` and `chatBody`, and whose header is its own length.
-/

namespace ChatRooms

/-! ## The serializers -/

/-- `name_message_serialize` and `reply_message_serialize` differ in the type byte and the field's
size. -/
def stringMessageSerialize {n : ℕ} (host : ByteOrder) (heap : Heap) (type : MessageType)
    (field : CArray UInt8 n) : Checked (Option (Bytes × ℕ)) := do
  let len := ((← strlen field) + 1) % 2 ^ 8
  let totalLen := (sizeofTotalMsgLen + sizeofMsgType + sizeofNameLen + len) % 2 ^ 32
  match heap.malloc totalLen with
  | none => return none
  | some buf =>
    let b ← Cursor.put ⟨buf, 0⟩ (host.store sizeofTotalMsgLen (hton host sizeofTotalMsgLen totalLen))
    let b ← b.put [type.code]
    let b ← b.put [UInt8.ofNat len]
    let b ← b.put (← readBytes field.toList 0 len)
    return some (b.block, totalLen)

def nameMessageSerialize (host : ByteOrder) (heap : Heap) (msg : NameMessage) :
    Checked (Option (Bytes × ℕ)) :=
  stringMessageSerialize host heap .name msg.name

def replyMessageSerialize (host : ByteOrder) (heap : Heap) (msg : ReplyMessage) :
    Checked (Option (Bytes × ℕ)) :=
  stringMessageSerialize host heap .reply msg.reply

def joinMessageSerialize (host : ByteOrder) (heap : Heap) (msg : JoinMessage) :
    Checked (Option (Bytes × ℕ)) := do
  let totalLen := sizeofTotalMsgLen + sizeofMsgType + sizeofRoomId
  match heap.malloc totalLen with
  | none => return none
  | some buf =>
    let b ← Cursor.put ⟨buf, 0⟩ (host.store sizeofTotalMsgLen (hton host sizeofTotalMsgLen totalLen))
    let b ← b.put [MessageType.join.code]
    let b ← b.put [msg.roomId]
    return some (b.block, totalLen)

def chatMessageSerialize (host : ByteOrder) (heap : Heap) (msg : ChatMessage) :
    Checked (Option (Bytes × ℕ)) := do
  let nameLen := ((← strlen msg.name) + 1) % 2 ^ 8
  let textLen := ((← strlen msg.text) + 1) % 2 ^ 16
  let totalLen := (sizeofTotalMsgLen + sizeofMsgType + sizeofTimestamp + sizeofNameLen + nameLen +
    sizeofTextLen + textLen) % 2 ^ 32
  match heap.malloc totalLen with
  | none => return none
  | some buf =>
    let b ← Cursor.put ⟨buf, 0⟩ (host.store sizeofTotalMsgLen (hton host sizeofTotalMsgLen totalLen))
    let b ← b.put [MessageType.chat.code]
    -- `htonl` takes and returns a `uint32_t`; its result is stored in a `TIMESTAMP`.
    let timestampNbe := hton host 4 (msg.timestamp.toNat % 2 ^ 32)
    let b ← b.put (host.store sizeofTimestamp timestampNbe)
    let b ← b.put [UInt8.ofNat nameLen]
    let b ← b.put (← readBytes msg.name.toList 0 nameLen)
    let b ← b.put (host.store sizeofTextLen (hton host sizeofTextLen textLen))
    let b ← b.put (← readBytes msg.text.toList 0 textLen)
    return some (b.block, totalLen)

/-- The serializer of a message's kind. -/
def Message.serialize (host : ByteOrder) (heap : Heap) : Message → Checked (Option (Bytes × ℕ))
  | .chat msg => chatMessageSerialize host heap msg
  | .name msg => nameMessageSerialize host heap msg
  | .join msg => joinMessageSerialize host heap msg
  | .reply msg => replyMessageSerialize host heap msg

/-! ## Frames -/

/-- A frame: its own length, the type byte, and a body. -/
def frame (type : MessageType) (body : Bytes) : Bytes :=
  ByteOrder.big.store 4 (body.length + 5) ++ (type.code :: body)

/-- The body of a name or reply frame. -/
def stringBody (s : Bytes) : Bytes := UInt8.ofNat (s.length + 1) :: (s ++ [0])

/-- The body of a join frame. -/
def joinBody (roomId : UInt8) : Bytes := [roomId]

/-- The body of a chat frame: an eight-byte timestamp, the name and the text. -/
def chatBody (host : ByteOrder) (timestamp : ℕ) (name text : Bytes) : Bytes :=
  host.store 8 (hton host 4 timestamp) ++
    (UInt8.ofNat (name.length + 1) ::
      (name ++ 0 :: (ByteOrder.big.store 2 (text.length + 1) ++ (text ++ [0]))))

@[simp] theorem length_frame (type : MessageType) (body : Bytes) :
    (frame type body).length = body.length + 5 := by
  simp only [frame, List.length_append, ByteOrder.length_store, List.length_cons]
  omega

@[simp] theorem length_stringBody (s : Bytes) : (stringBody s).length = s.length + 2 := by
  simp [stringBody]

@[simp] theorem length_chatBody (host : ByteOrder) (timestamp : ℕ) (name text : Bytes) :
    (chatBody host timestamp name text).length = name.length + text.length + 13 := by
  simp only [chatBody, List.length_append, ByteOrder.length_store, List.length_cons, List.length_nil]
  omega

theorem getElem?_frame_type (type : MessageType) (body : Bytes) :
    (frame type body)[4]? = some type.code := by
  rw [frame, List.getElem?_append_right (by simp), ByteOrder.length_store]
  rfl

theorem getMessageType_frame (type : MessageType) (body : Bytes) :
    getMessageType (frame type body) = .ok type := by
  rw [getMessageType_of_getElem? (getElem?_frame_type type body), ofCode_code]

/-- The first four bytes of a frame are its length. -/
theorem take_four_frame (type : MessageType) (body : Bytes) :
    (frame type body).take 4 = ByteOrder.big.store 4 (frame type body).length := by
  rw [length_frame, frame, List.take_append_of_le_length (by simp), List.take_of_length_le (by simp)]

/-- The body of the frame a message is serialized to. -/
def Content.body (host : ByteOrder) : Content → Bytes
  | .chat timestamp s t => chatBody host (timestamp.toNat % 2 ^ 32) s t
  | .name s => stringBody s
  | .join roomId => joinBody roomId
  | .reply s => stringBody s

/-- The frame a message is serialized to. -/
def Content.frame (host : ByteOrder) (c : Content) : Bytes := ChatRooms.frame c.type (c.body host)

/-! ## What the serializers write -/

theorem readBytes_cstr {n : ℕ} {s : CArray UInt8 n} (h : Terminated s) :
    readBytes s.toList 0 ((cstr s.toList).length + 1) = .ok (cstr s.toList ++ [0]) := by
  have hl := length_cstr_lt h
  rw [readBytes_eq_ok, List.drop_zero, take_cstr_succ h, List.Vector.toList_length]
  exact ⟨by omega, rfl⟩

theorem stringMessageSerialize_eq {n : ℕ} (host : ByteOrder) {heap : Heap} (type : MessageType)
    {field : CArray UInt8 n} (hn : n ≤ 255) (h : Terminated field) :
    stringMessageSerialize host heap type field =
      .ok (if heap.serves ((cstr field.toList).length + 7) then
        some (frame type (stringBody (cstr field.toList)), (cstr field.toList).length + 7)
      else none) := by
  have hlt := length_cstr_lt h
  have hread := readBytes_cstr h
  have hlen : ((cstr field.toList).length + 1) % 2 ^ 8 = (cstr field.toList).length + 1 := by omega
  have htotal : (4 + 1 + 1 + ((cstr field.toList).length + 1)) % 2 ^ 32 =
      (cstr field.toList).length + 7 := by omega
  rw [stringMessageSerialize, strlen_eq h]
  simp only [Checked.ok_bind, sizeofTotalMsgLen, sizeofMsgType, sizeofNameLen, hlen, htotal,
    store_hton]
  generalize hs : cstr field.toList = s at *
  cases hv : heap.serves (s.length + 7) with
  | false =>
    rw [Heap.malloc_of_not_serves hv]
    rfl
  | true =>
    rw [Heap.malloc_of_serves hv]
    -- Each copy finds the room that the total length reserved for it.
    have c0 := Cursor.at_start ((List.range (s.length + 7)).map heap.fresh)
    rw [List.length_map, List.length_range] at c0
    obtain ⟨b1, e1, c1⟩ := c0.put (ByteOrder.big.store 4 (s.length + 7)) (by simp)
    obtain ⟨b2, e2, c2⟩ := c1.put [type.code] (by simp)
    obtain ⟨b3, e3, c3⟩ := c2.put [UInt8.ofNat (s.length + 1)] (by simp)
    obtain ⟨b4, e4, c4⟩ := c3.put (s ++ [0]) (by simp)
    simp only [e1, e2, e3, e4, hread, Checked.ok_bind, Checked.pure_eq_ok, if_true]
    have hleft : s.length + 7 - (ByteOrder.big.store 4 (s.length + 7)).length - [type.code].length -
        [UInt8.ofNat (s.length + 1)].length - (s ++ [0]).length = 0 := by
      simp
    rw [hleft] at c4
    rw [c4.block_eq]
    simp [frame, stringBody]

theorem joinMessageSerialize_eq (host : ByteOrder) {heap : Heap} (msg : JoinMessage) :
    joinMessageSerialize host heap msg =
      .ok (if heap.serves 6 then some (frame .join (joinBody msg.roomId), 6) else none) := by
  rw [joinMessageSerialize]
  simp only [sizeofTotalMsgLen, sizeofMsgType, sizeofRoomId, Nat.reduceAdd, store_hton]
  cases hv : heap.serves 6 with
  | false =>
    rw [Heap.malloc_of_not_serves hv]
    rfl
  | true =>
    rw [Heap.malloc_of_serves hv]
    have c0 := Cursor.at_start ((List.range 6).map heap.fresh)
    obtain ⟨b1, e1, c1⟩ := c0.put (ByteOrder.big.store 4 6) (by simp)
    obtain ⟨b2, e2, c2⟩ := c1.put [MessageType.join.code] (by simp)
    obtain ⟨b3, e3, c3⟩ := c2.put [msg.roomId] (by simp)
    simp only [e1, e2, e3, Checked.ok_bind, Checked.pure_eq_ok, if_true]
    rw [c3.block_eq]
    simp [frame, joinBody]

theorem chatMessageSerialize_eq (host : ByteOrder) {heap : Heap} {msg : ChatMessage}
    (hname : Terminated msg.name) (htext : Terminated msg.text) :
    chatMessageSerialize host heap msg =
      .ok (if heap.serves ((cstr msg.name.toList).length + (cstr msg.text.toList).length + 18) then
        some (frame .chat (chatBody host (msg.timestamp.toNat % 2 ^ 32) (cstr msg.name.toList)
          (cstr msg.text.toList)), (cstr msg.name.toList).length + (cstr msg.text.toList).length + 18)
      else none) := by
  have hln : (cstr msg.name.toList).length < 50 := length_cstr_lt hname
  have hlt : (cstr msg.text.toList).length < 1000 := length_cstr_lt htext
  have hreadName := readBytes_cstr hname
  have hreadText := readBytes_cstr htext
  have hnameLen : ((cstr msg.name.toList).length + 1) % 2 ^ 8 = (cstr msg.name.toList).length + 1 := by
    omega
  have htextLen : ((cstr msg.text.toList).length + 1) % 2 ^ 16 = (cstr msg.text.toList).length + 1 := by
    omega
  have htotal : (4 + 1 + 8 + 1 + ((cstr msg.name.toList).length + 1) + 2 +
      ((cstr msg.text.toList).length + 1)) % 2 ^ 32 =
      (cstr msg.name.toList).length + (cstr msg.text.toList).length + 18 := by omega
  rw [chatMessageSerialize, strlen_eq hname, strlen_eq htext]
  simp only [Checked.ok_bind, sizeofTotalMsgLen, sizeofMsgType, sizeofNameLen, sizeofTimestamp,
    sizeofTextLen, hnameLen, htextLen, htotal, store_hton]
  generalize hs : cstr msg.name.toList = s at *
  generalize ht : cstr msg.text.toList = t at *
  cases hv : heap.serves (s.length + t.length + 18) with
  | false =>
    rw [Heap.malloc_of_not_serves hv]
    rfl
  | true =>
    rw [Heap.malloc_of_serves hv]
    have c0 := Cursor.at_start ((List.range (s.length + t.length + 18)).map heap.fresh)
    rw [List.length_map, List.length_range] at c0
    obtain ⟨b1, e1, c1⟩ := c0.put (ByteOrder.big.store 4 (s.length + t.length + 18)) (by simp)
    obtain ⟨b2, e2, c2⟩ := c1.put [MessageType.chat.code] (by simp)
    obtain ⟨b3, e3, c3⟩ := c2.put
      (host.store 8 (hton host 4 (msg.timestamp.toNat % 2 ^ 32))) (by simp)
    obtain ⟨b4, e4, c4⟩ := c3.put [UInt8.ofNat (s.length + 1)] (by simp)
    obtain ⟨b5, e5, c5⟩ := c4.put (s ++ [0]) (by simp; omega)
    obtain ⟨b6, e6, c6⟩ := c5.put (ByteOrder.big.store 2 (t.length + 1)) (by simp; omega)
    obtain ⟨b7, e7, c7⟩ := c6.put (t ++ [0]) (by simp; omega)
    simp only [e1, e2, e3, e4, e5, e6, e7, hreadName, hreadText, Checked.ok_bind, Checked.pure_eq_ok,
      if_true]
    have hleft : s.length + t.length + 18 - 4 - 1 - 8 - 1 - (s.length + 1) - 2 - (t.length + 1) = 0 := by
      omega
    simp only [ByteOrder.length_store, List.length_append, List.length_cons, List.length_nil] at c7
    rw [hleft] at c7
    rw [c7.block_eq, frame, length_chatBody]
    simp [chatBody]

/-- Serializing a message whose strings are terminated allocates its frame's size and writes its
frame. -/
theorem serialize_eq (host : ByteOrder) (heap : Heap) (msg : Message) (h : msg.Terminated) :
    msg.serialize host heap =
      .ok (if heap.serves (msg.content.frame host).length then
        some (msg.content.frame host, (msg.content.frame host).length) else none) := by
  cases msg with
  | chat msg =>
    rw [Message.serialize, chatMessageSerialize_eq host h.1 h.2]
    simp [Content.frame, Message.content, Content.body, Content.type]
  | name msg =>
    rw [Message.serialize, nameMessageSerialize, stringMessageSerialize_eq host _ (by decide) h]
    simp [Content.frame, Message.content, Content.body, Content.type]
  | join msg =>
    rw [Message.serialize, joinMessageSerialize_eq host]
    simp [Content.frame, Message.content, Content.body, Content.type, joinBody]
  | reply msg =>
    rw [Message.serialize, replyMessageSerialize, stringMessageSerialize_eq host _ (by decide) h]
    simp [Content.frame, Message.content, Content.body, Content.type]

end ChatRooms
