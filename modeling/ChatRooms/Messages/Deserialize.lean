import ChatRooms.Messages.Serialize

/-!
# Deserializing

The four deserializers.  Each copies fields out of a received buffer into a struct whose previous
contents are a parameter: the callers pass an uninitialised local.  `decodeFrame` is what every
receiver does with a buffer, `get_message_type` followed by the deserializer of that type.

The lengths in the buffer come from the peer and nothing compares them with the buffer or with the
fields they fill.  `FieldsInBounds` is the condition on the bytes under which decoding stays inside
both, and `decodeFrame_safe` says it is exactly that.
-/

namespace ChatRooms

/-! ## The deserializers -/

/-- `name_message_deserialize` and `reply_message_deserialize` differ in the size of the field. -/
def stringMessageDeserialize {n : ℕ} (buf : Bytes) (field : CArray UInt8 n) :
    Checked (CArray UInt8 n) := do
  let off := sizeofTotalMsgLen + sizeofMsgType
  let len := (← readByte buf off).toNat
  memcpyInto field buf (off + sizeofNameLen) len

def nameMessageDeserialize (buf : Bytes) (msg : NameMessage) : Checked NameMessage := do
  return { msg with name := ← stringMessageDeserialize buf msg.name }

def replyMessageDeserialize (buf : Bytes) (msg : ReplyMessage) : Checked ReplyMessage := do
  return { msg with reply := ← stringMessageDeserialize buf msg.reply }

def joinMessageDeserialize (buf : Bytes) (msg : JoinMessage) : Checked JoinMessage := do
  return { msg with roomId := ← readByte buf (sizeofTotalMsgLen + sizeofMsgType) }

def chatMessageDeserialize (host : ByteOrder) (buf : Bytes) (msg : ChatMessage) :
    Checked ChatMessage := do
  let off := sizeofTotalMsgLen + sizeofMsgType
  -- All eight bytes are loaded; `ntohl` takes the low four of them.
  let timestamp := ntoh host 4 (host.load (← readBytes buf off sizeofTimestamp) % 2 ^ 32)
  let off := off + sizeofTimestamp
  let nameLen := (← readByte buf off).toNat
  let off := off + sizeofNameLen
  let name ← memcpyInto msg.name buf off nameLen
  let off := off + nameLen
  let textLen := ntoh host sizeofTextLen (host.load (← readBytes buf off sizeofTextLen))
  let off := off + sizeofTextLen
  let text ← memcpyInto msg.text buf off textLen
  return { timestamp := BitVec.ofNat 64 timestamp, name, text }

/-- The previous contents of the local structs that messages are decoded into. -/
structure Locals where
  chat : ChatMessage
  name : NameMessage
  join : JoinMessage
  reply : ReplyMessage

/-- Locals whose bytes all hold `c`. -/
def Locals.filled (c : UInt8) : Locals :=
  ⟨⟨0, .fill fun _ => c, .fill fun _ => c⟩, ⟨.fill fun _ => c⟩, ⟨c⟩, ⟨.fill fun _ => c⟩⟩

/-- Reads the type of a received buffer and decodes it; an invalid type decodes to nothing. -/
def decodeFrame (host : ByteOrder) (locals : Locals) (buf : Bytes) : Checked (Option Message) := do
  match ← getMessageType buf with
  | .chat => return some (.chat (← chatMessageDeserialize host buf locals.chat))
  | .name => return some (.name (← nameMessageDeserialize buf locals.name))
  | .join => return some (.join (← joinMessageDeserialize buf locals.join))
  | .reply => return some (.reply (← replyMessageDeserialize buf locals.reply))
  | .invalid => return none

/-! ## When decoding stays inside the buffer and the fields -/

/-- The value of the byte at an index; past the end there is none, and 0 stands for it. -/
def byteAt (buf : Bytes) (i : ℕ) : ℕ := (buf.getD i 0).toNat

/-- The length byte of a name or reply counts bytes of the buffer and at most `limit` of them. -/
def StringInBounds (limit : ℕ) (buf : Bytes) : Prop :=
  6 + byteAt buf 5 ≤ buf.length ∧ byteAt buf 5 ≤ limit

/-- The name and text lengths of a chat message count bytes of the buffer and fit their fields. -/
def ChatInBounds (buf : Bytes) : Prop :=
  let nameLen := byteAt buf 13
  let textLen := 256 * byteAt buf (14 + nameLen) + byteAt buf (14 + nameLen + 1)
  16 + nameLen + textLen ≤ buf.length ∧ nameLen ≤ nameSizeLimit ∧ textLen ≤ textSizeLimit

/-- The bytes that the length byte of a name or reply counts. -/
def stringBytes (buf : Bytes) : Bytes := (buf.drop 6).take (byteAt buf 5)

/-- The bytes that the text length of a chat message counts. -/
def textBytes (buf : Bytes) : Bytes :=
  let nameLen := byteAt buf 13
  (buf.drop (16 + nameLen)).take (256 * byteAt buf (14 + nameLen) + byteAt buf (14 + nameLen + 1))

/-- The buffer holds a type byte and the fields of that type's message. -/
def FieldsInBounds (buf : Bytes) : Prop :=
  5 ≤ buf.length ∧
    match MessageType.ofCode (buf.getD 4 0) with
    | .chat => ChatInBounds buf
    | .name => StringInBounds nameSizeLimit buf
    | .join => 6 ≤ buf.length
    | .reply => StringInBounds replySizeLimit buf
    | .invalid => True

instance (limit : ℕ) (buf : Bytes) : Decidable (StringInBounds limit buf) :=
  inferInstanceAs (Decidable (_ ∧ _))

instance (buf : Bytes) : Decidable (ChatInBounds buf) :=
  inferInstanceAs (Decidable (_ ∧ _ ∧ _))

instance (buf : Bytes) : Decidable (FieldsInBounds buf) := by
  unfold FieldsInBounds
  cases MessageType.ofCode (buf.getD 4 0) <;> infer_instance

theorem stringMessageDeserialize_safe_iff {n : ℕ} {buf : Bytes} {field : CArray UInt8 n} :
    (stringMessageDeserialize buf field).Safe ↔ StringInBounds n buf := by
  rw [stringMessageDeserialize, Checked.safe_bind]
  simp only [sizeofTotalMsgLen, sizeofMsgType, sizeofNameLen, Nat.reduceAdd, memcpyInto_safe_iff,
    StringInBounds, byteAt]
  constructor
  · rintro ⟨x, hx, hs⟩
    have hlt := readByte_safe_iff.1 ⟨x, hx⟩
    rw [readByte_of_lt hlt, Except.ok.injEq] at hx
    subst hx
    exact ⟨by omega, hs.2⟩
  · rintro ⟨hl, hn⟩
    exact ⟨_, readByte_of_lt (by omega), hl, hn⟩

/-- The two bytes of a text length are big-endian on the wire, whatever the host. -/
theorem load_textLen (host : ByteOrder) {buf x : Bytes} {off : ℕ} (h : readBytes buf off 2 = .ok x) :
    ntoh host 2 (host.load x) = 256 * byteAt buf off + byteAt buf (off + 1) := by
  obtain ⟨hl, rfl⟩ := readBytes_eq_ok.1 h
  rw [ntoh_load host (by rw [List.length_take, List.length_drop]; omega)]
  have hat {i : ℕ} (hi : i < buf.length) : byteAt buf i = buf[i].toNat := by
    rw [byteAt, List.getD_eq_getElem?_getD, List.getElem?_eq_getElem hi, Option.getD_some]
  have h0 := hat (by omega : off < buf.length)
  have h1 := hat (by omega : off + 1 < buf.length)
  rw [h0, h1, List.drop_eq_getElem_cons (by omega : off < buf.length),
    List.drop_eq_getElem_cons (by omega : off + 1 < buf.length)]
  simp only [List.take_succ_cons, List.take_zero, ByteOrder.load, List.reverse_cons,
    List.reverse_nil, List.nil_append, List.cons_append, ofLittle]
  omega

theorem chatMessageDeserialize_safe_iff {host : ByteOrder} {buf : Bytes} {msg : ChatMessage} :
    (chatMessageDeserialize host buf msg).Safe ↔ ChatInBounds buf := by
  simp only [chatMessageDeserialize, sizeofTotalMsgLen, sizeofMsgType, sizeofNameLen,
    sizeofTimestamp, sizeofTextLen, Nat.reduceAdd, ChatInBounds]
  constructor
  · intro h
    obtain ⟨ts, -, h⟩ := Checked.safe_bind.1 h
    obtain ⟨c, hc, h⟩ := Checked.safe_bind.1 h
    obtain ⟨name, hname, h⟩ := Checked.safe_bind.1 h
    obtain ⟨len, hlen, h⟩ := Checked.safe_bind.1 h
    obtain ⟨text, htext, -⟩ := Checked.safe_bind.1 h
    have hcl := readByte_safe_iff.1 ⟨c, hc⟩
    rw [readByte_of_lt hcl, Except.ok.injEq] at hc
    subst hc
    rw [load_textLen host hlen] at htext
    have hn := memcpyInto_safe_iff.1 ⟨name, hname⟩
    have ht := memcpyInto_safe_iff.1 ⟨text, htext⟩
    simp only [byteAt] at ht ⊢
    omega
  · rintro ⟨hl, hn, ht⟩
    obtain ⟨ts, hts⟩ : (readBytes buf 5 8).Safe := ⟨_, readBytes_eq_ok.2 ⟨by omega, rfl⟩⟩
    obtain ⟨name, hname⟩ : (memcpyInto msg.name buf 14 (byteAt buf 13)).Safe :=
      memcpyInto_safe_iff.2 ⟨by omega, hn⟩
    obtain ⟨len, hlen⟩ : (readBytes buf (14 + byteAt buf 13) 2).Safe :=
      ⟨_, readBytes_eq_ok.2 ⟨by omega, rfl⟩⟩
    obtain ⟨text, htext⟩ : (memcpyInto msg.text buf (14 + byteAt buf 13 + 2)
        (ntoh host 2 (host.load len))).Safe := by
      rw [load_textLen host hlen]
      exact memcpyInto_safe_iff.2 ⟨by omega, ht⟩
    have hc : readByte buf 13 = .ok (buf.getD 13 0) := readByte_of_lt (by omega)
    rw [hts, Checked.ok_bind, hc, Checked.ok_bind]
    change (memcpyInto msg.name buf 14 (byteAt buf 13) >>= _).Safe
    rw [hname, Checked.ok_bind]
    change (readBytes buf (14 + byteAt buf 13) 2 >>= _).Safe
    rw [hlen, Checked.ok_bind]
    change (memcpyInto msg.text buf (14 + byteAt buf 13 + 2) (ntoh host 2 (host.load len)) >>= _).Safe
    rw [htext]
    simp

/-! ## What the fields hold -/

/-- A decoded string is the bytes it was copied from, and behind them what the field held before. -/
theorem stringMessageDeserialize_eq_ok {n : ℕ} {buf : Bytes} {field v : CArray UInt8 n}
    (h : stringMessageDeserialize buf field = .ok v) :
    v.toList = stringBytes buf ++ field.toList.drop (byteAt buf 5) := by
  obtain ⟨c, hc, hcopy⟩ := Checked.bind_eq_ok.1 h
  have hlt := readByte_safe_iff.1 ⟨c, hc⟩
  rw [readByte_of_lt hlt, Except.ok.injEq] at hc
  subst hc
  exact (memcpyInto_eq_ok.1 hcopy).2.2

theorem stringBytes_isPrefix {n : ℕ} {buf : Bytes} {field v : CArray UInt8 n}
    (h : stringMessageDeserialize buf field = .ok v) : stringBytes buf <+: v.toList :=
  ⟨_, (stringMessageDeserialize_eq_ok h).symm⟩

/-- A decoded text starts with the bytes it was copied from. -/
theorem textBytes_isPrefix {host : ByteOrder} {buf : Bytes} {msg decoded : ChatMessage}
    (h : chatMessageDeserialize host buf msg = .ok decoded) :
    textBytes buf <+: decoded.text.toList := by
  obtain ⟨ts, -, h⟩ := Checked.bind_eq_ok.1 h
  obtain ⟨c, hc, h⟩ := Checked.bind_eq_ok.1 h
  obtain ⟨name, -, h⟩ := Checked.bind_eq_ok.1 h
  obtain ⟨len, hlen, h⟩ := Checked.bind_eq_ok.1 h
  obtain ⟨text, htext, h⟩ := Checked.bind_eq_ok.1 h
  cases h
  have hlt := readByte_safe_iff.1 ⟨c, hc⟩
  rw [readByte_of_lt hlt, Except.ok.injEq] at hc
  subst hc
  rw [show sizeofTextLen = 2 from rfl, load_textLen host hlen] at htext
  obtain ⟨-, -, hv⟩ := memcpyInto_eq_ok.1 htext
  have hoff : 14 + byteAt buf 13 + 2 = 16 + byteAt buf 13 := by omega
  change text.toList = (buf.drop (14 + byteAt buf 13 + 2)).take _ ++ _ at hv
  rw [hoff] at hv
  exact ⟨_, hv.symm⟩

/-- Decoding a buffer stays inside the buffer and inside every field exactly when the lengths the
buffer carries do. -/
theorem decodeFrame_safe (host : ByteOrder) (locals : Locals) (buf : Bytes) :
    (decodeFrame host locals buf).Safe ↔ FieldsInBounds buf := by
  rw [decodeFrame, getMessageType, sizeofTotalMsgLen]
  by_cases h : 4 < buf.length
  · have h5 : 5 ≤ buf.length := h
    rw [readByte_of_lt h]
    simp only [FieldsInBounds, Checked.ok_bind, Checked.pure_eq_ok, h5, true_and]
    cases MessageType.ofCode (buf.getD 4 0) with
    | chat => exact Checked.safe_bind_ok.trans chatMessageDeserialize_safe_iff
    | name =>
      exact Checked.safe_bind_ok.trans (Checked.safe_bind_ok.trans stringMessageDeserialize_safe_iff)
    | join => exact Checked.safe_bind_ok.trans (Checked.safe_bind_ok.trans readByte_safe_iff)
    | reply =>
      exact Checked.safe_bind_ok.trans (Checked.safe_bind_ok.trans stringMessageDeserialize_safe_iff)
    | invalid => exact ⟨fun _ => trivial, fun _ => Checked.safe_ok _⟩
  · have hread : readByte buf 4 = .error (.read 4 buf.length) := dif_neg h
    rw [hread]
    simp only [FieldsInBounds, Checked.error_bind, Checked.not_safe_error, false_iff]
    omega

end ChatRooms
