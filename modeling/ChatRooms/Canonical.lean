import ChatRooms.Framing

/-!
# Messages and their frames

Which byte strings are the frame of a message, and which messages come back from their frame.

* `WellFormed` describes the frames of each type by their bytes, without the serializers;
* `WellFormed.exists_content` and `wellFormed_frame`: on a little-endian host these are exactly the
  frames of the messages whose strings and timestamp fit;
* `reencode_frame` puts them together: decoding and serializing are inverse to each other;
* `chat_roundTrip_iff`: a chat message comes back with its timestamp exactly when the timestamp fits
  into 32 bits, because `htonl` and `ntohl` pass on no more than these.
-/

namespace ChatRooms

/-! ## Chat messages of any time -/

/-- The low 32 bits of a timestamp are the timestamp exactly when it lies in `[0, 2 ^ 32)`. -/
theorem ofNat_toNat_mod_iff (timestamp : Timestamp) :
    BitVec.ofNat 64 (timestamp.toNat % 2 ^ 32) = timestamp ↔
      0 ≤ timestamp.toInt ∧ timestamp.toInt < 2 ^ 32 := by
  refine ⟨fun h => ?_, ofNat_toNat_mod_of_fits⟩
  have hlow : timestamp.toNat < 2 ^ 32 := by
    rw [← h, BitVec.toNat_ofNat]
    omega
  rw [BitVec.toInt_eq_toNat_of_lt (by omega)]
  omega

/-- What the serializer made of a chat message decodes to its strings and the low 32 bits of its
timestamp. -/
theorem chatMessageDeserialize_serialized {host : ByteOrder} {heap : Heap} {msg : ChatMessage}
    (hterm : (Message.chat msg).Terminated) {buf : Bytes} {len : ℕ}
    (hser : chatMessageSerialize host heap msg = .ok (some (buf, len))) (old : ChatMessage) :
    ∃ m, chatMessageDeserialize host buf old = .ok m ∧ cstr m.name.toList = cstr msg.name.toList ∧
      cstr m.text.toList = cstr msg.text.toList ∧
      m.timestamp = BitVec.ofNat 64 (msg.timestamp.toNat % 2 ^ 32) := by
  have hfits := hterm.fits
  obtain ⟨m, hm, hstamp, ⟨-, hname⟩, -, htext⟩ := chatMessageDeserialize_frame host
    (msg.timestamp.toNat % 2 ^ 32) old (by omega) hfits.1.1 hfits.1.2 hfits.2.1 hfits.2.2
  rw [chatMessageSerialize_eq host hterm.1 hterm.2] at hser
  split at hser
  · cases hser
    exact ⟨m, hm, hname, htext, hstamp⟩
  · cases hser

/-- What the serializer made of a chat message decodes to its name and its text, whatever the local
struct held before, and to its timestamp exactly when this lies in `[0, 2 ^ 32)`. -/
theorem chat_roundTrip_iff (host : ByteOrder) (heap : Heap) {msg : ChatMessage}
    (hterm : (Message.chat msg).Terminated) {buf : Bytes} {len : ℕ}
    (hser : chatMessageSerialize host heap msg = .ok (some (buf, len))) (old : ChatMessage) :
    ∃ m, chatMessageDeserialize host buf old = .ok m ∧ cstr m.name.toList = cstr msg.name.toList ∧
      cstr m.text.toList = cstr msg.text.toList ∧
      (m.timestamp = msg.timestamp ↔ 0 ≤ msg.timestamp.toInt ∧ msg.timestamp.toInt < 2 ^ 32) := by
  obtain ⟨m, hm, hname, htext, hstamp⟩ := chatMessageDeserialize_serialized hterm hser old
  refine ⟨m, hm, hname, htext, ?_⟩
  rw [hstamp]
  exact ofNat_toNat_mod_iff msg.timestamp

/-- The message `"ok"` of a user `"B"` at a time. -/
def okMessage (timestamp : Timestamp) : ChatMessage :=
  ⟨timestamp, .ofString [66] (by decide), .ofString [111, 107] (by decide)⟩

theorem terminated_okMessage (timestamp : Timestamp) : (Message.chat (okMessage timestamp)).Terminated :=
  ⟨(cstr_ofString (by decide) (by decide)).1, (cstr_ofString (by decide) (by decide)).1⟩

theorem exists_serialized_okMessage (timestamp : Timestamp) : ∃ buf len,
    chatMessageSerialize .little .steady (okMessage timestamp) = .ok (some (buf, len)) := by
  have hterm := terminated_okMessage timestamp
  rw [chatMessageSerialize_eq .little hterm.1 hterm.2]
  exact ⟨_, _, rfl⟩

/-- A message of the present is the same after the round trip. -/
theorem chat_roundTrip_iff_present : ∃ buf len m,
    chatMessageSerialize .little .steady (okMessage 1700000000) = .ok (some (buf, len)) ∧
      chatMessageDeserialize .little buf (okMessage 0) = .ok m ∧ m.timestamp = 1700000000 := by
  obtain ⟨buf, len, hser⟩ := exists_serialized_okMessage 1700000000
  obtain ⟨m, hm, -, -, hstamp⟩ := chat_roundTrip_iff .little .steady (terminated_okMessage 1700000000)
    hser (okMessage 0)
  exact ⟨buf, len, m, hser, hm, hstamp.2 (by decide)⟩

/-- The message comes back from its frame with another timestamp. -/
def TimestampLost (timestamp : Timestamp) : Prop :=
  (Message.chat (okMessage timestamp)).Terminated ∧ ∃ buf len m,
    chatMessageSerialize .little .steady (okMessage timestamp) = .ok (some (buf, len)) ∧
      chatMessageDeserialize .little buf (okMessage 0) = .ok m ∧ m.timestamp ≠ timestamp

theorem timestampLost {timestamp : Timestamp} (h : BitVec.ofNat 64 (timestamp.toNat % 2 ^ 32) ≠ timestamp) :
    TimestampLost timestamp := by
  obtain ⟨buf, len, hser⟩ := exists_serialized_okMessage timestamp
  have hterm := terminated_okMessage timestamp
  obtain ⟨m, hm, -, -, hstamp⟩ := chatMessageDeserialize_serialized hterm hser (okMessage 0)
  refine ⟨hterm, buf, len, m, hser, hm, ?_⟩
  rwa [hstamp]

/-- A time before 1970 and one that needs 33 bits are lost. -/
theorem chat_roundTrip_lost : TimestampLost (-1) ∧ TimestampLost 0x100000000 :=
  ⟨timestampLost (by decide), timestampLost (by decide)⟩

/-! ## Well-formed frames -/

/-- A length counts the bytes of the string at the front of `rest`, through its first NUL, and is at
most the size of the string's field. -/
structure Counts (limit len : ℕ) (rest : Bytes) : Prop where
  nul : 0 ∈ rest
  len_eq : len = (cstr rest).length + 1
  le : len ≤ limit

/-- The two bytes at an index as a big-endian integer. -/
def textLenAt (f : Bytes) (i : ℕ) : ℕ := 256 * byteAt f i + byteAt f (i + 1)

/-- A frame of a type: its first four bytes are its length, its type byte is the type's, its length
fields count their strings, the high half of a timestamp is zero, and nothing follows the last
field. -/
def WellFormed (type : MessageType) (f : Bytes) : Prop :=
  announced f = f.length ∧ f[4]? = some type.code ∧
    match type with
    | .chat =>
      (f.drop 9).take 4 = [0, 0, 0, 0] ∧
        Counts nameSizeLimit (byteAt f 13) (f.drop 14) ∧
        Counts textSizeLimit (textLenAt f (14 + byteAt f 13)) (f.drop (16 + byteAt f 13)) ∧
        f.length = 16 + byteAt f 13 + textLenAt f (14 + byteAt f 13)
    | .name => Counts nameSizeLimit (byteAt f 5) (f.drop 6) ∧ f.length = 6 + byteAt f 5
    | .reply => Counts replySizeLimit (byteAt f 5) (f.drop 6) ∧ f.length = 6 + byteAt f 5
    | .join => f.length = 6
    | .invalid => False

/-! ### Reading a well-formed frame -/

theorem drop_eq_byteAt_cons {f : Bytes} {i : ℕ} (h : i < f.length) :
    f.drop i = UInt8.ofNat (byteAt f i) :: f.drop (i + 1) := by
  rw [List.drop_eq_getElem_cons h, byteAt, List.getD_eq_getElem?_getD, List.getElem?_eq_getElem h,
    Option.getD_some, UInt8.ofNat_toNat]

theorem drop_eq_take_append (f : Bytes) (i k : ℕ) : f.drop i = (f.drop i).take k ++ f.drop (i + k) := by
  rw [← List.drop_drop]
  exact (List.take_append_drop k (f.drop i)).symm

/-- A string that a length counts, and what is behind it. -/
theorem Counts.exists_string {limit len : ℕ} {rest : Bytes} (h : Counts limit len rest) :
    ∃ s, 0 ∉ s ∧ s.length < limit ∧ len = s.length + 1 ∧ rest = s ++ 0 :: rest.drop len := by
  have hle := h.le
  have hlen := h.len_eq
  refine ⟨cstr rest, nul_notMem_cstr rest, by omega, hlen, ?_⟩
  rw [hlen]
  exact eq_cstr_append h.nul

/-- A string that a length counts, with nothing behind it. -/
theorem Counts.exists_last {limit len : ℕ} {rest : Bytes} (h : Counts limit len rest)
    (hlast : rest.length = len) : ∃ s, 0 ∉ s ∧ s.length < limit ∧ len = s.length + 1 ∧ rest = s ++ [0] := by
  obtain ⟨s, h0, hlt, hlen, hrest⟩ := h.exists_string
  rw [List.drop_eq_nil_of_le hlast.le] at hrest
  exact ⟨s, h0, hlt, hlen, hrest⟩

/-- Behind the type byte of a frame is its body. -/
theorem eq_frame_drop {type : MessageType} {f : Bytes} (hlen : announced f = f.length)
    (htype : f[4]? = some type.code) : f = frame type (f.drop 5) := by
  obtain ⟨hlt, hcode⟩ := List.getElem?_eq_some_iff.1 htype
  have hfour : (f.take 4).length = 4 := by
    rw [List.length_take]
    omega
  have hheader : ByteOrder.big.store 4 f.length = f.take 4 := by
    have hstore := ByteOrder.big.store_load (f.take 4)
    rwa [hfour, ← announced, hlen] at hstore
  have hbody : (f.drop 5).length + 5 = f.length := by
    rw [List.length_drop]
    omega
  rw [frame, hbody, hheader, ← hcode, ← List.drop_eq_getElem_cons hlt, List.take_append_drop]

theorem exists_stringBody {limit : ℕ} {f : Bytes} (h : Counts limit (byteAt f 5) (f.drop 6))
    (hlast : f.length = 6 + byteAt f 5) :
    ∃ s, (0 ∉ s ∧ s.length < limit) ∧ f.drop 5 = stringBody s := by
  obtain ⟨s, h0, hlt, hlen, hrest⟩ := h.exists_last (by rw [List.length_drop]; omega)
  refine ⟨s, ⟨h0, hlt⟩, ?_⟩
  rw [drop_eq_byteAt_cons (by omega), hrest, hlen]
  rfl

theorem load_take_two {f : Bytes} {i : ℕ} (h : i + 2 ≤ f.length) :
    ByteOrder.big.load ((f.drop i).take 2) = textLenAt f i := by
  have htwo : ((f.drop i).take 2).length = 2 := by
    rw [List.length_take, List.length_drop]
    omega
  rw [← ntoh_load .little htwo]
  exact load_textLen .little (readBytes_eq_ok.2 ⟨h, rfl⟩)

/-- Two bytes of a frame are the big-endian representation of what they stand for. -/
theorem take_two_eq_store {f : Bytes} {i : ℕ} (h : i + 2 ≤ f.length) :
    (f.drop i).take 2 = ByteOrder.big.store 2 (textLenAt f i) := by
  have htwo : ((f.drop i).take 2).length = 2 := by
    rw [List.length_take, List.length_drop]
    omega
  have hstore := ByteOrder.big.store_load ((f.drop i).take 2)
  rw [htwo, load_take_two h] at hstore
  exact hstore.symm

/-- The eight bytes of a timestamp with a high half of zeros are a converted 32-bit number. -/
theorem exists_timestamp {f : Bytes} (hlen : 13 ≤ f.length) (hzero : (f.drop 9).take 4 = [0, 0, 0, 0]) :
    ∃ n < 2 ^ 32, f.drop 5 = ByteOrder.little.store 8 (hton .little 4 n) ++ f.drop 13 := by
  have hfour : ((f.drop 5).take 4).length = 4 := by
    rw [List.length_take, List.length_drop]
    omega
  have hbound := ByteOrder.big.load_lt ((f.drop 5).take 4)
  rw [hfour] at hbound
  refine ⟨ByteOrder.big.load ((f.drop 5).take 4), hbound, ?_⟩
  have hlow : ByteOrder.big.store 4 (ByteOrder.big.load ((f.drop 5).take 4)) = (f.drop 5).take 4 := by
    have hstore := ByteOrder.big.store_load ((f.drop 5).take 4)
    rwa [hfour] at hstore
  have hhigh : List.replicate 4 (0 : UInt8) = (f.drop 9).take 4 := hzero.symm
  rw [store_hton_wide 4 4, hlow, hhigh, List.append_assoc, ← drop_eq_take_append f 9 4,
    ← drop_eq_take_append f 5 4]

/-- A well-formed frame is the frame of a message whose strings and timestamp fit. -/
theorem WellFormed.exists_content {type : MessageType} {f : Bytes} (h : WellFormed type f) :
    ∃ c : Content, c.type = type ∧ c.Fits ∧ c.TimestampFits ∧ f = c.frame .little := by
  obtain ⟨hlen, htype, hfields⟩ := h
  have hframe := eq_frame_drop hlen htype
  cases type with
  | chat =>
    obtain ⟨hzero, hname, htext, hlast⟩ := hfields
    have hlong : 16 ≤ f.length := by omega
    obtain ⟨n, hn, htime⟩ := exists_timestamp (by omega) hzero
    obtain ⟨s, hs0, hs, hslen, hsrest⟩ := hname.exists_string
    obtain ⟨t, ht0, ht, htlen, htrest⟩ := htext.exists_last (by rw [List.length_drop]; omega)
    have hbody : f.drop 5 = chatBody .little n s t := by
      have htwo := take_two_eq_store (f := f) (i := 14 + byteAt f 13) (by omega)
      have hsplit : f.drop (14 + byteAt f 13) =
          ByteOrder.big.store 2 (t.length + 1) ++ f.drop (16 + byteAt f 13) := by
        rw [← htlen, ← htwo, show 16 + byteAt f 13 = 14 + byteAt f 13 + 2 by omega]
        exact drop_eq_take_append f _ 2
      rw [List.drop_drop, hsplit, htrest] at hsrest
      rw [htime, drop_eq_byteAt_cons (by omega : 13 < f.length), hsrest, hslen]
      rfl
    refine ⟨.chat (BitVec.ofNat 64 n) s t, rfl, ⟨⟨hs0, hs⟩, ht0, ht⟩, ?_, ?_⟩
    · have hnat : (BitVec.ofNat 64 n).toNat = n := by
        rw [BitVec.toNat_ofNat]
        omega
      show 0 ≤ (BitVec.ofNat 64 n).toInt ∧ (BitVec.ofNat 64 n).toInt < 2 ^ 32
      rw [BitVec.toInt_eq_toNat_of_lt (by omega), hnat]
      omega
    · rw [Content.frame, Content.body, BitVec.toNat_ofNat, show n % 2 ^ 64 % 2 ^ 32 = n by omega, ← hbody]
      exact hframe
  | name =>
    obtain ⟨s, hs, hbody⟩ := exists_stringBody hfields.1 hfields.2
    exact ⟨.name s, rfl, hs, trivial, by rw [Content.frame, Content.body, ← hbody]; exact hframe⟩
  | reply =>
    obtain ⟨s, hs, hbody⟩ := exists_stringBody hfields.1 hfields.2
    exact ⟨.reply s, rfl, hs, trivial, by rw [Content.frame, Content.body, ← hbody]; exact hframe⟩
  | join =>
    have hsix : f.length = 6 := hfields
    have hbody : f.drop 5 = joinBody (UInt8.ofNat (byteAt f 5)) := by
      rw [drop_eq_byteAt_cons (by omega), List.drop_eq_nil_of_le (by omega)]
      rfl
    exact ⟨.join _, rfl, trivial, trivial, by rw [Content.frame, Content.body, ← hbody]; exact hframe⟩
  | invalid => exact hfields.elim

/-! ### Frames are well-formed -/

theorem counts_append {limit : ℕ} {s : Bytes} (h0 : 0 ∉ s) (h : s.length < limit) (rest : Bytes) :
    Counts limit (s.length + 1) (s ++ 0 :: rest) := by
  refine ⟨by simp, ?_, h⟩
  rw [cstr_append_nul h0]

/-- Behind its length and its type byte a frame has its body. -/
theorem drop_frame (type : MessageType) (body : Bytes) : (frame type body).drop 5 = body := by
  have hcut : frame type body = (ByteOrder.big.store 4 (body.length + 5) ++ [type.code]) ++ body := by
    simp [frame]
  rw [hcut, List.drop_left' (by simp)]

/-- Behind a field is what follows it. -/
theorem drop_add_of_drop {f a b : Bytes} {i : ℕ} (h : f.drop i = a ++ b) : f.drop (i + a.length) = b := by
  rw [← List.drop_drop, h, List.drop_left]

theorem byteAt_of_drop {f rest : Bytes} {i : ℕ} {x : UInt8} (h : f.drop i = x :: rest) :
    byteAt f i = x.toNat := by
  have hx : f[i]? = some x := by
    rw [← Nat.add_zero i, ← List.getElem?_drop, h]
    rfl
  rw [byteAt, List.getD_eq_getElem?_getD, hx]
  rfl

theorem textLenAt_of_drop {f rest : Bytes} {i n : ℕ} (h : f.drop i = ByteOrder.big.store 2 n ++ rest)
    (hn : n < 2 ^ 16) : textLenAt f i = n := by
  have hlen := congrArg List.length h
  rw [List.length_drop, List.length_append, ByteOrder.length_store] at hlen
  rw [← load_take_two (by omega), h, List.take_left' (ByteOrder.length_store _ _ _)]
  exact ByteOrder.big.load_store_of_lt hn

theorem counts_stringFrame {limit : ℕ} (type : MessageType) {s : Bytes} (h0 : 0 ∉ s) (h : s.length < limit)
    (hlimit : limit ≤ 255) :
    Counts limit (byteAt (frame type (stringBody s)) 5) ((frame type (stringBody s)).drop 6) ∧
      (frame type (stringBody s)).length = 6 + byteAt (frame type (stringBody s)) 5 := by
  have hbody : (frame type (stringBody s)).drop 5 = UInt8.ofNat (s.length + 1) :: (s ++ [0]) :=
    drop_frame type _
  have hlen : byteAt (frame type (stringBody s)) 5 = s.length + 1 := by
    rw [byteAt_of_drop hbody]
    exact UInt8.toNat_ofNat_of_lt' (show s.length + 1 < 256 by omega)
  have hdrop : (frame type (stringBody s)).drop 6 = s ++ 0 :: [] := drop_add_of_drop (a := [_]) hbody
  rw [hlen, hdrop, length_frame, length_stringBody]
  exact ⟨counts_append h0 h [], by omega⟩

theorem wellFormed_chatFrame (n : ℕ) {s t : Bytes} (hs0 : 0 ∉ s) (hs : s.length < nameSizeLimit)
    (ht0 : 0 ∉ t) (ht : t.length < textSizeLimit) :
    let f := frame .chat (chatBody .little n s t)
    (f.drop 9).take 4 = [0, 0, 0, 0] ∧ Counts nameSizeLimit (byteAt f 13) (f.drop 14) ∧
      Counts textSizeLimit (textLenAt f (14 + byteAt f 13)) (f.drop (16 + byteAt f 13)) ∧
      f.length = 16 + byteAt f 13 + textLenAt f (14 + byteAt f 13) := by
  intro f
  have hs50 : s.length < 50 := hs
  have ht1000 : t.length < 1000 := ht
  -- What is left of the frame before each of its fields.
  have hstamp : f.drop 5 = (ByteOrder.big.store 4 n ++ [0, 0, 0, 0]) ++ UInt8.ofNat (s.length + 1) ::
      ((s ++ [0]) ++ (ByteOrder.big.store 2 (t.length + 1) ++ (t ++ [0]))) := by
    have hwide : ByteOrder.little.store 8 (hton .little 4 n) = ByteOrder.big.store 4 n ++ [0, 0, 0, 0] :=
      store_hton_wide 4 4 n
    rw [← hwide]
    exact (drop_frame .chat _).trans (by simp [chatBody])
  rw [List.append_assoc] at hstamp
  have hhigh : f.drop 9 = [0, 0, 0, 0] ++ _ := drop_add_of_drop hstamp
  have hname : f.drop 13 = UInt8.ofNat (s.length + 1) :: _ := drop_add_of_drop hhigh
  have hstring : f.drop 14 = (s ++ [0]) ++ _ := drop_add_of_drop (a := [_]) hname
  have htextLen : f.drop (14 + (s ++ [0]).length) = ByteOrder.big.store 2 (t.length + 1) ++ _ :=
    drop_add_of_drop hstring
  have htext : f.drop (14 + (s ++ [0]).length + 2) = t ++ [0] := by
    have hrest := drop_add_of_drop htextLen
    rwa [ByteOrder.length_store] at hrest
  have hnameAt : byteAt f 13 = s.length + 1 := by
    rw [byteAt_of_drop hname]
    exact UInt8.toNat_ofNat_of_lt' (show s.length + 1 < 256 by omega)
  have htextAt : textLenAt f (14 + (s.length + 1)) = t.length + 1 := by
    rw [List.length_append] at htextLen
    exact textLenAt_of_drop htextLen (by omega)
  rw [List.length_append, List.length_singleton, Nat.add_right_comm] at htext
  rw [List.append_assoc] at hstring
  rw [hnameAt, htextAt, hhigh, hstring, htext]
  refine ⟨rfl, counts_append hs0 hs _, counts_append ht0 ht _, ?_⟩
  show (frame .chat (chatBody .little n s t)).length = _
  rw [length_frame, length_chatBody]
  omega

/-- The frame of a message whose strings fit is well-formed. -/
theorem wellFormed_frame {c : Content} (h : c.Fits) : WellFormed c.type (c.frame .little) := by
  refine ⟨announced_frame .little h, getElem?_frame_type _ _, ?_⟩
  cases c with
  | chat timestamp s t => exact wellFormed_chatFrame _ h.1.1 h.1.2 h.2.1 h.2.2
  | name s => exact counts_stringFrame .name h.1 h.2 (by decide)
  | reply s => exact counts_stringFrame .reply h.1 h.2 (by decide)
  | join roomId => exact length_frame _ _

/-! ### Both directions -/

/-- On a little-endian host, decoding a well-formed frame of a type gives a message of this type, and
serializing the message gives the frame and its length again; what the serializers make of messages
whose strings are terminated is well-formed; and messages whose timestamps fit have different frames
when they say different things. -/
theorem reencode_frame (heap : Heap) :
    (∀ (type : MessageType) (f : Bytes) (locals : Locals), WellFormed type f →
      ∃ m, decodeFrame .little locals f = .ok (some m) ∧ m.content.type = type ∧
        m.serialize .little heap = .ok (if heap.serves f.length then some (f, f.length) else none)) ∧
    (∀ (msg : Message) (buf : Bytes) (len : ℕ), msg.Terminated →
      msg.serialize .little heap = .ok (some (buf, len)) →
        WellFormed msg.content.type buf ∧ len = buf.length) ∧
    ∀ (msg msg' : Message) (buf : Bytes) (len len' : ℕ), msg.Terminated → msg'.Terminated →
      msg.content.TimestampFits → msg'.content.TimestampFits →
      msg.serialize .little heap = .ok (some (buf, len)) →
      msg'.serialize .little heap = .ok (some (buf, len')) → msg.content = msg'.content := by
  have hbuf : ∀ {msg : Message} {buf : Bytes} {len : ℕ}, msg.Terminated →
      msg.serialize .little heap = .ok (some (buf, len)) →
        buf = msg.content.frame .little ∧ len = buf.length := by
    intro msg buf len hterm hser
    rw [serialize_eq .little heap msg hterm] at hser
    split at hser
    · cases hser
      exact ⟨rfl, rfl⟩
    · cases hser
  refine ⟨?_, ?_, ?_⟩
  · intro type f locals h
    obtain ⟨c, rfl, hfits, hstamp, rfl⟩ := h.exists_content
    obtain ⟨m, hm, hterm, rfl⟩ := decodeFrame_frame .little locals hfits hstamp
    exact ⟨m, hm, rfl, serialize_eq .little heap m hterm⟩
  · intro msg buf len hterm hser
    obtain ⟨rfl, hlen⟩ := hbuf hterm hser
    exact ⟨wellFormed_frame hterm.fits, hlen⟩
  · intro msg msg' buf len len' hterm hterm' hstamp hstamp' hser hser'
    obtain ⟨hframe, -⟩ := hbuf hterm hser
    obtain ⟨hframe', -⟩ := hbuf hterm' hser'
    -- One frame decodes to what both messages say.
    obtain ⟨m, hm, -, hcontent⟩ := decodeFrame_frame .little (.filled 0) hterm.fits hstamp
    obtain ⟨m', hm', -, hcontent'⟩ := decodeFrame_frame .little (.filled 0) hterm'.fits hstamp'
    rw [← hframe, hframe', hm', Except.ok.injEq, Option.some.injEq] at hm
    rw [← hcontent, ← hm, hcontent']

/-- The frame of the name `"B"` is decoded and serialized again. -/
theorem reencode_frame_name : ∃ m, decodeFrame .little (.filled 1) [0, 0, 0, 8, 1, 2, 66, 0] = .ok (some m) ∧
    m.content.type = .name ∧
      m.serialize .little .steady = .ok (some ([0, 0, 0, 8, 1, 2, 66, 0], 8)) :=
  (reencode_frame .steady).1 .name [0, 0, 0, 8, 1, 2, 66, 0] (.filled 1)
    ⟨by decide, rfl, ⟨by decide, by decide, by decide⟩, by decide⟩

end ChatRooms
