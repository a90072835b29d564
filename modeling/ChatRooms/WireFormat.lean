import ChatRooms.Canonical

/-!
# The wire format of the header files

The headers of the four message types list the fields of a frame with their widths, in network byte
order.  The frames of name, join and reply messages are these on every host.  A chat frame is another
one: its timestamp has eight bytes instead of four, and they come in an order that depends on the host.

* `Content.documented` is the frame as the headers describe it;
* `portable_iff`: exactly the frames that are not chat frames are the documented ones, on both hosts;
* `chatBody_eq_iff`: the two hosts make the same chat frame only at the time 0.
-/

namespace ChatRooms

/-- The fields behind the type byte, as the headers list them; strings are counted and sent with their
NULs. -/
def Content.documentedBody : Content → Bytes
  | .chat timestamp s t =>
    ByteOrder.big.store 4 timestamp.toNat ++
      (UInt8.ofNat (s.length + 1) ::
        (s ++ 0 :: (ByteOrder.big.store 2 (t.length + 1) ++ (t ++ [0]))))
  | .name s => UInt8.ofNat (s.length + 1) :: (s ++ [0])
  | .join roomId => [roomId]
  | .reply s => UInt8.ofNat (s.length + 1) :: (s ++ [0])

/-- The frame of a message as the headers describe it. -/
def Content.documented (c : Content) : Bytes :=
  ByteOrder.big.store 4 (4 + 1 + c.documentedBody.length) ++ (c.type.code :: c.documentedBody)

/-- Every host serializes the message to the documented frame, and every host decodes what any host has
made of it. -/
structure Portable (msg : Message) : Prop where
  documented : ∀ host heap, msg.serialize host heap =
    .ok (if heap.serves msg.content.documented.length then
      some (msg.content.documented, msg.content.documented.length) else none)
  decoded : ∀ host host' heap locals buf len, msg.serialize host heap = .ok (some (buf, len)) →
    ∃ m, decodeFrame host' locals buf = .ok (some m) ∧ m.content = msg.content

/-! ## Messages without a timestamp -/

theorem documented_eq_frame {c : Content} (h : c.type ≠ .chat) (host : ByteOrder) :
    c.documented = c.frame host := by
  have hbody : c.documentedBody = c.body host := by
    cases c with
    | chat timestamp s t => exact absurd rfl h
    | name s => rfl
    | join roomId => rfl
    | reply s => rfl
  rw [Content.documented, Content.frame, frame, hbody, Nat.add_comm]

theorem portable_of_no_timestamp {msg : Message} (hterm : msg.Terminated) (h : msg.content.type ≠ .chat) :
    Portable msg where
  documented := by
    intro host heap
    rw [documented_eq_frame h host]
    exact serialize_eq host heap msg hterm
  decoded := by
    intro host host' heap locals buf len hser
    have hstamp : msg.content.TimestampFits := by
      cases msg with
      | chat msg => exact absurd rfl h
      | name msg => trivial
      | join msg => trivial
      | reply msg => trivial
    obtain ⟨m, hm, -, hcontent⟩ := decodeFrame_frame host' locals hterm.fits hstamp
    rw [serialize_eq host heap msg hterm] at hser
    split at hser
    · cases hser
      rw [← documented_eq_frame h host, documented_eq_frame h host']
      exact ⟨m, hm, hcontent⟩
    · cases hser

/-! ## Chat messages -/

/-- The frame of a chat message is four bytes longer than the documented one. -/
theorem length_chat_frame (host : ByteOrder) (timestamp : Timestamp) (s t : Bytes) :
    ((Content.chat timestamp s t).frame host).length = (Content.chat timestamp s t).documented.length + 4 := by
  simp [Content.frame, Content.documented, Content.documentedBody, Content.body]
  omega

/-- A little-endian and a big-endian host make the same frame of a chat message only at the time 0. -/
theorem chatBody_eq_iff {n : ℕ} (h : n < 2 ^ 32) (s t : Bytes) :
    chatBody .little n s t = chatBody .big n s t ↔ n = 0 := by
  have hlittle : ByteOrder.little.store 8 (hton .little 4 n) =
      ByteOrder.big.store 4 n ++ [0, 0, 0, 0] := store_hton_wide 4 4 n
  have hbig : ByteOrder.big.store 8 (hton .big 4 n) = [0, 0, 0, 0] ++ ByteOrder.big.store 4 n :=
    store_wide_big 4 h
  unfold chatBody
  rw [List.append_cancel_right_eq, hlittle, hbig]
  constructor
  · intro heq
    have hzero := (List.append_inj heq (ByteOrder.length_store _ _ _)).1
    rw [← ByteOrder.big.load_store_of_lt (show n < 256 ^ 4 from h), hzero]
    rfl
  · rintro rfl
    rfl

/-- The serialized bytes are the documented ones and the same on every host, and every host decodes them,
exactly for the messages that are not chat messages. -/
theorem portable_iff {msg : Message} (hterm : msg.Terminated) : Portable msg ↔ msg.content.type ≠ .chat := by
  refine ⟨fun h => ?_, portable_of_no_timestamp hterm⟩
  have hdocumented := h.documented .little .steady
  rw [serialize_eq .little .steady msg hterm] at hdocumented
  have hlen : (msg.content.frame .little).length = msg.content.documented.length :=
    congrArg Prod.snd (Option.some.inj (Except.ok.inj hdocumented))
  cases msg with
  | chat msg =>
    rw [Message.content, length_chat_frame] at hlen
    omega
  | name msg => exact fun htype => by cases htype
  | join msg => exact fun htype => by cases htype
  | reply msg => exact fun htype => by cases htype

/-- The name "Bob" is the same nine bytes everywhere. -/
theorem portable_iff_name : Portable (.name ⟨.ofString [66, 111, 98] (by decide)⟩) :=
  have hname := cstr_ofString (t := [66, 111, 98]) (n := nameSizeLimit) (by decide) (by decide)
  (portable_iff (show Message.Terminated (.name ⟨.ofString [66, 111, 98] (by decide)⟩) from hname.1)).2
    fun htype => by cases htype

/-- A message one second after the beginning of time. -/
def firstSecond : Message := .chat (okMessage 1)

/-- Two hosts make different frames of a chat message, none of them the documented one; and a big-endian
host reads the time 0 in the frame of a little-endian one. -/
theorem chat_not_portable : firstSecond.Terminated ∧ firstSecond.content.TimestampFits ∧
    ∃ little big m,
      firstSecond.serialize .little .steady = .ok (some (little, 21)) ∧
      firstSecond.serialize .big .steady = .ok (some (big, 21)) ∧
      little ≠ big ∧ little ≠ firstSecond.content.documented ∧ big ≠ firstSecond.content.documented ∧
      decodeFrame .big (.filled 0) little = .ok (some (.chat m)) ∧ m.timestamp = 0 ∧
      ¬ Portable firstSecond := by
  have hterm : firstSecond.Terminated := terminated_okMessage 1
  have hcontent : firstSecond.content = .chat 1 [66] [111, 107] := by
    have name := cstr_ofString (t := [66]) (n := nameSizeLimit) (by decide) (by decide)
    have text := cstr_ofString (t := [111, 107]) (n := textSizeLimit) (by decide) (by decide)
    rw [firstSecond, okMessage, Message.content, name.2, text.2]
  have hserialize (host : ByteOrder) :
      firstSecond.serialize host .steady = .ok (some ((Content.chat 1 [66] [111, 107]).frame host, 21)) := by
    have hlen : ((Content.chat 1 [66] [111, 107]).frame host).length = 21 := length_chat_frame host 1 _ _
    rw [serialize_eq host .steady firstSecond hterm, hcontent, hlen]
    rfl
  rw [hcontent]
  refine ⟨hterm, ⟨by decide, by decide⟩, _, _, _, hserialize .little, hserialize .big, by decide, by decide, by decide,
    rfl, by decide, fun h => ?_⟩
  have hdocumented := h.documented .little .steady
  rw [hserialize .little, hcontent] at hdocumented
  cases hdocumented

end ChatRooms
