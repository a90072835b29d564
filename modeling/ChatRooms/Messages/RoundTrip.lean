import ChatRooms.Messages.Deserialize

/-!
# Round trips of single messages

Decoding the frame of a message whose strings fit gives back what the message says, whatever the
local struct held before.  A chat timestamp survives modulo `2 ^ 32`, so exactly when it lies in
`[0, 2 ^ 32)`.
-/

namespace ChatRooms

theorem stringMessageDeserialize_frame {n : ℕ} (type : MessageType) {s : Bytes}
    (field : CArray UInt8 n) (hn : n ≤ 255) (h0 : 0 ∉ s) (hl : s.length < n) :
    ∃ v, stringMessageDeserialize (frame type (stringBody s)) field = .ok v ∧ Terminated v ∧
      cstr v.toList = s := by
  have hlen : (UInt8.ofNat (s.length + 1)).toNat = s.length + 1 := by
    rw [UInt8.toNat_ofNat']
    omega
  have hframe : frame type (stringBody s) = (ByteOrder.big.store 4 ((stringBody s).length + 5) ++
      [type.code, UInt8.ofNat (s.length + 1)]) ++ ((s ++ [0]) ++ []) := by
    simp [frame, stringBody]
  have hbyte : readByte (frame type (stringBody s)) 5 = .ok (UInt8.ofNat (s.length + 1)) := by
    have : frame type (stringBody s) = (ByteOrder.big.store 4 ((stringBody s).length + 5) ++
        [type.code]) ++ UInt8.ofNat (s.length + 1) :: (s ++ [0]) := by
      simp [frame, stringBody]
    rw [this, readByte_append_right (by simp)]
  obtain ⟨v, hv, ht⟩ := memcpyInto_append field 6 (s.length + 1) (b := [])
    (a := ByteOrder.big.store 4 ((stringBody s).length + 5) ++ [type.code, UInt8.ofNat (s.length + 1)])
    (x := s ++ [0]) (by simp) (by simp) hl
  rw [List.append_assoc, List.singleton_append] at ht
  refine ⟨v, ?_, cstr_of_toList_eq h0 ht⟩
  simp only [stringMessageDeserialize, sizeofTotalMsgLen, sizeofMsgType, sizeofNameLen,
    Nat.reduceAdd, hbyte, Checked.ok_bind, hlen]
  rw [hframe, hv]

theorem joinMessageDeserialize_frame (roomId : UInt8) (msg : JoinMessage) :
    joinMessageDeserialize (frame .join (joinBody roomId)) msg = .ok ⟨roomId⟩ := by
  have hbyte : readByte (frame .join (joinBody roomId)) 5 = .ok roomId := by
    have : frame .join (joinBody roomId) =
        (ByteOrder.big.store 4 6 ++ [MessageType.join.code]) ++ roomId :: [] := by
      simp [frame, joinBody]
    rw [this, readByte_append_right (by simp)]
  simp only [joinMessageDeserialize, sizeofTotalMsgLen, sizeofMsgType, Nat.reduceAdd, hbyte,
    Checked.ok_bind, Checked.pure_eq_ok]

theorem chatMessageDeserialize_frame (host : ByteOrder) (timestamp : ℕ) {s t : Bytes}
    (msg : ChatMessage) (hts : timestamp < 2 ^ 32) (hs0 : 0 ∉ s) (hsl : s.length < nameSizeLimit)
    (ht0 : 0 ∉ t) (htl : t.length < textSizeLimit) :
    ∃ m, chatMessageDeserialize host (frame .chat (chatBody host timestamp s t)) msg = .ok m ∧
      m.timestamp = BitVec.ofNat 64 timestamp ∧ (Terminated m.name ∧ cstr m.name.toList = s) ∧
      Terminated m.text ∧ cstr m.text.toList = t := by
  have hsl' : s.length < 50 := hsl
  have htl' : t.length < 1000 := htl
  -- The frame, cut before each of the fields that are read.
  let total := ByteOrder.big.store 4 ((chatBody host timestamp s t).length + 5)
  let ts := host.store 8 (hton host 4 timestamp)
  let nameLen := UInt8.ofNat (s.length + 1)
  let textLen := ByteOrder.big.store 2 (t.length + 1)
  have cut1 : frame .chat (chatBody host timestamp s t) = (total ++ [MessageType.chat.code]) ++
      (ts ++ (nameLen :: (s ++ [0] ++ textLen ++ (t ++ [0])))) := by
    simp [frame, chatBody, total, ts, nameLen, textLen]
  have cut2 : frame .chat (chatBody host timestamp s t) = (total ++ MessageType.chat.code :: ts) ++
      nameLen :: (s ++ [0] ++ textLen ++ (t ++ [0])) := by
    simp [cut1]
  have cut3 : frame .chat (chatBody host timestamp s t) =
      (total ++ MessageType.chat.code :: ts ++ [nameLen]) ++ ((s ++ [0]) ++ (textLen ++ (t ++ [0]))) := by
    simp [cut1]
  have cut4 : frame .chat (chatBody host timestamp s t) =
      (total ++ MessageType.chat.code :: ts ++ [nameLen] ++ (s ++ [0])) ++ (textLen ++ (t ++ [0])) := by
    simp [cut1]
  have cut5 : frame .chat (chatBody host timestamp s t) =
      (total ++ MessageType.chat.code :: ts ++ [nameLen] ++ (s ++ [0]) ++ textLen) ++
        ((t ++ [0]) ++ []) := by
    simp [cut1]
  have hnameLen : nameLen.toNat = s.length + 1 := by
    rw [UInt8.toNat_ofNat']
    omega
  have e1 : readBytes (frame .chat (chatBody host timestamp s t)) 5 8 = .ok ts := by
    rw [cut1, readBytes_append (by simp [total]) (by simp [ts])]
  have e2 : readByte (frame .chat (chatBody host timestamp s t)) 13 = .ok nameLen := by
    rw [cut2, readByte_append_right (by simp [total, ts])]
  obtain ⟨name, e3, hname⟩ := memcpyInto_append msg.name 14 (s.length + 1)
    (a := total ++ MessageType.chat.code :: ts ++ [nameLen]) (x := s ++ [0])
    (b := textLen ++ (t ++ [0])) (by simp [total, ts]) (by simp) hsl
  rw [← cut3] at e3
  have e4 : readBytes (frame .chat (chatBody host timestamp s t)) (14 + (s.length + 1)) 2 =
      .ok textLen := by
    rw [cut4, readBytes_append (by simp [total, ts]; omega) (by simp [textLen])]
  obtain ⟨text, e5, htext⟩ := memcpyInto_append msg.text (14 + (s.length + 1) + 2)
    (t.length + 1)
    (a := total ++ MessageType.chat.code :: ts ++ [nameLen] ++ (s ++ [0]) ++ textLen)
    (x := t ++ [0]) (b := []) (by simp [total, ts, textLen]; omega) (by simp) htl
  rw [← cut5] at e5
  have hwide : hton host 4 timestamp < 2 ^ 32 := hton_lt host 4 timestamp
  have hstamp : ntoh host 4 (host.load ts % 2 ^ 32) = timestamp := by
    rw [ByteOrder.load_store_of_lt _ (by omega), Nat.mod_eq_of_lt hwide, ntoh_hton host hts]
  have htextLen : ntoh host 2 (host.load textLen) = t.length + 1 := by
    rw [ntoh_load host (by simp [textLen]), ByteOrder.load_store_of_lt _ (by omega)]
  rw [List.append_assoc, List.singleton_append] at hname htext
  refine ⟨⟨BitVec.ofNat 64 timestamp, name, text⟩, ?_, rfl, cstr_of_toList_eq hs0 hname,
    cstr_of_toList_eq ht0 htext⟩
  simp only [chatMessageDeserialize, sizeofTotalMsgLen, sizeofMsgType, sizeofNameLen,
    sizeofTimestamp, sizeofTextLen, Nat.reduceAdd, e1, e2, Checked.ok_bind, hnameLen, e3, e4,
    htextLen, e5, hstamp, Checked.pure_eq_ok]

/-- A timestamp in `[0, 2 ^ 32)` is the one its low four bytes stand for. -/
theorem ofNat_toNat_mod_of_fits {timestamp : Timestamp}
    (h : 0 ≤ timestamp.toInt ∧ timestamp.toInt < 2 ^ 32) :
    BitVec.ofNat 64 (timestamp.toNat % 2 ^ 32) = timestamp := by
  have hlt := timestamp.isLt
  rw [BitVec.toInt_eq_toNat_cond] at h
  have : timestamp.toNat < 2 ^ 32 := by
    split at h <;> omega
  rw [Nat.mod_eq_of_lt this, BitVec.ofNat_toNat, BitVec.setWidth_eq]

/-- Decoding the frame of a message gives back what the message says, for any previous contents of
the local it is decoded into. -/
theorem decodeFrame_frame (host : ByteOrder) (locals : Locals) {c : Content} (hfits : c.Fits)
    (hts : c.TimestampFits) :
    ∃ m, decodeFrame host locals (c.frame host) = .ok (some m) ∧ m.Terminated ∧ m.content = c := by
  rw [decodeFrame, Content.frame, getMessageType_frame, Checked.ok_bind]
  cases c with
  | chat timestamp s t =>
    obtain ⟨m, hm, hstamp, ⟨hn, hs⟩, ht, hc⟩ := chatMessageDeserialize_frame host
      (timestamp.toNat % 2 ^ 32) locals.chat (by omega) hfits.1.1 hfits.1.2 hfits.2.1 hfits.2.2
    refine ⟨.chat m, ?_, ⟨hn, ht⟩, ?_⟩
    · simp only [Content.type, Content.body, hm, Checked.ok_bind, Checked.pure_eq_ok]
    · rw [Message.content, hstamp, hs, hc, ofNat_toNat_mod_of_fits hts]
  | name s =>
    obtain ⟨v, hv, ht, hc⟩ := stringMessageDeserialize_frame .name locals.name.name (by decide)
      hfits.1 hfits.2
    refine ⟨.name ⟨v⟩, ?_, ht, by rw [Message.content, hc]⟩
    simp only [Content.type, Content.body, nameMessageDeserialize, hv, Checked.ok_bind,
      Checked.pure_eq_ok]
  | join roomId =>
    refine ⟨.join ⟨roomId⟩, ?_, trivial, rfl⟩
    simp only [Content.type, Content.body, joinMessageDeserialize_frame, Checked.ok_bind,
      Checked.pure_eq_ok]
  | reply s =>
    obtain ⟨v, hv, ht, hc⟩ := stringMessageDeserialize_frame .reply locals.reply.reply (by decide)
      hfits.1 hfits.2
    refine ⟨.reply ⟨v⟩, ?_, ht, by rw [Message.content, hc]⟩
    simp only [Content.type, Content.body, replyMessageDeserialize, hv, Checked.ok_bind,
      Checked.pure_eq_ok]

end ChatRooms
