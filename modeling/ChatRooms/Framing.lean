import ChatRooms.Net

/-!
# Message streams

A connection carries messages one frame after another.  The sender serializes each message and
passes it to `sendall`; the receiver repeats `recvall`, `get_message_type` and the deserializer of
that type.  `framing_roundTrip` is the round trip of a whole stream under every segmentation that
leaves headers whole, and `decode_inside_iff` says for which received blocks decoding stays inside
the block and the destination.
-/

namespace ChatRooms

/-- Serializes messages and sends them one after another; `none` when a serializer or `sendall` returned -1, or
`SIGPIPE` ended the process. -/
def sendMessages (host : ByteOrder) (heap : ℕ → Heap) (answer : ℕ → ℕ → SendAnswer) :
    ℕ → List Message → Checked (Option Bytes)
  | _, [] => return some []
  | j, msg :: msgs => do
    match ← msg.serialize host (heap j) with
    | none => return none
    | some (buf, len) =>
      match sendall (answer j) buf len with
      | (_, none) => return none
      | (sent, some _) =>
        let rest ← sendMessages host heap answer (j + 1) msgs
        return rest.map (sent ++ ·)

/-- Receives up to `n` messages, each with the value `recvall` returned for it, and leaves the rest
of the stream; stops early when `recvall` hands over no message. -/
def receiveMessages (host : ByteOrder) (env : ℕ → RecvEnv) (locals : ℕ → Locals) :
    ℕ → ℕ → Stream → Checked (List (ℕ × Message) × Stream)
  | 0, _, s => return ([], s)
  | n + 1, j, s =>
    match recvall (env j) s with
    | (.message buf recvd, s) => do
      match ← decodeFrame host (locals j) buf with
      | none => return ([], s)
      | some msg =>
        let (msgs, s) ← receiveMessages host env locals n (j + 1) s
        return ((recvd, msg) :: msgs, s)
    | (_, s) => return ([], s)

/-! ## Frames on a stream -/

theorem length_body_le (host : ByteOrder) {c : Content} (h : c.Fits) : (c.body host).length ≤ 1100 := by
  cases c with
  | chat timestamp s t =>
    have h1 : s.length < 50 := h.1.2
    have h2 : t.length < 1000 := h.2.2
    rw [Content.body, length_chatBody]
    omega
  | name s =>
    have h1 : s.length < 50 := h.2
    rw [Content.body, length_stringBody]
    omega
  | join roomId =>
    rw [Content.body, joinBody, List.length_singleton]
    omega
  | reply s =>
    have h1 : s.length < 100 := h.2
    rw [Content.body, length_stringBody]
    omega

theorem announced_frame (host : ByteOrder) {c : Content} (h : c.Fits) :
    announced (c.frame host) = (c.frame host).length := by
  have hle := length_body_le host h
  rw [announced, Content.frame, take_four_frame, ByteOrder.load_store_of_lt]
  rw [length_frame]
  omega

theorem five_le_length_frame (host : ByteOrder) (c : Content) : 5 ≤ (c.frame host).length := by
  rw [Content.frame, length_frame]
  omega

theorem length_frame_pos (host : ByteOrder) (c : Content) : 0 < (c.frame host).length :=
  Nat.lt_of_lt_of_le (by decide) (five_le_length_frame host c)

/-- `recvall` takes exactly the frame at the head of the stream. -/
theorem recvall_frame {env : RecvEnv} (host : ByteOrder) {c : Content} (h : c.Fits)
    (hserves : env.Serves (c.frame host).length) (hwhole : env.WholeHeader) (tail : Bytes)
    (ending : StreamEnd) :
    recvall env ⟨c.frame host ++ tail, ending⟩ =
      (.message (c.frame host) (c.frame host).length, ⟨tail, ending⟩) := by
  have hlen := five_le_length_frame host c
  have hann : announced (c.frame host ++ tail) = (c.frame host).length := by
    rw [announced_append (by omega), announced_frame host h]
  rw [recvall_of_whole_header (by simp only [List.length_append]; omega) (by rw [hann]; exact hserves)
    hwhole, Stream.outcome, hann, if_neg (by omega), if_pos (by simp)]
  simp

/-- `recvall` on a frame that was cut off behind its header ends as the stream does. -/
theorem recvall_cut {env : RecvEnv} (host : ByteOrder) {c : Content} (h : c.Fits)
    (hserves : env.Serves (c.frame host).length) (hwhole : env.WholeHeader) {part : Bytes}
    (hpart : part <+: c.frame host) (hcut : part ≠ c.frame host) (hheader : 4 ≤ part.length)
    (ending : StreamEnd) :
    recvall env ⟨part, ending⟩ = (ending.outcome, ⟨[], ending⟩) := by
  obtain ⟨rest, hrest⟩ := hpart
  have hne : rest ≠ [] := by
    rintro rfl
    exact hcut (by rw [← hrest, List.append_nil])
  have hlt : part.length < (c.frame host).length := by
    rw [← hrest, List.length_append]
    have := List.length_pos_iff.2 hne
    omega
  have hann : announced part = (c.frame host).length := by
    rw [← announced_frame host h, ← hrest, announced_append hheader]
  rw [recvall_of_whole_header hheader (by rw [hann]; exact hserves) hwhole, Stream.outcome]
  simp only [hann]
  rw [if_neg (by omega), if_neg (by omega)]

/-! ## Streams of messages -/

/-- The frames of messages, one after another. -/
def wire (host : ByteOrder) (msgs : List Message) : Bytes :=
  (msgs.map fun msg => msg.content.frame host).flatten

theorem sendMessages_eq (host : ByteOrder) {heap : ℕ → Heap}
    (hheap : ∀ j n, 0 < n → (heap j).serves n = true) (accept : ℕ → ℕ → ℕ) {msgs : List Message}
    (hterm : ∀ msg ∈ msgs, msg.Terminated) (j : ℕ) :
    sendMessages host heap (fun i call => .accepted (accept i call)) j msgs =
      .ok (some (wire host msgs)) := by
  induction msgs generalizing j with
  | nil => rfl
  | cons msg msgs ih =>
    have haccepted : ∀ call, (SendAnswer.accepted (accept j call)).Accepted := fun _ => trivial
    have hsend := sendall_of_accepted haccepted (msg.content.frame host)
    rw [sendMessages, serialize_eq host (heap j) msg (hterm msg List.mem_cons_self),
      if_pos (hheap j _ (length_frame_pos host _)), Checked.ok_bind]
    dsimp only
    rw [hsend]
    dsimp only
    rw [ih (fun m hm => hterm m (List.mem_cons_of_mem _ hm))]
    rfl

theorem receiveMessages_wire (host : ByteOrder) {env : ℕ → RecvEnv}
    (hserves : ∀ j n, 0 < n → (env j).Serves n) (hwhole : ∀ j, (env j).WholeHeader) (locals : ℕ → Locals)
    {msgs : List Message} (hterm : ∀ msg ∈ msgs, msg.Terminated)
    (hstamp : ∀ msg ∈ msgs, msg.content.TimestampFits) (tail : Bytes) (ending : StreamEnd) (j : ℕ) :
    ∃ got, receiveMessages host env locals msgs.length j ⟨wire host msgs ++ tail, ending⟩ =
        .ok (got, ⟨tail, ending⟩) ∧
      got.map (fun r => r.2.content) = msgs.map Message.content ∧
      got.map Prod.fst = msgs.map fun msg => (msg.content.frame host).length := by
  induction msgs generalizing j with
  | nil => exact ⟨[], rfl, rfl, rfl⟩
  | cons msg msgs ih =>
    have hfits := (hterm msg List.mem_cons_self).fits
    obtain ⟨m, hm, -, hcontent⟩ := decodeFrame_frame host (locals j) hfits
      (hstamp msg List.mem_cons_self)
    obtain ⟨got, hgot, hcontents, hlengths⟩ := ih (fun m hm => hterm m (List.mem_cons_of_mem _ hm))
      (fun m hm => hstamp m (List.mem_cons_of_mem _ hm)) (j + 1)
    have hwire : wire host (msg :: msgs) ++ tail =
        msg.content.frame host ++ (wire host msgs ++ tail) := by
      simp [wire]
    refine ⟨((msg.content.frame host).length, m) :: got, ?_, ?_, ?_⟩
    · rw [List.length_cons, receiveMessages, hwire, recvall_frame host hfits
        (hserves j _ (length_frame_pos host _)) (hwhole j)]
      dsimp only
      rw [hm, Checked.ok_bind]
      dsimp only
      rw [hgot]
      rfl
    · rw [List.map_cons, List.map_cons, hcontents, hcontent]
    · rw [List.map_cons, List.map_cons, hlengths]

/-- Any list of messages, serialized and sent with any partial sends, is received again with any
partial receives that leave headers whole: the same messages in the same order, each `recvall`
returning the length of one frame and leaving what follows it on the stream.  A stream that is
closed inside a frame, behind its header, gives 0 and nothing of that frame. -/
theorem framing_roundTrip (host : ByteOrder) (msgs : List Message)
    (hterm : ∀ msg ∈ msgs, msg.Terminated) (hstamp : ∀ msg ∈ msgs, msg.content.TimestampFits)
    (heap : ℕ → Heap) (hheap : ∀ j n, 0 < n → (heap j).serves n = true) (accept : ℕ → ℕ → ℕ)
    (env : ℕ → RecvEnv) (hserves : ∀ j n, 0 < n → (env j).Serves n) (hwhole : ∀ j, (env j).WholeHeader)
    (locals : ℕ → Locals) :
    ∃ wire, sendMessages host heap (fun j call => .accepted (accept j call)) 0 msgs = .ok (some wire) ∧
      (∀ tail ending, ∃ got,
        receiveMessages host env locals msgs.length 0 ⟨wire ++ tail, ending⟩ =
          .ok (got, ⟨tail, ending⟩) ∧
        got.map (fun r => r.2.content) = msgs.map Message.content ∧
        got.map Prod.fst = msgs.map fun msg => (msg.content.frame host).length) ∧
      ∀ next : Message, next.Terminated → ∀ part, part <+: next.content.frame host →
        part ≠ next.content.frame host → 4 ≤ part.length →
        ∀ j, recvall (env j) ⟨part, .closed⟩ = (.closed, ⟨[], .closed⟩) := by
  refine ⟨wire host msgs, sendMessages_eq host hheap accept hterm 0, fun tail ending => ?_, ?_⟩
  · exact receiveMessages_wire host hserves hwhole locals hterm hstamp tail ending 0
  · intro next hnext part hpart hcut hheader j
    exact recvall_cut host hnext.fits (hserves j _ (length_frame_pos host _)) (hwhole j) hpart hcut hheader .closed

/-- Four messages, one of each kind, sent byte by byte and received in pieces of at most seven
bytes, into locals that hold no NUL. -/
theorem framing_roundTrip_four :
    ∃ wire got,
      sendMessages .little (fun _ => .steady) (fun _ _ => .accepted 1) 0
        [.chat ⟨5, .ofString [] (by decide), .ofString [72, 105] (by decide)⟩,
          .name ⟨.ofString [66] (by decide)⟩, .join ⟨3⟩, .reply ⟨.ofString [111, 107] (by decide)⟩] =
        .ok (some wire) ∧
      receiveMessages .little
        (fun _ => .steady 7) (fun _ => .filled 1) 4 0 ⟨wire ++ [], .closed⟩ = .ok (got, ⟨[], .closed⟩) ∧
      got.map (fun r => r.2.content) =
        [.chat 5 [] [72, 105], .name [66], .join 3, .reply [111, 107]] := by
  have chat := cstr_ofString (t := []) (n := nameSizeLimit) (by decide) (by decide)
  have text := cstr_ofString (t := [72, 105]) (n := textSizeLimit) (by decide) (by decide)
  have name := cstr_ofString (t := [66]) (n := nameSizeLimit) (by decide) (by decide)
  have reply := cstr_ofString (t := [111, 107]) (n := replySizeLimit) (by decide) (by decide)
  obtain ⟨wire, hsend, hrecv, -⟩ := framing_roundTrip .little
    [.chat ⟨5, .ofString [] (by decide), .ofString [72, 105] (by decide)⟩,
      .name ⟨.ofString [66] (by decide)⟩, .join ⟨3⟩, .reply ⟨.ofString [111, 107] (by decide)⟩]
    (by simpa [Message.Terminated] using ⟨⟨chat.1, text.1⟩, name.1, reply.1⟩)
    (by simp [Message.content, Content.TimestampFits])
    (fun _ => .steady) (fun _ _ hn => decide_eq_true hn) (fun _ _ => 1)
    (fun _ => .steady 7) (fun _ _ hn => ⟨rfl, decide_eq_true hn⟩) (fun _ => by decide) (fun _ => .filled 1)
  obtain ⟨got, hgot, hcontents, -⟩ := hrecv [] .closed
  refine ⟨wire, got, hsend, hgot, hcontents.trans ?_⟩
  simp [Message.content, chat.2, text.2, name.2, reply.2]

/-! ## Decoding what `recvall` hands over -/

/-- For every block `recvall` hands over, reading its type and decoding it reads only inside the
block and fills only the fields, exactly when the block holds a type byte, the lengths it carries
count bytes of the block, and none exceeds its field. -/
theorem decode_inside_iff (host : ByteOrder) (locals : Locals) (env : RecvEnv) (s rest : Stream)
    (buf : Bytes) (recvd : ℕ) (_ : recvall env s = (.message buf recvd, rest)) :
    (decodeFrame host locals buf).Safe ↔ FieldsInBounds buf :=
  decodeFrame_safe host locals buf

/-- A join frame received in one piece decodes inside its six bytes. -/
theorem decode_inside_iff_join :
    (decodeFrame .little (.filled 1) [0, 0, 0, 6, 3, 2]).Safe ↔ FieldsInBounds [0, 0, 0, 6, 3, 2] :=
  decode_inside_iff .little _ (.steady 6) ⟨[0, 0, 0, 6, 3, 2], .open⟩ ⟨[], .open⟩ _ 6 (by decide)

/-- A bare header of length 4 is handed over as a block without a type byte; the name length of a
nine-byte frame reaches behind the block; and a name of 51 bytes, all of them in the block, does not
fit its field. -/
theorem decode_leaves_block :
    (recvall (.steady 4) ⟨[0, 0, 0, 4], .open⟩ = (.message [0, 0, 0, 4] 4, ⟨[], .open⟩) ∧
      ¬ (decodeFrame .little (.filled 0) [0, 0, 0, 4]).Safe) ∧
    (recvall (.steady 4) ⟨[0, 0, 0, 9, 1, 255, 65, 65, 0], .open⟩ =
        (.message [0, 0, 0, 9, 1, 255, 65, 65, 0] 9, ⟨[], .open⟩) ∧
      ¬ (decodeFrame .little (.filled 0) [0, 0, 0, 9, 1, 255, 65, 65, 0]).Safe) ∧
    recvall (.steady 64) ⟨[0, 0, 0, 57, 1, 51] ++ List.replicate 51 65, .open⟩ =
        (.message ([0, 0, 0, 57, 1, 51] ++ List.replicate 51 65) 57, ⟨[], .open⟩) ∧
      ¬ (decodeFrame .little (.filled 0) ([0, 0, 0, 57, 1, 51] ++ List.replicate 51 65)).Safe := by
  decide

end ChatRooms
