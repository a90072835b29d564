import ChatRooms.System.Basic

/-!
# The two ends of a connection

What the processes do with a connection that carries whole frames.

* `recvall_carried`: a call of `recvall` takes the frame in front, or hands over no message;
* `handleInput_sends`: whatever is typed, a client puts whole frames of its own kinds of messages into the
  connection (`clientIterate_sends`);
* `clientIterate_prints`: what a client prints is what is in front of it.
-/

namespace ChatRooms

/-! ## Receiving -/

theorem Content.frame_ne_nil (host : ByteOrder) (content : Content) : content.frame host ≠ [] := by
  apply List.ne_nil_of_length_pos
  have hlen := five_le_length_frame host content
  omega

/-- A call of `recvall` on a connection that carries frames takes the one in front, or hands over no message. -/
theorem recvall_carried {α : Type} {host : ByteOrder} {content : α → Content} {written read : List α}
    {env : RecvEnv} {s : Stream} {transit : Bytes}
    (h : Carries (fun unit => (content unit).frame host) written read (s.pending ++ transit))
    (fits : ∀ unit ∈ written, (content unit).Fits) (header : env.HeaderWhole s) :
    (∃ unit pending, unit ∈ written ∧
      recvall env s = (.message ((content unit).frame host) ((content unit).frame host).length,
        ⟨pending, s.ending⟩) ∧
      Carries (fun unit => (content unit).frame host) written (read ++ [unit]) (pending ++ transit)) ∨
    ∀ buf n, (recvall env s).1 ≠ .message buf n := by
  obtain ⟨pending, ending⟩ := s
  by_cases hnil : pending = []
  · right
    intro buf n
    rw [recvall_of_nil hnil]
    split
    · exact StreamEnd.outcome_ne_message _ _ _
    · simp
  · have hfirst : env.firstRecvd ⟨pending, ending⟩ = 4 := header.resolve_left hnil
    have hfour : 4 ≤ pending.length ∧ env.WholeHeader := by
      simp only [RecvEnv.firstRecvd, chunk] at hfirst
      unfold RecvEnv.WholeHeader
      omega
    obtain ⟨hlen, hwhole⟩ := hfour
    obtain ⟨rest, hwritten, hpipe⟩ := h
    cases rest with
    | nil =>
      have hempty := (List.append_eq_nil_iff.1 hpipe).1
      exact absurd hempty hnil
    | cons unit rest =>
      have hmem : unit ∈ written := by simp [hwritten]
      have hfits := fits unit hmem
      rw [List.flatMap_cons] at hpipe
      dsimp only at hpipe
      have hfive := five_le_length_frame host (content unit)
      have hann : announced pending = ((content unit).frame host).length :=
        calc announced pending
            _ = announced (pending ++ transit) := (announced_append hlen).symm
            _ = announced ((content unit).frame host) := by
              rw [hpipe]
              exact announced_append (by omega)
            _ = ((content unit).frame host).length := announced_frame host hfits
      by_cases hserves : env.Serves ((content unit).frame host).length
      · by_cases hall : ((content unit).frame host).length ≤ pending.length
        · -- The whole frame has arrived.
          left
          obtain ⟨tail, rfl⟩ : (content unit).frame host <+: pending :=
            List.prefix_of_prefix_length_le (List.prefix_append _ _) ⟨transit, hpipe⟩ hall
          refine ⟨unit, tail, hmem, recvall_frame host hfits hserves hwhole tail ending, ?_⟩
          apply Carries.read_unit hwritten
          rw [List.flatMap_cons, ← hpipe, List.append_assoc]
        · right
          have hpart : pending <+: (content unit).frame host :=
            List.prefix_of_prefix_length_le ⟨transit, hpipe⟩ (List.prefix_append _ _) (by omega)
          have hcut : pending ≠ (content unit).frame host := by
            rintro rfl
            exact hall le_rfl
          intro buf n
          rw [recvall_cut host hfits hserves hwhole hpart hcut hlen]
          exact StreamEnd.outcome_ne_message _ _ _
      · right
        intro buf n
        have hheader := (RecvEnv.header_of_whole (s := ⟨pending, ending⟩) hlen hwhole).2
        rw [recvall_of_not_serves hnil (by rw [hheader, announced_take, hann]; exact hserves)]
        simp

/-! ## Printing -/

/-- The client prints what the frame shows. -/
theorem handleServerMessage_printed (host : ByteOrder) (locals : Locals) {p : Printed} (hfits : p.content.Fits)
    (hstamp : p.content.TimestampFits) (n : ℕ) :
    handleServerMessage host locals (.message (p.frame host) n) = .ok (some (some p, 0)) := by
  cases p with
  | chat timestamp name text =>
    obtain ⟨m, hdecode, htime, ⟨hname, hnameStr⟩, htext, htextStr⟩ := chatMessageDeserialize_frame host
      (timestamp.toNat % 2 ^ 32) locals.chat (by omega) hfits.1.1 hfits.1.2 hfits.2.1 hfits.2.2
    rw [ofNat_toNat_mod_of_fits hstamp] at htime
    simp only [handleServerMessage, Printed.frame, Printed.content, Content.frame, Content.type, Content.body,
      getMessageType_frame, Checked.ok_bind, printChatMessage, hdecode, printString_eq hname,
      printString_eq htext, Checked.pure_eq_ok, htime, hnameStr, htextStr]
  | reply text =>
    obtain ⟨v, hdecode, hv, hstr⟩ := stringMessageDeserialize_frame .reply locals.reply.reply
      (by decide) hfits.1 hfits.2
    simp only [handleServerMessage, Printed.frame, Printed.content, Content.frame, Content.type, Content.body,
      getMessageType_frame, Checked.ok_bind, handleReplyMessage, replyMessageDeserialize, hdecode,
      printString_eq hv, Checked.pure_eq_ok, hstr]

/-! ## Sending -/

/-- A message of one of the client's kinds with terminated strings, all of whose frame was taken. -/
def SentWhole (env : ClientEnv) (p : Sent) : Prop :=
  p.msg.Terminated ∧ p.msg.content.type ≠ .reply ∧ p.sent = p.msg.frame env.host

section Sending

variable {env : ClientEnv} (hsend : ∀ call, (env.send call).Accepted)

include hsend

theorem sendMessage_whole {msg : Message} (hterm : msg.Terminated) (hkind : msg.content.type ≠ .reply)
    {sent : List Sent} {status : ℤ} (h : sendMessage env msg = .ok (sent, status)) :
    ∀ p ∈ sent, SentWhole env p := by
  rw [sendMessage_serialized env hterm, sendall_of_accepted hsend] at h
  split at h
  · cases h
    intro p hp
    obtain rfl := List.mem_singleton.1 hp
    exact ⟨hterm, hkind, rfl⟩
  · cases h
    exact fun p hp => absurd hp List.not_mem_nil

/-- A command sends whole frames. -/
theorem executeCommand_sends {str : Bytes} {executed : Executed} (h : executeCommand env str = .ok executed) :
    ∀ p ∈ executed.sent, SentWhole env p := by
  have nothing : ∀ p ∈ ([] : List Sent), SentWhole env p := fun p hp => absurd hp List.not_mem_nil
  unfold executeCommand at h
  split at h
  · obtain ⟨command, -, h⟩ := Checked.bind_eq_ok.1 h
    split at h
    · split at h
      · obtain ⟨command', -, h⟩ := Checked.bind_eq_ok.1 h
        obtain ⟨newName, -, h⟩ := Checked.bind_eq_ok.1 h
        obtain ⟨⟨sent, status⟩, hname, h⟩ := Checked.bind_eq_ok.1 h
        obtain ⟨name, hcopy, hname⟩ := Checked.bind_eq_ok.1 hname
        cases h
        have hterm : Terminated name :=
          (cstr_of_toList_eq (nul_notMem_cstr _) (strcpy_eq_ok.1 hcopy).2.2).1
        exact sendMessage_whole hsend (show (Message.name ⟨name⟩).Terminated from hterm)
          (by simp [Message.content, Content.type]) hname
      · cases h
        exact nothing
    · split at h
      · split at h
        · obtain ⟨command', -, h⟩ := Checked.bind_eq_ok.1 h
          obtain ⟨⟨sent, status⟩, hjoin, h⟩ := Checked.bind_eq_ok.1 h
          cases h
          exact sendMessage_whole hsend (show (Message.join ⟨_⟩).Terminated from trivial)
            (by simp [Message.content, Content.type]) hjoin
        · cases h
          exact nothing
      · split at h
        · cases h
          exact nothing
        · cases h
          exact nothing
  · cases h
    exact nothing

/-- Whatever is typed, whole frames are sent. -/
theorem handleInput_sends {input : Option Bytes} {executed : Executed} {status : ℤ}
    (h : handleInput env input = .ok (executed, status)) : ∀ p ∈ executed.sent, SentWhole env p := by
  cases input with
  | none =>
    cases h
    exact fun p hp => absurd hp List.not_mem_nil
  | some line =>
    obtain ⟨buf, -, h⟩ := Checked.bind_eq_ok.1 h
    split at h
    · obtain ⟨executed', hcommand, h⟩ := Checked.bind_eq_ok.1 h
      cases h
      exact executeCommand_sends hsend hcommand
    · obtain ⟨⟨sent, status'⟩, hchat, h⟩ := Checked.bind_eq_ok.1 h
      obtain ⟨text, hcopy, hchat⟩ := Checked.bind_eq_ok.1 hchat
      cases h
      have hterm : Terminated text :=
        (cstr_of_toList_eq (nul_notMem_cstr _) (strcpy_eq_ok.1 hcopy).2.2).1
      have hname : Terminated (.fill fun _ => 0 : CArray UInt8 nameSizeLimit) := by decide
      exact sendMessage_whole hsend (show (Message.chat ⟨0, _, text⟩).Terminated from ⟨hname, hterm⟩)
        (by simp [Message.content, Content.type]) hchat

end Sending

/-! ## One iteration of a client -/

section Iteration

variable {turn : ClientTurnEnv} {i : ℕ} {s s' : ClientMain}

/-- An iteration that handles what was typed is a call of `handle_input`. -/
theorem clientIterate_input {input : Option Bytes} {executed : Executed}
    (h : clientIterate turn i s = .ok (some (s', .input input executed))) :
    ∃ status, handleInput turn.env input = .ok (executed, status) := by
  obtain ⟨pfd, -, h⟩ := Checked.bind_eq_ok.1 h
  split at h
  · cases h
  · split at h
    · split at h
      · split at h
        · cases h
        · obtain ⟨⟨executed', status⟩, handled, h⟩ := Checked.bind_eq_ok.1 h
          cases h
          exact ⟨status, handled⟩
        · obtain ⟨⟨executed', status⟩, handled, h⟩ := Checked.bind_eq_ok.1 h
          dsimp only at h
          split at h
          · cases h
          · cases h
            exact ⟨status, handled⟩
      · generalize recvall turn.recv s.connection = result at h
        obtain ⟨received, connection⟩ := result
        obtain ⟨result, -, h⟩ := Checked.bind_eq_ok.1 h
        cases result with
        | none => cases h
        | some result => cases h
    · cases h

/-- The bytes that an iteration hands to the connection are the frames of the messages that it sends. -/
theorem clientIterate_sends (hsend : ∀ call, (turn.env.send call).Accepted) {effect : ClientEffect}
    (h : clientIterate turn i s = .ok (some (s', effect))) :
    effect.bytes = effect.messages.flatMap (Message.frame turn.env.host) ∧
      ∀ msg ∈ effect.messages, msg.Terminated ∧ msg.content.type ≠ .reply := by
  cases effect with
  | idle => exact ⟨rfl, fun msg hmsg => absurd hmsg List.not_mem_nil⟩
  | message received printed => exact ⟨rfl, fun msg hmsg => absurd hmsg List.not_mem_nil⟩
  | input input executed =>
    obtain ⟨status, handled⟩ := clientIterate_input h
    have hwhole := handleInput_sends hsend handled
    constructor
    · rw [ClientEffect.bytes, ClientEffect.messages, List.flatMap_map]
      exact List.flatMap_congr fun p hp => (hwhole p hp).2.2
    · intro msg hmsg
      obtain ⟨p, hp, rfl⟩ := List.mem_map.1 hmsg
      exact ⟨(hwhole p hp).1, (hwhole p hp).2.1⟩

/-- An iteration of a client in front of whole frames prints what the first of them shows, if anything; and
unless the client exits, this frame has been taken. -/
theorem clientIterate_prints {effect : ClientEffect} {shown printed : List Printed} {transit : Bytes}
    (h : clientIterate turn i s = .ok (some (s', effect)))
    (header : ∀ pfd, s.pollfds.read i = .ok pfd → pfd.revents &&& pollhup = 0 → pfd.revents &&& pollin ≠ 0 →
      pfd.fd ≠ stdinFileno → turn.recv.HeaderWhole s.connection)
    (carries : Carries (Printed.frame turn.env.host) shown printed (s.connection.pending ++ transit))
    (fits : ∀ p ∈ shown, p.content.Fits ∧ p.content.TimestampFits) :
    printed ++ effect.printed <+: shown ∧ (s'.pc ≠ .exited →
      Carries (Printed.frame turn.env.host) shown (printed ++ effect.printed)
        (s'.connection.pending ++ transit)) := by
  obtain ⟨pfd, hread, iter⟩ := clientIterated_of_some h
  have hshown := carries.isPrefix
  cases iter with
  | hangup hup => exact ⟨by simpa [ClientEffect.printed] using hshown, fun hpc => absurd rfl hpc⟩
  | ended hup input typed read => exact ⟨by simpa [ClientEffect.printed] using hshown, fun hpc => absurd rfl hpc⟩
  | line hup input typed read handled =>
    exact ⟨by simpa [ClientEffect.printed] using hshown, fun _ => by simpa [ClientEffect.printed] using carries⟩
  | idle hup input =>
    exact ⟨by simpa [ClientEffect.printed] using hshown, fun _ => by simpa [ClientEffect.printed] using carries⟩
  | @message received connection print status hup input server recv handled =>
    have hheader := header pfd hread hup input server
    rcases recvall_carried carries (fun p hp => (fits p hp).1) hheader with
      ⟨p, pending, hp, hfront, hrest⟩ | hnothing
    · rw [recv, Prod.mk.injEq] at hfront
      obtain ⟨rfl, rfl⟩ := hfront
      have hprinted := handleServerMessage_printed turn.env.host turn.env.locals (fits p hp).1 (fits p hp).2
        (p.content.frame turn.env.host).length
      rw [Printed.frame] at hprinted
      rw [hprinted, Except.ok.injEq, Option.some.injEq, Prod.mk.injEq] at handled
      obtain ⟨rfl, rfl⟩ := handled
      exact ⟨hrest.isPrefix, fun _ => hrest⟩
    · rw [recv] at hnothing
      cases received with
      | message buf n => exact absurd rfl (hnothing buf n)
      | waits => cases handled
      | closed =>
        cases handled
        exact ⟨by simpa [ClientEffect.printed] using hshown, fun hpc => absurd rfl hpc⟩
      | failed =>
        cases handled
        exact ⟨by simpa [ClientEffect.printed] using hshown, fun hpc => absurd rfl hpc⟩

end Iteration

end ChatRooms
