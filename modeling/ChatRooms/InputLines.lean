import ChatRooms.Client
import ChatRooms.Lib.Logged
import ChatRooms.Lib.Stdio

/-!
# Lines of input

A line that does not fit `buf` is read by several calls of `handle_input`, and each call takes the first
character of its piece for the first character of the line: a `/` at a multiple of 999 makes the rest
of a text a command, and what follows the first 999 characters of a command is sent as a text.

* `handleLine` are the calls for one line, with the calls of `execute_command` and `send_chat_message`
  they make;
* `ByFirstCharacter` says that only the first character of the line decides;
* `byFirstCharacter_iff`: exactly for which lines it does.
-/

namespace ChatRooms

/-- A call of `execute_command` or of `send_chat_message`, with its string. -/
inductive InputCall where
  | command (str : Bytes)
  | chat (text : Bytes)
deriving DecidableEq, Repr

open Logged in
/-- `handle_input` with the calls it makes. -/
def handleInputLogged (env : ClientEnv) (input : Option Bytes) : Logged InputCall (Executed × ℤ) :=
  match input with
  | none => return ({ sent := [], exited := false }, -1)
  | some line => do
    let buf ← silent (copyInto env.buf (line ++ [0]))
    if buf.toList.head? = some 47 then
      return (← note (.command (cstr buf.toList)) (executeCommand env (cstr buf.toList)), 0)
    else
      let (sent, status) ← note (.chat (cstr buf.toList)) (sendChatMessage env buf)
      return ({ sent, exited := false }, if status ≠ 0 then -1 else 0)

theorem result_handleInputLogged (env : ClientEnv) (input : Option Bytes) :
    (handleInputLogged env input).result = handleInput env input := by
  cases input with
  | none => rfl
  | some line =>
    refine Logged.result_bind_eq rfl fun buf => ?_
    split
    · exact Logged.result_bind_eq rfl fun executed => rfl
    · exact Logged.result_bind_eq rfl fun result => rfl

/-- The calls of `handle_input` for one line, and what they send: until its newline has been handed out
or the program ends.  `fuel` bounds the number of calls by the number of characters. -/
def handleLine (env : ℕ → ClientEnv) (pick : ℕ → ℕ → ℕ) : ℕ → ℕ → Stdin → Logged InputCall (List Sent)
  | 0, _, _ => return []
  | fuel + 1, call, s =>
    match fgets (pick call) (textSizeLimit - 1) s with
    | (.line piece, s) => do
      let (executed, status) ← handleInputLogged (env call) (some piece)
      if executed.Ends (env call) status ∨ piece.getLast? = some 10 then return executed.sent
      else return executed.sent ++ (← handleLine env pick fuel (call + 1) s)
    | (.null, _) | (.waits, _) => return []

/-- The text of a chat message. -/
def Message.chatText : Message → Bytes
  | .chat msg => cstr msg.text.toList
  | _ => []

/-- No command is executed, and the whole line is sent in chat messages. -/
structure SendsText (line : Bytes) (done : Logged InputCall (List Sent)) : Prop where
  noCommand : ∀ call ∈ done.log, ∃ text, call = .chat text
  sends : ∃ sent, done.result = .ok sent ∧ (∀ p ∈ sent, (∃ msg, p.msg = .chat msg) ∧ p.sent = p.sendBuf) ∧
    (sent.flatMap fun p => p.msg.chatText) = line

/-- `execute_command` is run once, on the line, and nothing is sent as a chat message. -/
structure RunsCommand (line : Bytes) (done : Logged InputCall (List Sent)) : Prop where
  once : done.log = [.command line]
  noChat : ∀ sent, done.result = .ok sent → ∀ p ∈ sent, ∀ msg, p.msg ≠ .chat msg

/-- The first character of a line decides what is done with it. -/
def ByFirstCharacter (line : Bytes) (done : Logged InputCall (List Sent)) : Prop :=
  if line.head? = some 47 then RunsCommand line done else SendsText line done

/-- There is memory for the chat message with a text, and none of its sends fails. -/
def Transmittable (env : ClientEnv) (text : Bytes) : Prop :=
  env.heap.serves ((Content.chat 0 [] text).frame env.host).length = true ∧
    (sendall env.send ((Content.chat 0 [] text).frame env.host)
      ((Content.chat 0 [] text).frame env.host).length).2 ≠ none

/-- No piece of the text begins with a slash, and every piece can be sent. -/
def Sendable (env : ℕ → ClientEnv) (call : ℕ) (text : Bytes) : Prop :=
  ∀ k, (textSizeLimit - 1) * k < text.length → text[(textSizeLimit - 1) * k]? ≠ some 47 ∧
    Transmittable (env (call + k)) ((text.drop ((textSizeLimit - 1) * k)).take (textSizeLimit - 1))

/-- A command that fits `buf`, or a text that is cut at no slash and can be sent. -/
def HarmlessLine (env : ℕ → ClientEnv) (line : Bytes) : Prop :=
  if line.head? = some 47 then line.length ≤ textSizeLimit - 1 else Sendable env 0 line

/-! ## One call -/

section Piece

variable (env : ClientEnv) {piece : Bytes} (hnul : 0 ∉ piece) (hlen : piece.length ≤ textSizeLimit - 1)

include hnul hlen

/-- The piece in `buf`. -/
theorem copyInto_piece (dst : CArray UInt8 textSizeLimit) :
    ∃ buf, copyInto dst (piece ++ [0]) = .ok buf ∧ Terminated buf ∧ cstr buf.toList = piece ∧
      (buf.toList.head? = some 47 ↔ piece.head? = some 47) := by
  obtain ⟨buf, hcopy, hterm, hstr⟩ := copyInto_string dst hnul (Nat.lt_succ_of_le hlen)
  refine ⟨buf, hcopy, hterm, hstr, ?_⟩
  rw [← hstr, head?_cstr (by decide)]

theorem handleInputLogged_command (hslash : piece.head? = some 47) :
    handleInputLogged env (some piece) =
      ⟨executeCommand env piece >>= fun executed => .ok (executed, 0), [.command piece]⟩ := by
  obtain ⟨buf, hcopy, -, hstr, hhead⟩ := copyInto_piece hnul hlen env.buf
  rw [handleInputLogged, hcopy, Logged.silent_ok_bind, if_pos (hhead.2 hslash), hstr]
  exact Logged.bind_pure _ _

theorem handleInputLogged_chat (hslash : piece.head? ≠ some 47) :
    ∃ msg : ChatMessage, (Message.chat msg).Terminated ∧
      (Message.chat msg).content = .chat 0 [] piece ∧ cstr msg.text.toList = piece ∧
      handleInputLogged env (some piece) =
        ⟨sendMessage env (.chat msg) >>= fun (sent, status) =>
          .ok ({ sent, exited := false }, if status ≠ 0 then -1 else 0), [.chat piece]⟩ := by
  obtain ⟨buf, hcopy, hterm, hstr, hhead⟩ := copyInto_piece hnul hlen env.buf
  obtain ⟨text, hstrcpy, htext, htextStr⟩ := strcpy_of_lt (.fill fun _ => 0) hterm (length_cstr_lt hterm)
  have hname : Terminated (.fill fun _ => 0 : CArray UInt8 nameSizeLimit) := by decide
  have hsend : sendChatMessage env buf = sendMessage env (.chat ⟨0, .fill fun _ => 0, text⟩) := by
    rw [sendChatMessage]
    dsimp only
    rw [hstrcpy, Checked.ok_bind]
  refine ⟨⟨0, .fill fun _ => 0, text⟩, ⟨hname, htext⟩, ?_, htextStr.trans hstr, ?_⟩
  · rw [Message.content, htextStr, hstr]
    rfl
  · rw [handleInputLogged, hcopy, Logged.silent_ok_bind, if_neg (mt hhead.1 hslash), hstr, hsend]
    exact Logged.bind_pure _ _

/-- A text that can be sent is sent whole. -/
theorem handleInputLogged_transmittable (hslash : piece.head? ≠ some 47) (h : Transmittable env piece) :
    ∃ p : Sent, (∃ msg, p.msg = .chat msg) ∧ p.msg.chatText = piece ∧ p.sent = p.sendBuf ∧
      ¬ Executed.Ends env { sent := [p], exited := false } 0 ∧ handleInputLogged env (some piece) =
        ⟨.ok ({ sent := [p], exited := false }, 0), [.chat piece]⟩ := by
  obtain ⟨msg, hterm, hcontent, htext, hhandled⟩ := handleInputLogged_chat env hnul hlen hslash
  obtain ⟨hserves, hsend⟩ := h
  obtain ⟨n, hn⟩ := Option.ne_none_iff_exists'.1 hsend
  refine ⟨⟨.chat msg, (Content.chat 0 [] piece).frame env.host, (Content.chat 0 [] piece).frame env.host⟩,
    ⟨msg, rfl⟩, htext, rfl, ?_, ?_⟩
  · rintro (hexited | hstatus | hunreturned)
    · cases hexited
    · exact hstatus rfl
    · refine hunreturned fun p hp => ?_
      rw [List.mem_singleton.1 hp, sendEnd_of_some hsend]
      exact trivial
  · rw [hhandled, sendMessage_serialized env hterm, hcontent, if_pos hserves, sendall_of_some hn]
    rfl

/-- A text that cannot be sent is not sent whole, and `handle_input` fails. -/
theorem handleInputLogged_untransmittable (hslash : piece.head? ≠ some 47) (h : ¬ Transmittable env piece) :
    ∃ sent : List Sent, (sent = [] ∨ ∃ p ∈ sent, p.sent ≠ p.sendBuf) ∧
      handleInputLogged env (some piece) =
        ⟨.ok ({ sent, exited := false }, -1), [.chat piece]⟩ := by
  obtain ⟨msg, hterm, hcontent, -, hhandled⟩ := handleInputLogged_chat env hnul hlen hslash
  rw [hhandled, sendMessage_serialized env hterm, hcontent]
  by_cases hserves : env.heap.serves ((Content.chat 0 [] piece).frame env.host).length = true
  · have hsend : (sendall env.send ((Content.chat 0 [] piece).frame env.host)
        ((Content.chat 0 [] piece).frame env.host).length).2 = none := by
      by_contra hsome
      exact h ⟨hserves, hsome⟩
    rw [if_pos hserves, if_pos hsend]
    exact ⟨_, .inr ⟨_, List.mem_singleton_self _, sendall_of_none hsend⟩, rfl⟩
  · rw [if_neg hserves]
    exact ⟨[], .inl rfl, rfl⟩

end Piece

/-! ## The pieces of a line -/

theorem sendable_nil (env : ℕ → ClientEnv) (call : ℕ) : Sendable env call [] := by
  intro k hk
  exact absurd hk (Nat.not_lt_zero _)

/-- The first piece of a line, and the rest. -/
theorem sendable_iff {env : ℕ → ClientEnv} {call : ℕ} {line : Bytes} (hne : line ≠ []) :
    Sendable env call line ↔
      line.head? ≠ some 47 ∧ Transmittable (env call) (line.take (textSizeLimit - 1)) ∧
        Sendable env (call + 1) (line.drop (textSizeLimit - 1)) := by
  have hshift (k : ℕ) : (textSizeLimit - 1) * (k + 1) = (textSizeLimit - 1) + (textSizeLimit - 1) * k := by
    rw [Nat.mul_succ, Nat.add_comm]
  constructor
  · intro h
    have hfirst := h 0 (List.length_pos_of_ne_nil hne)
    rw [Nat.mul_zero, List.drop_zero, Nat.add_zero, ← List.head?_eq_getElem?] at hfirst
    refine ⟨hfirst.1, hfirst.2, fun k hk => ?_⟩
    rw [List.length_drop] at hk
    have hnext := h (k + 1) (by rw [hshift]; omega)
    rw [hshift, Nat.add_comm k, ← Nat.add_assoc] at hnext
    rwa [List.getElem?_drop, List.drop_drop]
  · rintro ⟨hslash, hdeliver, hrest⟩ k hk
    cases k with
    | zero =>
      rw [Nat.mul_zero, List.drop_zero, Nat.add_zero, ← List.head?_eq_getElem?]
      exact ⟨hslash, hdeliver⟩
    | succ k =>
      rw [hshift] at hk
      have hnext := hrest k (by rw [List.length_drop]; omega)
      rw [List.getElem?_drop, List.drop_drop] at hnext
      rwa [hshift, Nat.add_comm k, ← Nat.add_assoc]

/-- A piece that is sent whole, in front of the rest of its line. -/
theorem sendsText_cons {p : Sent} {piece rest : Bytes} {done : Logged InputCall (List Sent)}
    (hchat : ∃ msg, p.msg = .chat msg) (htext : p.msg.chatText = piece) (hsent : p.sent = p.sendBuf) :
    SendsText (piece ++ rest) ⟨done.result >>= fun sent => .ok (p :: sent), .chat piece :: done.log⟩ ↔
      SendsText rest done := by
  constructor
  · rintro ⟨hnone, all, hall, hwhole, hflat⟩
    obtain ⟨sent, hresult, hall⟩ := Checked.bind_eq_ok.1 hall
    cases hall
    refine ⟨fun call hcall => hnone call (List.mem_cons_of_mem _ hcall), sent, hresult, ?_, ?_⟩
    · exact fun q hq => hwhole q (List.mem_cons_of_mem _ hq)
    · rwa [List.flatMap_cons, htext, List.append_cancel_left_eq] at hflat
  · rintro ⟨hnone, sent, hresult, hwhole, hflat⟩
    refine ⟨?_, p :: sent, ?_, ?_, ?_⟩
    · exact List.forall_mem_cons.2 ⟨⟨piece, rfl⟩, hnone⟩
    · rw [hresult]
      rfl
    · exact List.forall_mem_cons.2 ⟨⟨hchat, hsent⟩, hwhole⟩
    · rw [List.flatMap_cons, htext, hflat]

/-- What was sent before a failure is not the line. -/
theorem not_sendsText_of_unsent {line : Bytes} (hne : line ≠ []) {sent : List Sent}
    (hunsent : sent = [] ∨ ∃ p ∈ sent, p.sent ≠ p.sendBuf) (log : List InputCall) :
    ¬ SendsText line ⟨.ok sent, log⟩ := by
  rintro ⟨-, sent', hsent', hwhole, hflat⟩
  cases hsent'
  rcases hunsent with rfl | ⟨p, hp, hsent⟩
  · exact hne hflat.symm
  · exact hsent (hwhole p hp).2

section Line

variable (env : ℕ → ClientEnv) (pick : ℕ → ℕ → ℕ)

/-- The piece that the next call reads, and what is left of the line. -/
theorem fgets_piece {body more : Bytes} (hbody : 10 ∉ body) (call : ℕ) {s : Stdin}
    (hs : s.unread = body ++ 10 :: more) :
    ∃ s', fgets (pick call) (textSizeLimit - 1) s = (.line ((body ++ [10]).take (textSizeLimit - 1)), s') ∧
      s'.unread = (body ++ [10]).drop (textSizeLimit - 1) ++ more :=
  fgets_of_line (by decide) (pick call) hbody hs

section Call

variable {pick} (fuel : ℕ) {call : ℕ} {s s' : Stdin} {piece : Bytes}
  (hfgets : fgets (pick call) (textSizeLimit - 1) s = (.line piece, s')) (hnul : 0 ∉ piece)
  (hlen : piece.length ≤ textSizeLimit - 1)

include hfgets hnul hlen

/-- A piece that begins with a slash is handed to `execute_command`. -/
theorem handleLine_command (hslash : piece.head? = some 47) :
    [.command piece] <+: (handleLine env pick (fuel + 1) call s).log := by
  rw [handleLine, hfgets]
  dsimp only
  have hprefix := fun f : Executed × ℤ → Logged InputCall (List Sent) =>
    Logged.log_isPrefix_bind (handleInputLogged (env call) (some piece)) f
  rw [handleInputLogged_command (env call) hnul hlen hslash] at hprefix ⊢
  exact hprefix _

/-- A command that ends with the line. -/
theorem handleLine_command_last (hslash : piece.head? = some 47) (hlast : piece.getLast? = some 10) :
    handleLine env pick (fuel + 1) call s =
      ⟨executeCommand (env call) piece >>= fun executed => .ok executed.sent, [.command piece]⟩ := by
  rw [handleLine, hfgets]
  dsimp only
  rw [handleInputLogged_command (env call) hnul hlen hslash]
  cases executeCommand (env call) piece with
  | ok executed =>
    rw [Checked.ok_bind, Checked.ok_bind, Logged.ok_bind, if_pos (.inr hlast)]
    rfl
  | error e => rfl

/-- A text that cannot be sent ends the program. -/
theorem handleLine_untransmittable (hslash : piece.head? ≠ some 47) (h : ¬ Transmittable (env call) piece) :
    ∃ sent : List Sent, (sent = [] ∨ ∃ p ∈ sent, p.sent ≠ p.sendBuf) ∧
      handleLine env pick (fuel + 1) call s = ⟨.ok sent, [.chat piece]⟩ := by
  obtain ⟨sent, hunsent, hhandled⟩ := handleInputLogged_untransmittable (env call) hnul hlen hslash h
  refine ⟨sent, hunsent, ?_⟩
  rw [handleLine, hfgets]
  dsimp only
  have hends : Executed.Ends (env call) { sent, exited := false } (-1) := .inr (.inl (by decide))
  rw [hhandled, Logged.ok_bind, if_pos (.inl hends)]
  rfl

/-- The last piece of a line. -/
theorem handleLine_last (hslash : piece.head? ≠ some 47) (h : Transmittable (env call) piece)
    (hlast : piece.getLast? = some 10) :
    ∃ p : Sent, (∃ msg, p.msg = .chat msg) ∧ p.msg.chatText = piece ∧ p.sent = p.sendBuf ∧
      handleLine env pick (fuel + 1) call s = ⟨.ok [p], [.chat piece]⟩ := by
  obtain ⟨p, hchat, htext, hsent, -, hhandled⟩ := handleInputLogged_transmittable (env call) hnul hlen hslash h
  refine ⟨p, hchat, htext, hsent, ?_⟩
  rw [handleLine, hfgets]
  dsimp only
  rw [hhandled, Logged.ok_bind, if_pos (.inr hlast)]
  rfl

/-- A piece with more of the line behind it. -/
theorem handleLine_next (hslash : piece.head? ≠ some 47) (h : Transmittable (env call) piece)
    (hmore : piece.getLast? ≠ some 10) :
    ∃ p : Sent, (∃ msg, p.msg = .chat msg) ∧ p.msg.chatText = piece ∧ p.sent = p.sendBuf ∧
      handleLine env pick (fuel + 1) call s =
        ⟨(handleLine env pick fuel (call + 1) s').result >>= fun sent => .ok (p :: sent),
          .chat piece :: (handleLine env pick fuel (call + 1) s').log⟩ := by
  obtain ⟨p, hchat, htext, hsent, hgoes, hhandled⟩ :=
    handleInputLogged_transmittable (env call) hnul hlen hslash h
  refine ⟨p, hchat, htext, hsent, ?_⟩
  rw [handleLine, hfgets]
  dsimp only
  rw [hhandled, Logged.ok_bind, if_neg (not_or.2 ⟨hgoes, hmore⟩)]
  rw [Logged.bind_pure]
  rfl

theorem not_sendsText_of_command (hslash : piece.head? = some 47) (line : Bytes) :
    ¬ SendsText line (handleLine env pick (fuel + 1) call s) := by
  intro h
  have hcommand := handleLine_command env fuel hfgets hnul hlen hslash
  obtain ⟨text, htext⟩ := h.noCommand _ (hcommand.subset List.mem_cons_self)
  cases htext

theorem not_sendsText_of_untransmittable (hslash : piece.head? ≠ some 47) (h : ¬ Transmittable (env call) piece)
    {line : Bytes} (hne : line ≠ []) : ¬ SendsText line (handleLine env pick (fuel + 1) call s) := by
  obtain ⟨sent, hunsent, hdone⟩ := handleLine_untransmittable env fuel hfgets hnul hlen hslash h
  rw [hdone]
  exact not_sendsText_of_unsent hne hunsent _

theorem sendsText_last (hslash : piece.head? ≠ some 47) (h : Transmittable (env call) piece)
    (hlast : piece.getLast? = some 10) : SendsText piece (handleLine env pick (fuel + 1) call s) := by
  obtain ⟨p, hchat, htext, hsent, hdone⟩ := handleLine_last env fuel hfgets hnul hlen hslash h hlast
  rw [hdone]
  refine ⟨List.forall_mem_singleton.2 ⟨_, rfl⟩, [p], rfl, List.forall_mem_singleton.2 ⟨hchat, hsent⟩, ?_⟩
  rw [List.flatMap_singleton, htext]

theorem sendsText_next (hslash : piece.head? ≠ some 47) (h : Transmittable (env call) piece)
    (hmore : piece.getLast? ≠ some 10) (rest : Bytes) :
    SendsText (piece ++ rest) (handleLine env pick (fuel + 1) call s) ↔
      SendsText rest (handleLine env pick fuel (call + 1) s') := by
  obtain ⟨p, hchat, htext, hsent, hdone⟩ := handleLine_next env fuel hfgets hnul hlen hslash h hmore
  rw [hdone]
  exact sendsText_cons hchat htext hsent

end Call

/-- The rest of a line is sent as text exactly when none of its pieces begins with a slash, and each can
be sent. -/
theorem sendsText_iff {fuel call : ℕ} {body more : Bytes} (hbody : 10 ∉ body) (hnul : 0 ∉ body) {s : Stdin}
    (hs : s.unread = body ++ 10 :: more) (hfuel : body.length < fuel) :
    SendsText (body ++ [10]) (handleLine env pick fuel call s) ↔ Sendable env call (body ++ [10]) := by
  induction fuel generalizing call body s with
  | zero => omega
  | succ fuel ih =>
    obtain ⟨s', hfgets, hs'⟩ := fgets_piece pick hbody call hs
    have hne : body ++ [10] ≠ [] := List.append_ne_nil_of_right_ne_nil _ (List.cons_ne_nil _ _)
    have hhead : ((body ++ [10]).take (textSizeLimit - 1)).head? = (body ++ [10]).head? := by
      rw [List.head?_take, if_neg (by decide)]
    have hpiece : 0 ∉ (body ++ [10]).take (textSizeLimit - 1) := by
      intro hmem
      rcases List.mem_append.1 (List.mem_of_mem_take hmem) with hmem | hmem
      · exact hnul hmem
      · exact absurd hmem (by decide)
    have hlen : ((body ++ [10]).take (textSizeLimit - 1)).length ≤ textSizeLimit - 1 := List.length_take_le _ _
    rw [sendable_iff hne]
    by_cases hslash : (body ++ [10]).head? = some 47
    · exact iff_of_false (not_sendsText_of_command env fuel hfgets hpiece hlen (hhead.trans hslash) _)
        (fun h => h.1 hslash)
    have hslash' : ((body ++ [10]).take (textSizeLimit - 1)).head? ≠ some 47 := by rwa [hhead]
    by_cases htransmit : Transmittable (env call) ((body ++ [10]).take (textSizeLimit - 1))
    swap
    · exact iff_of_false (not_sendsText_of_untransmittable env fuel hfgets hpiece hlen hslash' htransmit hne)
        (fun h => htransmit h.2.1)
    by_cases hfits : body.length < textSizeLimit - 1
    · -- The piece is all that is left of the line.
      have hshort : (body ++ [10]).length ≤ textSizeLimit - 1 := by
        rw [List.length_append]
        exact hfits
      rw [List.take_of_length_le hshort] at hfgets hpiece hlen hslash' htransmit ⊢
      rw [List.drop_eq_nil_of_le hshort]
      exact iff_of_true (sendsText_last env fuel hfgets hpiece hlen hslash' htransmit List.getLast?_concat)
        ⟨hslash, htransmit, sendable_nil _ _⟩
    · -- The newline is still to come.
      rw [not_lt] at hfits
      have hdrop : (body ++ [10]).drop (textSizeLimit - 1) = body.drop (textSizeLimit - 1) ++ [10] :=
        List.drop_append_of_le_length hfits
      have hmore : ((body ++ [10]).take (textSizeLimit - 1)).getLast? ≠ some 10 := by
        rw [List.take_append_of_le_length hfits]
        intro hlast
        exact hbody (List.mem_of_mem_take (List.mem_of_getLast? hlast))
      have hfirst := sendsText_next env fuel hfgets hpiece hlen hslash' htransmit hmore
        ((body ++ [10]).drop (textSizeLimit - 1))
      rw [List.take_append_drop] at hfirst
      rw [hdrop, List.append_assoc, List.singleton_append] at hs'
      have hrest : (body.drop (textSizeLimit - 1)).length < fuel := by
        rw [List.length_drop]
        have : 999 ≤ body.length := hfits
        show body.length - 999 < fuel
        omega
      have hlater : SendsText _ (handleLine env pick fuel (call + 1) s') ↔ _ :=
        ih (fun h => hbody (List.mem_of_mem_drop h)) (fun h => hnul (List.mem_of_mem_drop h)) hs' hrest
      rw [← hdrop] at hlater
      rw [hfirst, hlater]
      exact ⟨fun h => ⟨hslash, htransmit, h⟩, fun h => h.2.2⟩

/-- Of a command that does not fit `buf`, only the first piece is executed. -/
theorem not_runsCommand_of_long {body more : Bytes} (hbody : 10 ∉ body) (hnul : 0 ∉ body ++ [10]) {s : Stdin}
    (hs : s.unread = body ++ 10 :: more) (hslash : (body ++ [10]).head? = some 47)
    (hlong : textSizeLimit - 1 < (body ++ [10]).length) :
    ¬ RunsCommand (body ++ [10]) (handleLine env pick (body.length + 1) 0 s) := by
  intro h
  obtain ⟨s', hfgets, -⟩ := fgets_piece pick hbody 0 hs
  have hlen : ((body ++ [10]).take (textSizeLimit - 1)).length ≤ textSizeLimit - 1 := List.length_take_le _ _
  have hpiece : 0 ∉ (body ++ [10]).take (textSizeLimit - 1) := fun hmem => hnul (List.mem_of_mem_take hmem)
  have hhead : ((body ++ [10]).take (textSizeLimit - 1)).head? = some 47 := by
    rwa [List.head?_take, if_neg (by decide)]
  have hcommand := handleLine_command env body.length hfgets hpiece hlen hhead
  rw [h.once] at hcommand
  have hwhole := List.mem_singleton.1 (hcommand.subset List.mem_cons_self)
  rw [InputCall.command.inj hwhole] at hlen
  exact absurd hlen (not_le.2 hlong)

/-- For every line, of any length, that does not contain NUL: only its own first character decides what is
done with it exactly when it is harmless. -/
theorem byFirstCharacter_iff {body more : Bytes} (hbody : 10 ∉ body) (hnul : 0 ∉ body) {s : Stdin}
    (hs : s.unread = body ++ 10 :: more) :
    ByFirstCharacter (body ++ [10]) (handleLine env pick (body.length + 1) 0 s) ↔
      HarmlessLine env (body ++ [10]) := by
  unfold ByFirstCharacter HarmlessLine
  by_cases hslash : (body ++ [10]).head? = some 47
  · rw [if_pos hslash, if_pos hslash]
    obtain ⟨s', hfgets, -⟩ := fgets_piece pick hbody 0 hs
    have hnul' : 0 ∉ body ++ [10] := List.not_mem_append hnul (by decide)
    by_cases hfits : (body ++ [10]).length ≤ textSizeLimit - 1
    · rw [List.take_of_length_le hfits] at hfgets
      rw [handleLine_command_last env _ hfgets hnul' hfits hslash List.getLast?_concat]
      refine iff_of_true ⟨rfl, fun sent hsent p hp msg hmsg => ?_⟩ hfits
      obtain ⟨executed, hexecuted, hsent⟩ := Checked.bind_eq_ok.1 hsent
      cases hsent
      rcases msg_of_mem_executeCommand hexecuted hp with ⟨m, hm⟩ | ⟨m, hm⟩
      · exact absurd (hm.symm.trans hmsg) (by simp)
      · exact absurd (hm.symm.trans hmsg) (by simp)
    · exact iff_of_false (not_runsCommand_of_long env pick hbody hnul' hs hslash (not_le.1 hfits)) hfits
  · rw [if_neg hslash, if_neg hslash]
    exact sendsText_iff env pick hbody hnul hs (Nat.lt_succ_self _)

end Line

theorem transmittable_of_accepted {env : ClientEnv} (hheap : ∀ n, 0 < n → env.heap.serves n = true)
    (hsend : ∀ call, (env.send call).Accepted) (text : Bytes) : Transmittable env text := by
  refine ⟨hheap _ (length_frame_pos env.host _), ?_⟩
  rw [sendall_of_accepted hsend]
  exact Option.some_ne_none _

/-- A line of `n` letters. -/
def letters (n : ℕ) : Bytes := List.replicate n 97

theorem length_letters (n : ℕ) : (letters n).length = n := List.length_replicate

theorem notMem_letters {c : UInt8} (hc : c ≠ 97) (n : ℕ) : c ∉ letters n :=
  fun hmem => hc (List.eq_of_mem_replicate hmem)

/-- A line of 1200 letters with `/exit` behind them, of which every `read` returns one character: the cut after
999 letters is at no slash. -/
theorem byFirstCharacter_letters :
    ByFirstCharacter (letters 1200 ++ ascii "/exit" ++ [10])
      (handleLine (fun _ => .steady) (fun _ _ => 1) ((letters 1200 ++ ascii "/exit").length + 1) 0
        ⟨[], ⟨letters 1200 ++ ascii "/exit" ++ [10], .open⟩⟩) := by
  have hbody : 10 ∉ letters 1200 ++ ascii "/exit" :=
    List.not_mem_append (notMem_letters (by decide) 1200) (by decide)
  have hnul : 0 ∉ letters 1200 ++ ascii "/exit" :=
    List.not_mem_append (notMem_letters (by decide) 1200) (by decide)
  have hunread : Stdin.unread ⟨[], ⟨letters 1200 ++ ascii "/exit" ++ [10], .open⟩⟩ =
      (letters 1200 ++ ascii "/exit") ++ 10 :: [] := rfl
  have hfirst : (letters 1200 ++ ascii "/exit" ++ [10]).head? ≠ some 47 := by
    change some (97 : UInt8) ≠ some 47
    decide
  have htotal : (letters 1200 ++ ascii "/exit" ++ [10]).length = 1206 := by
    rw [List.length_append, List.length_append, length_letters]
    rfl
  have hharmless : HarmlessLine (fun _ => .steady) (letters 1200 ++ ascii "/exit" ++ [10]) := by
    rw [HarmlessLine, if_neg hfirst]
    intro k hk
    rw [htotal] at hk
    have hletter : (textSizeLimit - 1) * k < (letters 1200).length := by
      rw [length_letters]
      change 999 * k < 1200
      have hcut : 999 * k < 1206 := hk
      omega
    refine ⟨?_, transmittable_of_accepted (fun _ hn => decide_eq_true hn) ClientEnv.steady_accepts _⟩
    rw [List.append_assoc, List.getElem?_append_left hletter]
    exact fun hslash => notMem_letters (by decide) 1200 (List.mem_of_getElem? hslash)
  exact (byFirstCharacter_iff _ _ hbody hnul hunread).2 hharmless

/-- After 999 letters the line `/exit` is executed, although the line begins with a letter; and what follows the
first 999 characters of a command is not part of what is executed. -/
theorem slash_at_boundary :
    ¬ ByFirstCharacter (letters 999 ++ ascii "/exit" ++ [10])
      (handleLine (fun _ => .steady) (fun _ _ => 4096) 1005 0
        ⟨[], ⟨letters 999 ++ ascii "/exit" ++ [10], .open⟩⟩) ∧
    ¬ ByFirstCharacter (ascii "/foo " ++ letters 994 ++ [10])
      (handleLine (fun _ => .steady) (fun _ _ => 4096) 1000 0
        ⟨[], ⟨ascii "/foo " ++ letters 994 ++ [10], .open⟩⟩) := by
  constructor
  · have hbody : 10 ∉ letters 999 ++ ascii "/exit" :=
      List.not_mem_append (notMem_letters (by decide) 999) (by decide)
    have hnul : 0 ∉ letters 999 ++ ascii "/exit" :=
      List.not_mem_append (notMem_letters (by decide) 999) (by decide)
    have hunread : Stdin.unread ⟨[], ⟨letters 999 ++ ascii "/exit" ++ [10], .open⟩⟩ =
        (letters 999 ++ ascii "/exit") ++ 10 :: [] := rfl
    have htotal : (letters 999 ++ ascii "/exit").length = 1004 := by
      rw [List.length_append, length_letters]
      rfl
    have hfirst : (letters 999 ++ ascii "/exit" ++ [10]).head? ≠ some 47 := by
      change some (97 : UInt8) ≠ some 47
      decide
    have hslash : (letters 999 ++ ascii "/exit" ++ [10])[999]? = some 47 := by
      rw [List.append_assoc, List.getElem?_append_right (length_letters 999).le, length_letters]
      rfl
    rw [ByFirstCharacter, if_neg hfirst, sendsText_iff _ _ hbody hnul hunread (by rw [htotal]; decide)]
    intro h
    have hsecond := h 1
    rw [List.length_append, htotal] at hsecond
    exact (hsecond (by decide)).1 hslash
  · have hbody : 10 ∉ ascii "/foo " ++ letters 994 :=
      List.not_mem_append (by decide) (notMem_letters (by decide) 994)
    have hnul : 0 ∉ ascii "/foo " ++ letters 994 ++ [10] :=
      List.not_mem_append (List.not_mem_append (by decide) (notMem_letters (by decide) 994)) (by decide)
    have hunread : Stdin.unread ⟨[], ⟨ascii "/foo " ++ letters 994 ++ [10], .open⟩⟩ =
        (ascii "/foo " ++ letters 994) ++ 10 :: [] := rfl
    have hlen : (ascii "/foo " ++ letters 994).length = 999 := by
      rw [List.length_append, length_letters]
      rfl
    have htotal : (ascii "/foo " ++ letters 994 ++ [10]).length = 1000 := by
      rw [List.length_append, hlen]
      rfl
    have hfirst : (ascii "/foo " ++ letters 994 ++ [10]).head? = some 47 := rfl
    have hlong := not_runsCommand_of_long (fun _ => .steady) (fun _ _ => 4096) hbody hnul hunread hfirst
      (by rw [htotal]; decide)
    rw [hlen] at hlong
    rw [ByFirstCharacter, if_pos hfirst]
    exact hlong

end ChatRooms
