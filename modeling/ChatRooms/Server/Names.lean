import ChatRooms.Server.Specs

/-!
# Stored names

The name that `handle_name_message` stores is decoded into a local struct whose previous contents stay
behind the copied bytes.  The stored name, the reply and the chat messages sent under that name are
determined by the received message exactly when the copied bytes hold a NUL: `name_determined_iff`.
-/

namespace ChatRooms

/-- The environment with other previous contents of the local struct of `handle_name_message`. -/
def Env.withName (env : Env) (name : NameMessage) : Env := { env with locals := { env.locals with name } }

/-- Whatever the local struct held before, the message is handled; the stored name is a string, and it,
the reply, and what any later chat message of the user does are the same. -/
def NameDetermined (env : Env) (buf : Bytes) (user : User) : Prop :=
  ∀ before before' : NameMessage, ∃ u u' outs outs',
    handleNameMessage (env.withName before) buf user = .ok (u, outs) ∧
    handleNameMessage (env.withName before') buf user = .ok (u', outs') ∧
    Terminated u.name ∧ cstr u.name.toList = cstr u'.name.toList ∧ outs = outs' ∧
    ∀ (later : Env) (chat : Bytes) (room : UInt8) (rooms : RoomArray),
      handleChatMessage later chat { u with room } rooms = handleChatMessage later chat { u' with room } rooms

/-- A reply depends on its arguments only through the text they are expanded to. -/
theorem sendReplyMessage_congr (env : Env) (client : Fd) {fmt : Bytes} {args args' : List FormatArg}
    (h : format fmt args = format fmt args') :
    sendReplyMessage env client fmt args = sendReplyMessage env client fmt args' := by
  simp only [sendReplyMessage, vsnprintf, h]

/-- Two contents of the local struct that decode to the same string are handled in the same way. -/
theorem handleNameMessage_congr (env : Env) (user : User) {buf : Bytes} {before before' msg msg' : NameMessage}
    (h : nameMessageDeserialize buf before = .ok msg) (h' : nameMessageDeserialize buf before' = .ok msg')
    (hterm : Terminated msg.name) (hterm' : Terminated msg'.name)
    (heq : cstr msg.name.toList = cstr msg'.name.toList) :
    handleNameMessage (env.withName before) buf user = handleNameMessage (env.withName before') buf user := by
  have hcopy := strcpy_congr user.name hterm hterm' heq
  have htext : format nameReply [.str msg.name.toList] = format nameReply [.str msg'.name.toList] := by
    have hnul : 0 ∈ msg.name.toList := hterm
    have hnul' : 0 ∈ msg'.name.toList := hterm'
    simp [nameReply, format, ascii, hnul, hnul', heq]
  -- The reply is made in other local variables.
  have hreply : sendReplyMessage (env.withName before) user.id nameReply [.str msg.name.toList] =
      sendReplyMessage (env.withName before') user.id nameReply [.str msg'.name.toList] :=
    sendReplyMessage_congr env user.id htext
  unfold handleNameMessage
  rw [show (env.withName before).locals.name = before from rfl,
    show (env.withName before').locals.name = before' from rfl, h, h', Checked.ok_bind, Checked.ok_bind,
    hcopy]
  simp only [hreply]

/-- A name inside its frame decodes, whatever the local struct held. -/
theorem exists_decoded {buf : Bytes} (before : NameMessage) (hbounds : StringInBounds nameSizeLimit buf) :
    ∃ msg, nameMessageDeserialize buf before = .ok msg := by
  obtain ⟨name, hname⟩ : (stringMessageDeserialize buf before.name).Safe :=
    stringMessageDeserialize_safe_iff.2 hbounds
  refine ⟨⟨name⟩, ?_⟩
  rw [nameMessageDeserialize, hname]
  rfl

/-- A name with a NUL among its bytes decodes to the string before the NUL. -/
theorem cstr_of_decoded {buf : Bytes} {before msg : NameMessage} (hnul : 0 ∈ stringBytes buf)
    (h : nameMessageDeserialize buf before = .ok msg) :
    Terminated msg.name ∧ cstr msg.name.toList = cstr (stringBytes buf) := by
  obtain ⟨name, hname, h⟩ := Checked.bind_eq_ok.1 h
  cases h
  refine ⟨(stringBytes_isPrefix hname).subset hnul, ?_⟩
  rw [stringMessageDeserialize_eq_ok hname, cstr_append_of_mem hnul]

/-- Where the bytes of the name hold a NUL, the previous contents do not show. -/
theorem nameDetermined_of_nul (env : Env) (user : User) {buf : Bytes}
    (hbounds : StringInBounds nameSizeLimit buf) (hnul : 0 ∈ stringBytes buf) : NameDetermined env buf user := by
  have hdecode (before : NameMessage) : ∃ msg, nameMessageDeserialize buf before = .ok msg ∧
      Terminated msg.name ∧ cstr msg.name.toList = cstr (stringBytes buf) := by
    obtain ⟨msg, hmsg⟩ := exists_decoded before hbounds
    exact ⟨msg, hmsg, cstr_of_decoded hnul hmsg⟩
  intro before before'
  obtain ⟨msg, hmsg, hterm, hcstr⟩ := hdecode before
  obtain ⟨msg', hmsg', hterm', hcstr'⟩ := hdecode before'
  obtain ⟨name, outs, hspec, hname, -, -⟩ :=
    handleNameMessage_decoded (env.withName before) user hmsg hterm
  have hsame := handleNameMessage_congr env user hmsg hmsg' hterm hterm' (hcstr.trans hcstr'.symm)
  exact ⟨_, _, outs, outs, hspec, hsame.symm.trans hspec, hname, rfl, rfl, fun _ _ _ _ => rfl⟩

/-- Without a NUL among them, the search for the end of the name can leave the local struct. -/
theorem nul_mem_of_handled {env : Env} {user : User} {buf : Bytes} {result : User × List Output}
    (h : handleNameMessage (env.withName ⟨.fill fun _ => 65⟩) buf user = .ok result) :
    0 ∈ stringBytes buf := by
  obtain ⟨msg, hmsg, h⟩ := Checked.bind_eq_ok.1 h
  obtain ⟨name, hname, hmsg⟩ := Checked.bind_eq_ok.1 hmsg
  cases hmsg
  obtain ⟨copy, hcopy, -⟩ := Checked.bind_eq_ok.1 h
  have hterm : 0 ∈ name.toList := (strcpy_eq_ok.1 hcopy).1
  rw [stringMessageDeserialize_eq_ok hname, List.mem_append] at hterm
  apply hterm.resolve_right
  intro hmem
  obtain ⟨i, -, hi⟩ := List.mem_map.1 (List.mem_of_mem_drop hmem)
  exact absurd hi (by decide)

/-- For every name message whose length byte is at most `NAME_SIZE_LIMIT` and counts bytes of the frame,
and every user, the outcome does not depend on the previous contents of the local struct exactly when
there is a NUL among the counted bytes. -/
theorem name_determined_iff (env : Env) (user : User) {buf : Bytes}
    (hbounds : StringInBounds nameSizeLimit buf) : NameDetermined env buf user ↔ 0 ∈ stringBytes buf := by
  refine ⟨fun h => ?_, nameDetermined_of_nul env user hbounds⟩
  obtain ⟨u, u', outs, outs', hspec, -⟩ := h ⟨.fill fun _ => 65⟩ ⟨.fill fun _ => 65⟩
  exact nul_mem_of_handled hspec

/-- A record with an empty name. -/
def namelessUser : User := ⟨4, 0, .fill fun _ => 0⟩

/-- The name `A` with its NUL. -/
theorem name_determined_iff_terminated : NameDetermined (.steady 0) [0, 0, 0, 8, 1, 2, 65, 0] namelessUser :=
  (name_determined_iff (.steady 0) namelessUser (by decide)).2 (by decide)

/-- The name `A` without a NUL: it is stored as `AB` or as `AC`, by what the local struct held before, and
the search for its end may leave the struct. -/
theorem name_without_nul_leaks :
    StringInBounds nameSizeLimit [0, 0, 0, 7, 1, 1, 65] ∧
    (∃ u outs, handleNameMessage ((Env.steady 0).withName ⟨.ofString [66, 66] (by decide)⟩)
      [0, 0, 0, 7, 1, 1, 65] namelessUser = .ok (u, outs) ∧ cstr u.name.toList = [65, 66]) ∧
    (∃ u outs, handleNameMessage ((Env.steady 0).withName ⟨.ofString [67, 67] (by decide)⟩)
      [0, 0, 0, 7, 1, 1, 65] namelessUser = .ok (u, outs) ∧ cstr u.name.toList = [65, 67]) ∧
    (∀ result, handleNameMessage ((Env.steady 0).withName ⟨.fill fun _ => 65⟩)
      [0, 0, 0, 7, 1, 1, 65] namelessUser ≠ .ok result) ∧
    ¬ NameDetermined (.steady 0) [0, 0, 0, 7, 1, 1, 65] namelessUser := by
  have hnul : 0 ∉ stringBytes [0, 0, 0, 7, 1, 1, 65] := by decide
  refine ⟨by decide, ⟨_, _, rfl, by decide⟩, ⟨_, _, rfl, by decide⟩, fun result h => hnul (nul_mem_of_handled h),
    fun h => ?_⟩
  obtain ⟨u, u', outs, outs', hspec, -⟩ := h ⟨.fill fun _ => 65⟩ ⟨.fill fun _ => 65⟩
  exact hnul (nul_mem_of_handled hspec)

end ChatRooms
