import ChatRooms.Server.Protocol

/-!
# Delivery of chat messages

What the server writes to a client, compared with what it processed.  `deliveries v` reads from a
trace the chat messages that `v` is to get: those whose sender was in a room, and `v` in the same
one, when they were processed.  `written v` is what the outputs of the trace wrote to `v`.  Both are
tagged with the position of the turn in the trace, so that two clients can be compared.

`chat_delivery` says that the two are the same, from any point of a run on.
-/

namespace ChatRooms

/-! ## What is to be delivered -/

/-- The name a client gave itself last since it connected. -/
def lastName (client : Fd) (history : ClientTrace) : Bytes :=
  history.foldl (fun name t => match t.event.2 with
    | .connect fd => if fd = client then anonymous else name
    | .send fd (.name msg) => if fd = client then cstr msg.name.toList else name
    | _ => name) anonymous

/-- The room of a connected user; 0 when there is none. -/
def roomOf (s : Server) (fd : Fd) : UInt8 :=
  match userTableFind s.userTable fd with
  | some user => user.room
  | none => invalidRoom

/-- The chat message that `v` gets from a turn: the text of a message whose sender is in a room, and
`v` with it, under the server's time and the sender's last name. -/
def delivery (v : Fd) (history : ClientTrace) (t : Turn Server (Env × ClientAction) (List Output)) :
    Option Content :=
  match t.event with
  | (env, .send sender (.chat msg)) =>
    if roomOf t.before sender ≠ invalidRoom ∧ roomOf t.before v = roomOf t.before sender then
      some (.chat env.clock (lastName sender history) (cstr msg.text.toList))
    else none
  | _ => none

/-- The chat messages that `v` gets from a trace, behind a history. -/
def deliveries (v : Fd) : ClientTrace → ClientTrace → List (ℕ × Content)
  | _, [] => []
  | history, t :: ts =>
    (delivery v history t).toList.map (history.length, ·) ++ deliveries v (history ++ [t]) ts

/-! ## What is written -/

/-- The chat frames among the writes to `v`. -/
def chatFrames (v : Fd) (outs : List Output) : List Bytes :=
  outs.filterMap fun out => match out with
    | .write fd _ _ sent => if fd = v ∧ sent[4]? = some MessageType.chat.code then some sent else none
    | _ => none

/-- The chat frames that a trace writes to `v`, from position `k` on. -/
def written (v : Fd) : ℕ → ClientTrace → List (ℕ × Bytes)
  | _, [] => []
  | k, t :: ts => (chatFrames v t.output).map (k, ·) ++ written v (k + 1) ts

theorem lastName_append (client : Fd) (history : ClientTrace)
    (t : Turn Server (Env × ClientAction) (List Output)) :
    lastName client (history ++ [t]) = match t.event.2 with
      | .connect fd => if fd = client then anonymous else lastName client history
      | .send fd (.name msg) => if fd = client then cstr msg.name.toList else lastName client history
      | _ => lastName client history := by
  rw [lastName, List.foldl_append]
  rfl

theorem roomOf_eq {s : Server} {u : User} (hu : u ∈ s.userTable.users) : roomOf s u.id = u.room := by
  unfold roomOf
  rw [userTableFind_eq_some.2 ⟨hu, rfl⟩]

/-- A client is listed in a room exactly when it is connected and its record names the room. -/
theorem mem_inRoom_iff_roomOf {s : Server} {room : UInt8} (h : room ≠ invalidRoom) {v : Fd} :
    v ∈ s.userTable.inRoom room ↔ roomOf s v = room := by
  rw [UserTable.mem_inRoom]
  constructor
  · rintro ⟨w, hw, rfl, hroom⟩
    rw [roomOf_eq hw, hroom]
  · intro hroom
    cases hfind : userTableFind s.userTable v with
    | none =>
      rw [roomOf, hfind] at hroom
      exact absurd hroom.symm h
    | some w =>
      rw [roomOf, hfind] at hroom
      obtain ⟨hw, hid⟩ := userTableFind_eq_some.1 hfind
      exact ⟨w, hw, hid, hroom⟩

/-! ## One turn -/

/-- What a run keeps: rooms and users agree, and every stored name is the last one the client gave
itself. -/
structure Known (history : ClientTrace) (s : Server) : Prop where
  agree : Agree s.rooms s.userTable
  named : Named s.userTable
  name : ∀ u ∈ s.userTable.users, cstr u.name.toList = lastName u.id history

theorem Known.step {host : ByteOrder} {history : ClientTrace} {s s' : Server}
    {input : Env × ClientAction} {outs : List Output} (h : Known history s)
    (step : ClientStep host s input outs s') : Known (history ++ [⟨s, input, outs, s'⟩]) s' := by
  refine ⟨step.agree h.agree, step.named h.agree h.named, ?_⟩
  intro u hu
  rw [lastName_append]
  cases step with
  | connect env fd step =>
    cases step with
    | connect _ _ _ handled =>
      obtain ⟨fd', pollfds, table', hfd, -, hadd, rfl⟩ := handleNewClient_eq_zero handled
      cases hfd
      obtain ⟨hid, name, -, hstr, husers⟩ := userTableAdd_eq_some hadd
      change u ∈ table'.users at hu
      rw [husers] at hu
      dsimp only
      rcases List.mem_append.1 hu with hold | hnew
      · have hne : fd ≠ u.id := fun he => hid (he ▸ UserTable.mem_ids hold)
        rw [if_neg hne]
        exact h.name u hold
      · obtain rfl := List.mem_singleton.1 hnew
        rw [if_pos rfl, hstr]
  | disconnect env client i step =>
    cases step with
    | terminate _ _ _ handled =>
      obtain ⟨-, -, rooms', table', rfl, -, hrest⟩ := handleClientTermination_eq_zero h.agree handled
      exact h.name u ((hrest u).1 hu).1
  | close env client step =>
    cases step with
    | message _ _ _ handled _ =>
      cases handled
      exact h.name u hu
  | send env client msg henv frame step =>
    obtain ⟨-, user, status, hfind, handled, -⟩ :=
      (ClientStep.send env client msg henv frame step).handled h.agree h.named
    obtain ⟨huser, rfl⟩ := userTableFind_eq_some.1 hfind
    cases handled with
    | outside => exact h.name u hu
    | broadcast => exact h.name u hu
    | noMemory => exact h.name u hu
    | join msg outcome reply =>
      obtain ⟨hid, hname, -⟩ := outcome.keeps
      rcases UserTable.mem_set.1 hu with ⟨rfl, -⟩ | ⟨hu, -⟩
      · rw [hid, hname]
        exact h.name user huser
      · exact h.name u hu
    | name msg term eq reply =>
      dsimp only
      rcases UserTable.mem_set.1 hu with ⟨rfl, -⟩ | ⟨hu, hne⟩
      · rw [if_pos rfl, eq]
      · rw [if_neg (Ne.symm hne)]
        exact h.name u hu

theorem Known.start {s : Server} (h : Initial pollfdArrayAppend s) : Known [] s := by
  refine ⟨h.agree, ?_, ?_⟩
  · rw [h.userTable]
    exact fun _ hu => nomatch hu
  · rw [h.userTable]
    exact fun _ hu => nomatch hu

theorem Known.run {host : ByteOrder} {s₀ s : Server} {trace : ClientTrace}
    (h₀ : Initial pollfdArrayAppend s₀) (run : Run (ClientStep host) s₀ trace s) : Known trace s := by
  induction run with
  | start => exact .start h₀
  | turn run step ih => exact ih.step step

/-- A reply is no chat frame. -/
theorem Replies.chatFrames_eq_nil {env : Env} {client : Fd} {text : Bytes} {outs : List Output}
    (h : Replies env client text outs) (hsend : ∀ fd call, (env.send fd call).Accepted) (v : Fd) :
    chatFrames v outs = [] := by
  rcases h with rfl | ⟨msg, -, -, rfl⟩
  · rfl
  · rw [sendall_of_accepted (hsend client)]
    have htype : ((Content.reply text).frame env.host)[4]? = some MessageType.reply.code :=
      getElem?_frame_type _ _
    have hne : some MessageType.reply.code ≠ some MessageType.chat.code := by decide
    simp [chatFrames, htype, hne]

/-- A broadcast writes one frame to `v` for each time it is listed among the receivers. -/
theorem chatFrames_broadcast (v : Fd) (msg : Message) {sendBuf : Bytes}
    (htype : sendBuf[4]? = some MessageType.chat.code) (receivers : List Fd) :
    chatFrames v (receivers.map fun receiver => .write receiver msg sendBuf sendBuf) =
      List.replicate (receivers.count v) sendBuf := by
  induction receivers with
  | nil => rfl
  | cons receiver receivers ih =>
    rw [List.map_cons, List.count_cons]
    by_cases hr : receiver = v
    · have : chatFrames v (.write receiver msg sendBuf sendBuf ::
          receivers.map fun receiver => .write receiver msg sendBuf sendBuf) =
          sendBuf :: chatFrames v (receivers.map fun receiver => .write receiver msg sendBuf sendBuf) := by
        simp [chatFrames, hr, htype]
      rw [this, ih, if_pos (by simpa using hr), List.replicate_succ]
    · have : chatFrames v (.write receiver msg sendBuf sendBuf ::
          receivers.map fun receiver => .write receiver msg sendBuf sendBuf) =
          chatFrames v (receivers.map fun receiver => .write receiver msg sendBuf sendBuf) := by
        simp [chatFrames, hr]
      rw [this, ih, if_neg (by simpa using hr), Nat.add_zero]

/-- One turn writes to `v` what it is to deliver to `v`. -/
theorem Known.chatFrames_eq {host : ByteOrder} {history : ClientTrace}
    {t : Turn Server (Env × ClientAction) (List Output)} (h : Known history t.before)
    (step : ClientStep host t.before t.event t.output t.after)
    (hsend : ∀ fd call, (t.event.1.send fd call).Accepted) (v : Fd) :
    chatFrames v t.output = (delivery v history t).toList.map (Content.frame host) := by
  obtain ⟨s, ⟨env, action⟩, outs, s'⟩ := t
  dsimp only at h step hsend ⊢
  cases action with
  | connect fd =>
    cases step with
    | connect _ _ step =>
      cases step
      rfl
  | disconnect client i =>
    cases step with
    | disconnect _ _ _ step =>
      cases step
      rfl
  | close client =>
    cases step with
    | close _ _ step =>
      cases step with
      | message _ _ _ handled _ =>
        cases handled
        rfl
  | send client msg =>
    obtain ⟨rfl, user, status, hfind, handled, success⟩ := step.handled h.agree h.named
    obtain ⟨huser, rfl⟩ := userTableFind_eq_some.1 hfind
    have hroom := roomOf_eq huser
    cases handled with
    | outside msg room reply =>
      have hnone : delivery v history ⟨s, (env, .send user.id (.chat msg)), outs, s⟩ = none :=
        if_neg fun hcond => hcond.1 (hroom.trans room)
      rw [reply.chatFrames_eq_nil hsend, hnone]
      rfl
    | noMemory => exact absurd rfl success
    | join msg outcome reply =>
      rw [reply.chatFrames_eq_nil hsend]
      rfl
    | name msg term eq reply =>
      rw [reply.chatFrames_eq_nil hsend]
      rfl
    | @broadcast msg out i room outs status inside term content cell id sent =>
      rw [broadcastTo_eq hsend, Prod.mk.injEq] at sent
      have htype : ((Message.chat out).content.frame env.host)[4]? = some MessageType.chat.code :=
        getElem?_frame_type _ _
      have hframes : chatFrames v outs = List.replicate ((s.userTable.inRoom room.id).count v)
          ((Message.chat out).content.frame env.host) := by
        rw [sent.1, chatFrames_broadcast v _ htype, (h.agree.members cell).count_eq]
      rw [hframes]
      -- `v` is listed once when its record names the room, and not at all otherwise.
      have hlisted : v ∈ s.userTable.inRoom room.id ↔ roomOf s v = roomOf s user.id := by
        rw [id, hroom]
        exact mem_inRoom_iff_roomOf inside
      have hinside : roomOf s user.id ≠ invalidRoom := by
        rw [hroom]
        exact inside
      by_cases hv : roomOf s v = roomOf s user.id
      · have hsome : delivery v history ⟨s, (env, .send user.id (.chat msg)), outs, s⟩ =
            some (.chat env.clock (lastName user.id history) (cstr msg.text.toList)) :=
          if_pos ⟨hinside, hv⟩
        rw [hsome, List.count_eq_one_of_mem (UserTable.nodup_inRoom _ _) (hlisted.2 hv), content,
          h.name user huser]
        rfl
      · have hnone : delivery v history ⟨s, (env, .send user.id (.chat msg)), outs, s⟩ = none :=
          if_neg fun hcond => hv hcond.2
        rw [hnone, List.count_eq_zero_of_not_mem fun hmem => hv (hlisted.1 hmem)]
        rfl

/-- What is delivered fits into a frame, and the frame decodes to it. -/
theorem Known.delivery_fits {host : ByteOrder} {history : ClientTrace}
    {t : Turn Server (Env × ClientAction) (List Output)} (h : Known history t.before)
    (step : ClientStep host t.before t.event t.output t.after)
    (hclock : 0 ≤ t.event.1.clock.toInt ∧ t.event.1.clock.toInt < 2 ^ 32) {v : Fd} {c : Content}
    (hc : delivery v history t = some c) : c.Fits ∧ c.TimestampFits := by
  obtain ⟨s, ⟨env, action⟩, outs, s'⟩ := t
  dsimp only at h step hclock
  cases action with
  | connect fd => cases hc
  | disconnect client i => cases hc
  | close client => cases hc
  | send client msg =>
    cases msg with
    | name msg => cases hc
    | join msg => cases hc
    | reply msg => cases hc
    | chat msg =>
      obtain ⟨-, user, status, hfind, -, -⟩ := step.handled h.agree h.named
      obtain ⟨huser, rfl⟩ := userTableFind_eq_some.1 hfind
      have hname := h.named user huser
      unfold delivery at hc
      dsimp only at hc
      split at hc
      · cases hc
        rw [← h.name user huser]
        cases step with
        | send _ _ _ henv frame step =>
          exact ⟨⟨⟨nul_notMem_cstr _, length_cstr_lt hname⟩, nul_notMem_cstr _,
            length_cstr_lt frame.term.2⟩, hclock⟩
      · cases hc

/-! ## Whole runs -/

theorem written_eq {host : ByteOrder} {s₀ s : Server} {trace : ClientTrace}
    (h₀ : Initial pollfdArrayAppend s₀) (run : Run (ClientStep host) s₀ trace s)
    (hsend : ∀ t ∈ trace, ∀ fd call, (t.event.1.send fd call).Accepted)
    (hclock : ∀ t ∈ trace, 0 ≤ t.event.1.clock.toInt ∧ t.event.1.clock.toInt < 2 ^ 32) (v : Fd)
    (pre post : ClientTrace) (htrace : trace = pre ++ post) :
    written v pre.length post = (deliveries v pre post).map (fun d => (d.1, d.2.frame host)) ∧
      ∀ d ∈ deliveries v pre post, d.2.Fits ∧ d.2.TimestampFits := by
  induction post generalizing pre with
  | nil => exact ⟨rfl, fun d hd => nomatch hd⟩
  | cons t post ih =>
    have ht : t ∈ trace := by
      rw [htrace]
      exact List.mem_append_right _ List.mem_cons_self
    obtain ⟨hpre, hstep, -⟩ := run.turn_at htrace
    have hknown := Known.run h₀ hpre
    obtain ⟨hrest, hfits⟩ := ih (pre ++ [t]) (by rw [htrace, List.append_assoc]; rfl)
    constructor
    · rw [List.length_append, List.length_singleton] at hrest
      rw [written, deliveries, List.map_append, hrest, hknown.chatFrames_eq hstep (hsend t ht)]
      cases delivery v pre t <;> rfl
    · intro d hd
      rw [deliveries] at hd
      rcases List.mem_append.1 hd with hd | hd
      · obtain ⟨c, hc, rfl⟩ := List.mem_map.1 hd
        exact hknown.delivery_fits hstep (hclock t ht) (Option.mem_toList.1 hc)
      · exact hfits d hd

/-- The positions of the deliveries to a client increase, from the length of the history on. -/
theorem deliveries_sorted (v : Fd) (history post : ClientTrace) :
    ((deliveries v history post).map Prod.fst).Pairwise (· < ·) ∧
      ∀ k ∈ (deliveries v history post).map Prod.fst, history.length ≤ k := by
  induction post generalizing history with
  | nil => exact ⟨.nil, fun k hk => nomatch hk⟩
  | cons t post ih =>
    obtain ⟨hsorted, hle⟩ := ih (history ++ [t])
    have hlt : ∀ k ∈ (deliveries v (history ++ [t]) post).map Prod.fst, history.length < k := by
      intro k hk
      have := hle k hk
      rw [List.length_append, List.length_singleton] at this
      omega
    rw [deliveries]
    cases delivery v history t with
    | none => exact ⟨hsorted, fun k hk => (hlt k hk).le⟩
    | some c =>
      refine ⟨List.pairwise_cons.2 ⟨hlt, hsorted⟩, fun k hk => ?_⟩
      rcases List.mem_cons.1 hk with rfl | hk
      · exact le_rfl
      · exact (hlt k hk).le

/-- Two members of an increasing list stand in it in their order. -/
theorem pair_sublist {l : List ℕ} (h : l.Pairwise (· < ·)) {i j : ℕ} (hi : i ∈ l) (hj : j ∈ l)
    (hij : i < j) : [i, j].Sublist l := by
  induction l with
  | nil => cases hi
  | cons k l ih =>
    obtain ⟨hk, hl⟩ := List.pairwise_cons.1 h
    rcases List.mem_cons.1 hi with rfl | hi'
    · rcases List.mem_cons.1 hj with rfl | hj'
      · exact absurd hij (lt_irrefl _)
      · exact (List.singleton_sublist.2 hj').cons_cons _
    · rcases List.mem_cons.1 hj with rfl | hj'
      · exact absurd (hk i hi') (not_lt.2 hij.le)
      · exact (ih hl hi' hj').cons k

/-- From any point of a run on, in particular from the connection of `v` on, the chat frames written
to `v` are exactly those of the messages it is to get, in the order of their processing, and each
decodes to what was to be delivered.  Two chats that two clients both get reach them in one order. -/
theorem chat_delivery {host : ByteOrder} {s₀ s : Server} {trace : ClientTrace}
    (h₀ : Initial pollfdArrayAppend s₀) (run : Run (ClientStep host) s₀ trace s)
    (hsend : ∀ t ∈ trace, ∀ fd call, (t.event.1.send fd call).Accepted)
    (hclock : ∀ t ∈ trace, 0 ≤ t.event.1.clock.toInt ∧ t.event.1.clock.toInt < 2 ^ 32) :
    (∀ (v : Fd) (pre post : ClientTrace), trace = pre ++ post →
      written v pre.length post = (deliveries v pre post).map (fun d => (d.1, d.2.frame host)) ∧
      ∀ d ∈ deliveries v pre post, ∀ locals, ∃ m,
        decodeFrame host locals (d.2.frame host) = .ok (some m) ∧ m.content = d.2) ∧
    ∀ (v w : Fd) (i j : ℕ), [i, j].Sublist ((written v 0 trace).map Prod.fst) →
      i ∈ (written w 0 trace).map Prod.fst → j ∈ (written w 0 trace).map Prod.fst →
      [i, j].Sublist ((written w 0 trace).map Prod.fst) := by
  constructor
  · intro v pre post htrace
    obtain ⟨heq, hfits⟩ := written_eq h₀ run hsend hclock v pre post htrace
    refine ⟨heq, fun d hd locals => ?_⟩
    obtain ⟨m, hm, -, hcontent⟩ := decodeFrame_frame host locals (hfits d hd).1 (hfits d hd).2
    exact ⟨m, hm, hcontent⟩
  · have hsorted : ∀ u : Fd, ((written u 0 trace).map Prod.fst).Pairwise (· < ·) := by
      intro u
      have heq := (written_eq h₀ run hsend hclock u [] trace rfl).1
      rw [List.length_nil] at heq
      rw [heq, List.map_map]
      exact (deliveries_sorted u [] trace).1
    intro v w i j hv hi hj
    have hij : i < j := by
      have := (hsorted v).sublist hv
      simpa using this
    exact pair_sublist (hsorted w) hi hj hij

/-- The message `"Hi"` of a client that has filled in neither a time nor a name. -/
def hello : ChatMessage := ⟨0, .ofString [] (by decide), .ofString [72, 105] (by decide)⟩

theorem helloFrame :
    ClientFrame .little (.chat hello) ((Message.chat hello).content.frame .little) :=
  have hterm : (Message.chat hello).Terminated :=
    ⟨(cstr_ofString (by decide) (by decide)).1, (cstr_ofString (by decide) (by decide)).1⟩
  ⟨hterm, by simp [Message.content, Content.type],
    .steady, _, serialize_eq .little .steady _ hterm⟩

set_option maxRecDepth 8000 in
/-- A client that joins room 2 and says `"Hi"` gets one chat frame, that of the third turn. -/
theorem chat_delivery_hello : ∃ s trace, Run (ClientStep .little) (.start 3) trace s ∧
    deliveries 4 [] trace = [(2, .chat 5 anonymous [72, 105])] ∧
    written 4 0 trace = [(2, (Content.chat 5 anonymous [72, 105]).frame .little)] := by
  have connect : Run (ClientStep .little) (.start 3) _ _ :=
    Run.start.turn (.connect (.steady 5) 4 (.connect (.steady 5) 4 (by decide) rfl))
  have join := connect.turn (.send (.steady 5) 4 (.join ⟨2⟩) rfl joinFrame_two
    (.message (.steady 5) 4 _ rfl (by decide) (Env.steady_returned _ _)))
  have chat := join.turn (.send (.steady 5) 4 (.chat hello) rfl helloFrame
    (.message (.steady 5) 4 _ rfl (by decide) (Env.steady_returned _ _)))
  have htext : cstr hello.text.toList = [72, 105] := (cstr_ofString (by decide) (by decide)).2
  rw [← htext]
  refine ⟨_, _, chat, rfl, ?_⟩
  have hdelivered := ((chat_delivery (Server.start_initial 3) chat ?_ ?_).1 4 [] _ rfl).1
  · exact hdelivered
  · intro t ht
    simp only [List.mem_append, List.mem_singleton, List.not_mem_nil, false_or] at ht
    rcases ht with (rfl | rfl) | rfl <;> exact Env.steady_accepts 5
  · intro t ht
    simp only [List.mem_append, List.mem_singleton, List.not_mem_nil, false_or] at ht
    rcases ht with (rfl | rfl) | rfl <;> decide

end ChatRooms
