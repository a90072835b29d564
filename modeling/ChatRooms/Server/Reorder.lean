import ChatRooms.Lib.Keyed
import ChatRooms.Server.Isolation
import ChatRooms.Server.Join

/-!
# The order of requests

While every room has a place for each user that asks for it, what a join or a name message of a user
does to its record and what is replied depends on this record alone: `Request.Effect`.  So requests of
different users can be handled in any order (`requests_reorder`).

* `step_effect` and `effect_step`: a step on a request is its effect on one record of the user table;
* `Space.tail`: what the handled requests have taken of the rooms is what they had asked for;
* `Served.applied`: a list of requests has been applied to the table, in the sense of `Applied`.
-/

namespace ChatRooms

/-! ## The user table as a store -/

theorem userTableFind_set {t : UserTable} {u v : User} {id : Fd} (hu : userTableFind t id = some u)
    (hid : v.id = u.id) : userTableFind (t.set v) = Function.update (userTableFind t) id (some v) := by
  obtain ⟨hmem, rfl⟩ := userTableFind_eq_some.1 hu
  funext fd
  by_cases hfd : fd = u.id
  · rw [hfd, Function.update_self]
    exact userTableFind_eq_some.2 ⟨UserTable.mem_set_self hmem hid, hid⟩
  · rw [Function.update_of_ne hfd]
    ext w
    rw [userTableFind_eq_some, userTableFind_eq_some, UserTable.mem_set, hid]
    constructor
    · rintro ⟨⟨rfl, -⟩ | ⟨hw, -⟩, hwid⟩
      · exact absurd (hwid.symm.trans hid) hfd
      · exact ⟨hw, hwid⟩
    · rintro ⟨hw, hwid⟩
      exact ⟨.inr ⟨hw, hwid ▸ hfd⟩, hwid⟩

/-- A table is its ids in order, and the record of each. -/
theorem UserTable.ext_find {t t' : UserTable} (hids : t'.ids = t.ids)
    (hfind : userTableFind t' = userTableFind t) : t' = t := by
  apply UserTable.ext_users
  have hlen : t'.users.length = t.users.length := by simpa [UserTable.ids] using congrArg List.length hids
  apply List.ext_getElem hlen
  intro i h h'
  have hid : t'.users[i].id = t.users[i].id := by
    have := List.getElem_of_eq hids (i := i) (by simpa [UserTable.ids] using h)
    simpa [UserTable.ids] using this
  have hsome := userTableFind_eq_some.2 ⟨List.getElem_mem h, rfl⟩
  rw [hfind, hid, userTableFind_eq_some.2 ⟨List.getElem_mem h', rfl⟩, Option.some.injEq] at hsome
  exact hsome.symm

/-! ## Requests -/

/-- A message that `recvall` returned from the socket of a client, and what the world outside
contributes to its handling. -/
structure Request where
  client : Fd
  buf : Bytes
  len : ℕ
  env : Env

namespace Request

/-- What the server handles for a request. -/
def input (r : Request) : Env × Event := (r.env, .message r.client (.message r.buf r.len))

/-- A join or a name message. -/
def JoinOrName (r : Request) : Prop := getMessageType r.buf = .ok .join ∨ getMessageType r.buf = .ok .name

/-- The room that a join message asks for. -/
def asked (r : Request) : Option UInt8 :=
  match getMessageType r.buf with
  | .ok .join => r.buf[5]?
  | _ => none

theorem asked_of_join {r : Request} (h : getMessageType r.buf = .ok .join) : r.asked = r.buf[5]? := by
  rw [asked, h]

/-- The same message at another time: the same client and bytes, the same memory and connections, but
other previous contents of the local variables of the handlers.  Only those behind a name that does not
end in its message have to be the same. -/
structure Same (r r' : Request) : Prop where
  client : r'.client = r.client
  buf : r'.buf = r.buf
  host : r'.env.host = r.env.host
  heap : r'.env.heap = r.env.heap
  send : r'.env.send = r.env.send
  leftover : getMessageType r.buf = .ok .name → 0 ∉ stringBytes r.buf → r'.env.locals.name = r.env.locals.name

theorem Same.refl (r : Request) : r.Same r := ⟨rfl, rfl, rfl, rfl, rfl, fun _ _ => rfl⟩

end Request

/-- A permutation of a list of requests, where each is handled in its own time. -/
def Reordered (l l' : List Request) : Prop := ∃ mid, l.Perm mid ∧ List.Forall₂ Request.Same mid l'

theorem Reordered.of_perm {l l' : List Request} (h : l.Perm l') : Reordered l l' :=
  ⟨l', h, List.forall₂_same.2 fun r _ => .refl r⟩

/-- What does not depend on the local variables is the same in both lists, up to the order. -/
theorem Reordered.map_perm {α : Type} {l l' : List Request} (h : Reordered l l') {f : Request → α}
    (hf : ∀ {r r' : Request}, r.Same r' → f r' = f r) : (l.map f).Perm (l'.map f) := by
  obtain ⟨mid, hperm, hsame⟩ := h
  have hmid : mid.map f = l'.map f := by
    clear hperm
    induction hsame with
    | nil => rfl
    | cons hr _ ih => rw [List.map_cons, List.map_cons, ih, hf hr]
  rw [← hmid]
  exact hperm.map f

theorem Reordered.clients {l l' : List Request} (h : Reordered l l') :
    (l.map Request.client).Perm (l'.map Request.client) := h.map_perm Request.Same.client

/-- Requests of one client in the two lists are the same request. -/
theorem Reordered.same {l l' : List Request} (h : Reordered l l') (hdistinct : (l.map Request.client).Nodup)
    {r r' : Request} (hr : r ∈ l) (hr' : r' ∈ l') (hclient : r.client = r'.client) : r.Same r' := by
  obtain ⟨mid, hperm, hsame⟩ := h
  obtain ⟨m, hm, hmr'⟩ : ∃ m ∈ mid, m.Same r' := by
    clear hperm
    induction hsame with
    | nil => cases hr'
    | @cons a b as bs hab _ ih =>
      rcases List.mem_cons.1 hr' with rfl | hr'
      · exact ⟨a, List.mem_cons_self, hab⟩
      · obtain ⟨m, hm, hmr'⟩ := ih hr'
        exact ⟨m, List.mem_cons_of_mem _ hm, hmr'⟩
  rwa [List.inj_on_of_nodup_map hdistinct hr (hperm.mem_iff.2 hm) (hclient.trans hmr'.client)]

/-! ## What a request does to its user -/

/-- What the kernel gets of some outputs: the receiver, the frame, and what is taken of it. -/
def onWire (outs : List Output) : List (Fd × Bytes × Bytes) :=
  outs.filterMap fun out => match out with
    | .write fd _ sendBuf sent => some (fd, sendBuf, sent)
    | _ => none

/-- Every send of the frames returned. -/
def WireReturned (env : Env) (wire : List (Fd × Bytes × Bytes)) : Prop :=
  ∀ w ∈ wire, (sendEnd (env.send w.1) w.2.1 w.2.1.length).Returns

theorem wireReturned_iff {env : Env} {outs : List Output} : WireReturned env (onWire outs) ↔ Returned env outs := by
  constructor
  · intro h out hout
    cases out with
    | write fd msg sendBuf sent => exact h (fd, sendBuf, sent) (List.mem_filterMap.2 ⟨_, hout, rfl⟩)
    | truncated => exact trivial
    | invalidType => exact trivial
  · intro h w hw
    obtain ⟨out, hout, hsome⟩ := List.mem_filterMap.1 hw
    cases out with
    | write fd msg sendBuf sent =>
      cases hsome
      exact h _ hout
    | truncated => cases hsome
    | invalidType => cases hsome

/-- What the kernel gets of a reply: nothing when there is no memory for its frame. -/
def replyOnWire (env : Env) (client : Fd) (text : Bytes) : List (Fd × Bytes × Bytes) :=
  let frame := (Content.reply text).frame env.host
  if env.heap.serves frame.length then [(client, frame, (sendall (env.send client) frame frame.length).1)]
  else []

theorem onWire_reply (env : Env) (client : Fd) {fmt text : Bytes} {args : List FormatArg}
    (htext : format fmt args = .ok text) (h0 : 0 ∉ text) (hlt : text.length < replySizeLimit) :
    ∃ outs, sendReplyMessage env client fmt args = .ok outs ∧ onWire outs = replyOnWire env client text := by
  obtain ⟨msg, -, -, hsend⟩ := sendReplyMessage_eq env client htext h0 hlt
  refine ⟨_, hsend, ?_⟩
  unfold replyOnWire
  dsimp only
  split
  · rfl
  · rfl

/-- The answer to a user that asks for room `n` when no room is full. -/
def spaciousAnswer (user : User) (n : UInt8) : JoinAnswer :=
  if n = 0 ∨ numRooms < n.toNat then .missing
  else if user.room = n then .already
  else .joined

theorem dictatedAnswer_of_space {table : UserTable} (user : User) {n : UInt8}
    (hfree : n ≠ 0 → n.toNat ≤ numRooms → (table.inRoom n).length < maxUsersPerRoom) :
    dictatedAnswer table user n = spaciousAnswer user n := by
  unfold dictatedAnswer spaciousAnswer
  by_cases habsent : n = 0 ∨ numRooms < n.toNat
  · rw [if_pos habsent, if_pos habsent]
  · have hexists := habsent
    rw [not_or, not_lt] at hexists
    rw [if_neg habsent, if_neg habsent, if_neg (hfree hexists.1 hexists.2).ne]

/-- The user enters a room only when it has asked for it. -/
theorem room_spaciousAnswer {user : User} {n m : UInt8}
    (h : ((spaciousAnswer user n).record user n).room = m) : user.room = m ∨ n = m := by
  unfold spaciousAnswer at h
  split at h
  · exact .inl h
  · split at h
    · exact .inl h
    · exact .inr h

/-- What a request does to the record of its user, and the reply, when no room is full. -/
inductive Request.Effect (r : Request) (user : User) : User → List (Fd × Bytes × Bytes) → Prop
  | join {n : UInt8} (type : getMessageType r.buf = .ok .join) (asked : r.buf[5]? = some n) :
      Effect r user ((spaciousAnswer user n).record user n)
        (replyOnWire r.env user.id (roomText (spaciousAnswer user n).format n))
  | name {msg : NameMessage} {name : CArray UInt8 nameSizeLimit} (type : getMessageType r.buf = .ok .name)
      (decoded : nameMessageDeserialize r.buf r.env.locals.name = .ok msg)
      (stored : strcpy user.name msg.name = .ok name) :
      Effect r user { user with name }
        (replyOnWire r.env user.id (ascii "set name to " ++ cstr msg.name.toList))

/-- The effect of a request whose reply has been sent. -/
structure Request.Answered (r : Request) (user user' : User) (wire : List (Fd × Bytes × Bytes)) : Prop where
  effect : r.Effect user user' wire
  returned : WireReturned r.env wire

/-- Whatever is sent to the client, the call returns. -/
def Request.Answerable (r : Request) : Prop :=
  ∀ frame : Bytes, (sendEnd (r.env.send r.client) frame frame.length).Returns

theorem Request.Answerable.wireReturned {r : Request} (h : r.Answerable) (text : Bytes) :
    WireReturned r.env (replyOnWire r.env r.client text) := by
  intro w hw
  unfold replyOnWire at hw
  dsimp only at hw
  split at hw
  · rw [List.mem_singleton.1 hw]
    exact h _
  · cases hw

/-- The name is the same string whatever is left over behind it. -/
theorem decoded_same {r r' : Request} (h : r.Same r') (type : getMessageType r.buf = .ok .name) {msg : NameMessage}
    (decoded : nameMessageDeserialize r.buf r.env.locals.name = .ok msg) (hterm : Terminated msg.name) :
    ∃ msg', nameMessageDeserialize r'.buf r'.env.locals.name = .ok msg' ∧ Terminated msg'.name ∧
      cstr msg'.name.toList = cstr msg.name.toList := by
  rw [h.buf]
  by_cases hnul : 0 ∈ stringBytes r.buf
  · have hbounds : StringInBounds nameSizeLimit r.buf := by
      obtain ⟨name, hname, -⟩ := Checked.bind_eq_ok.1 decoded
      exact stringMessageDeserialize_safe_iff.1 ⟨name, hname⟩
    obtain ⟨msg', hmsg'⟩ := exists_decoded r'.env.locals.name hbounds
    obtain ⟨hterm', hcstr'⟩ := cstr_of_decoded hnul hmsg'
    exact ⟨msg', hmsg', hterm', hcstr'.trans (cstr_of_decoded hnul decoded).2.symm⟩
  · rw [h.leftover type hnul]
    exact ⟨msg, decoded, hterm, rfl⟩

namespace Request.Effect

variable {r r' : Request} {user u₁ u₂ : User} {o₁ o₂ : List (Fd × Bytes × Bytes)}

theorem id (h : r.Effect user u₁ o₁) : u₁.id = user.id := by
  cases h with
  | @join n _ _ => cases spaciousAnswer user n <;> rfl
  | name => rfl

theorem room (h : r.Effect user u₁ o₁) {m : UInt8} (hroom : u₁.room = m) :
    user.room = m ∨ r.asked = some m := by
  cases h with
  | join type asked =>
    rw [Request.asked_of_join type, asked]
    rcases room_spaciousAnswer hroom with h | rfl
    · exact .inl h
    · exact .inr rfl
  | name => exact .inl hroom

theorem unique (h₁ : r.Effect user u₁ o₁) (h₂ : r.Effect user u₂ o₂) : u₁ = u₂ ∧ o₁ = o₂ := by
  cases h₁ with
  | join type asked =>
    cases h₂ with
    | join _ asked' =>
      rw [asked, Option.some.injEq] at asked'
      subst asked'
      exact ⟨rfl, rfl⟩
    | name type' => cases type.symm.trans type'
  | name type decoded stored =>
    cases h₂ with
    | join type' => cases type.symm.trans type'
    | name _ decoded' stored' =>
      rw [decoded, Except.ok.injEq] at decoded'
      subst decoded'
      rw [stored, Except.ok.injEq] at stored'
      subst stored'
      exact ⟨rfl, rfl⟩

/-- The effect does not depend on what the local variables held. -/
theorem same (hsame : r.Same r') (h : r.Effect user u₁ o₁) : r'.Effect user u₁ o₁ := by
  have hreply (text : Bytes) : replyOnWire r'.env user.id text = replyOnWire r.env user.id text := by
    rw [replyOnWire, hsame.host, hsame.heap, hsame.send]
    rfl
  cases h with
  | join type asked =>
    rw [← hreply]
    exact .join (hsame.buf ▸ type) (hsame.buf ▸ asked)
  | @name msg name type decoded stored =>
    have hterm : Terminated msg.name := (strcpy_eq_ok.1 stored).1
    obtain ⟨msg', decoded', hterm', hcstr⟩ := decoded_same hsame type decoded hterm
    rw [← hreply, ← hcstr]
    refine .name (hsame.buf ▸ type) decoded' ?_
    rw [strcpy_congr user.name hterm' hterm hcstr]
    exact stored

theorem wireReturned (h : r.Effect user u₁ o₁) (hid : user.id = r.client) (hanswerable : r.Answerable) :
    WireReturned r.env o₁ := by
  cases h with
  | join =>
    rw [hid]
    exact hanswerable.wireReturned _
  | name =>
    rw [hid]
    exact hanswerable.wireReturned _

end Request.Effect

theorem Request.Answered.same {r r' : Request} {user u : User} {o : List (Fd × Bytes × Bytes)}
    (hsame : r.Same r') (h : r.Answered user u o) : r'.Answered user u o := by
  refine ⟨h.effect.same hsame, fun w hw => ?_⟩
  rw [hsame.send]
  exact h.returned w hw

theorem sameEffects {l l' : List Request} (h : Reordered l l') (hdistinct : (l.map Request.client).Nodup) :
    SameEffects Request.client Request.Answered l l' := by
  intro r hr r' hr' hclient v v₁ v₂ o₁ o₂ h₁ h₂
  exact (h₁.same (h.same hdistinct hr hr' hclient)).effect.unique h₂.effect

/-! ## Steps -/

/-- There is a place in the room that the request asks for. -/
def HasPlace (table : UserTable) (r : Request) : Prop :=
  ∀ n, r.asked = some n → n ≠ 0 → n.toNat ≤ numRooms → (table.inRoom n).length < maxUsersPerRoom

/-- A join message is answered as if no room were full. -/
theorem handleJoinMessage_effect_of_place {s : Server} {r : Request} (h : Agree s.rooms s.userTable)
    (hplace : HasPlace s.userTable r) (type : getMessageType r.buf = .ok .join) {user : User}
    (hu : user ∈ s.userTable.users) {n : UInt8} (asked : r.buf[5]? = some n) :
    ∃ rooms' outs, handleJoinMessage r.env r.buf s.rooms user =
        .ok (rooms', (spaciousAnswer user n).record user n, outs) ∧
      onWire outs = replyOnWire r.env user.id (roomText (spaciousAnswer user n).format n) := by
  obtain ⟨rooms', outs, hspec, hsend, -, -⟩ := handleJoinMessage_dictated r.env h hu asked
  rw [dictatedAnswer_of_space user (hplace n (by rw [Request.asked_of_join type, asked]))] at hspec hsend
  obtain ⟨htext, h0, hlt⟩ := format_room (spaciousAnswer user n).format_mem n
  obtain ⟨outs', hsend', hwire⟩ := onWire_reply r.env user.id htext h0 hlt
  rw [hsend, Except.ok.injEq] at hsend'
  subst hsend'
  exact ⟨rooms', outs, hspec, hwire⟩

/-- A name message stores the name that it decodes to. -/
theorem handleNameMessage_stored {env : Env} {buf : Bytes} {user : User} {msg : NameMessage}
    {name : CArray UInt8 nameSizeLimit} (decoded : nameMessageDeserialize buf env.locals.name = .ok msg)
    (stored : strcpy user.name msg.name = .ok name) :
    ∃ outs, handleNameMessage env buf user = .ok ({ user with name }, outs) ∧
      onWire outs = replyOnWire env user.id (ascii "set name to " ++ cstr msg.name.toList) := by
  have hterm : Terminated msg.name := (strcpy_eq_ok.1 stored).1
  obtain ⟨htext, h0, hlt⟩ := format_name hterm
  obtain ⟨outs, hsend, hwire⟩ := onWire_reply env user.id htext h0 hlt
  refine ⟨outs, ?_, hwire⟩
  simp only [handleNameMessage, decoded, Checked.ok_bind, Checked.pure_eq_ok, stored, hsend]

theorem step_effect {s s' : Server} {r : Request} {outs : List Output} (h : Agree s.rooms s.userTable)
    (kind : r.JoinOrName) (hplace : HasPlace s.userTable r) (step : Step pollfdArrayAppend s r.input outs s') :
    ∃ u u', userTableFind s.userTable r.client = some u ∧ r.Answered u u' (onWire outs) ∧
      s'.userTable = s.userTable.set u' := by
  change Step pollfdArrayAppend s (r.env, .message r.client (.message r.buf r.len)) outs s' at step
  cases step with
  | message _ _ _ handled success returned =>
  have hreturned := wireReturned_iff.2 returned
  rcases handleClientMessage_dispatched handled with ⟨-, -, rfl⟩ | ⟨user, hfind, hdispatched⟩
  · exact absurd rfl success
  obtain ⟨hu, -⟩ := userTableFind_eq_some.1 hfind
  cases hdispatched with
  | chat type =>
    rcases kind with hkind | hkind
    · cases hkind.symm.trans type
    · cases hkind.symm.trans type
  | join type hjoin =>
    obtain ⟨n, asked⟩ := exists_roomId hjoin
    obtain ⟨rooms', outs', hspec, hwire⟩ := handleJoinMessage_effect_of_place h hplace type hu asked
    rw [hspec, Except.ok.injEq, Prod.mk.injEq, Prod.mk.injEq] at hjoin
    obtain ⟨rfl, rfl, rfl⟩ := hjoin
    refine ⟨user, _, hfind, ⟨?_, hreturned⟩, rfl⟩
    rw [hwire]
    exact .join type asked
  | name type hname =>
    obtain ⟨msg, decoded, hcopy⟩ := Checked.bind_eq_ok.1 hname
    obtain ⟨name, stored, -⟩ := Checked.bind_eq_ok.1 hcopy
    obtain ⟨outs', hspec, hwire⟩ := handleNameMessage_stored decoded stored
    rw [hspec, Except.ok.injEq, Prod.mk.injEq] at hname
    obtain ⟨rfl, rfl⟩ := hname
    refine ⟨user, _, hfind, ⟨?_, hreturned⟩, rfl⟩
    rw [hwire]
    exact .name type decoded stored
  | invalid => exact absurd rfl success

theorem effect_step {s : Server} {r : Request} {u u' : User} {o : List (Fd × Bytes × Bytes)}
    (h : Agree s.rooms s.userTable) (hplace : HasPlace s.userTable r)
    (hfind : userTableFind s.userTable r.client = some u) (answered : r.Answered u u' o) :
    ∃ outs s', Step pollfdArrayAppend s r.input outs s' ∧ onWire outs = o ∧
      s'.userTable = s.userTable.set u' := by
  obtain ⟨hu, -⟩ := userTableFind_eq_some.1 hfind
  obtain ⟨effect, returned⟩ := answered
  have hstep {s' : Server} {outs : List Output} (hwire : onWire outs = o)
      (handled : handleClientMessage r.env r.client (.message r.buf r.len) s = .ok (some (s', outs, 1))) :
      Step pollfdArrayAppend s r.input outs s' :=
    .message _ _ _ handled (by decide) (wireReturned_iff.1 (hwire.symm ▸ returned))
  simp only [handleClientMessage, hfind] at hstep
  cases effect with
  | @join n type asked =>
    obtain ⟨rooms', outs, hspec, hwire⟩ := handleJoinMessage_effect_of_place h hplace type hu asked
    refine ⟨outs, { s with rooms := rooms', userTable := s.userTable.set ((spaciousAnswer u n).record u n) },
      hstep hwire ?_, hwire, rfl⟩
    rw [type, Checked.ok_bind]
    dsimp only
    rw [hspec]
    rfl
  | @name msg name type decoded stored =>
    obtain ⟨outs, hspec, hwire⟩ := handleNameMessage_stored decoded stored
    refine ⟨outs, { s with userTable := s.userTable.set { u with name } }, hstep hwire ?_, hwire, rfl⟩
    rw [type, Checked.ok_bind]
    dsimp only
    rw [hspec]
    rfl

/-! ## Space -/

/-- Every room has a place for each user that asks for it, besides the ones it has. -/
def Space (table : UserTable) (l : List Request) : Prop :=
  ∀ n : UInt8, n ≠ 0 → n.toNat ≤ numRooms →
    (table.inRoom n).length + l.countP (fun r => r.asked = some n) ≤ maxUsersPerRoom

theorem UserTable.length_inRoom_set {t : UserTable} {u v : User} (hu : u ∈ t.users) (hid : v.id = u.id)
    (n : UInt8) : ((t.set v).inRoom n).length ≤
      (t.inRoom n).length + if v.room = n ∧ u.room ≠ n then 1 else 0 := by
  obtain ⟨rest, hself, hset, -⟩ := UserTable.inRoom_set hu
  rw [(hself n).length_eq, (hset v hid n).length_eq]
  by_cases hn : v.room = n
  · by_cases hn' : u.room = n
    · simp [hn, hn']
    · simp [hn, hn']
  · rw [if_neg hn]
    split
    · exact (Nat.le_succ _).trans (Nat.le_add_right _ _)
    · exact Nat.le_add_right _ _

namespace Space

variable {table : UserTable} {r : Request} {l : List Request}

theorem head (h : Space table (r :: l)) : HasPlace table r := by
  intro n hn h0 hle
  have := h n h0 hle
  rw [List.countP_cons_of_pos (by simpa using hn)] at this
  omega

/-- Who has entered a room had asked for it. -/
theorem tail (h : Space table (r :: l)) {u u' : User} {o : List (Fd × Bytes × Bytes)} (hu : u ∈ table.users)
    (heffect : r.Effect u u' o) : Space (table.set u') l := by
  intro n h0 hle
  have hspace := h n h0 hle
  have hlen := UserTable.length_inRoom_set hu heffect.id n
  rw [List.countP_cons] at hspace
  split at hlen
  · rename_i hentered
    have hasked := (heffect.room hentered.1).resolve_left hentered.2
    rw [if_pos (by simpa using hasked)] at hspace
    omega
  · omega

end Space

/-! ## Lists of requests -/

/-- The server handles requests one after the other, and stays in its loop.  Each client is listed with
what the kernel got of the reply to it. -/
inductive Served : Server → List Request → List (Fd × List (Fd × Bytes × Bytes)) → Server → Prop
  | done {s : Server} : Served s [] [] s
  | next {s s₁ s' : Server} {r : Request} {l : List Request} {outs : List Output}
      {replies : List (Fd × List (Fd × Bytes × Bytes))} (step : Step pollfdArrayAppend s r.input outs s₁)
      (rest : Served s₁ l replies s') : Served s (r :: l) ((r.client, onWire outs) :: replies) s'

theorem Reordered.space {table : UserTable} {l l' : List Request} (h : Reordered l l') (hspace : Space table l) :
    Space table l' := by
  intro n h0 hle
  have hasked : (l.map Request.asked).Perm (l'.map Request.asked) := by
    apply h.map_perm
    intro r r' hsame
    rw [Request.asked, Request.asked, hsame.buf]
  have hcount := hasked.countP_eq (fun room => decide (room = some n))
  rw [List.countP_map, List.countP_map] at hcount
  have := hspace n h0 hle
  change (table.inRoom n).length + l'.countP ((fun room => decide (room = some n)) ∘ Request.asked) ≤ _
  rwa [← hcount]

theorem Reordered.kinds {l l' : List Request} (h : Reordered l l') (hkinds : ∀ r ∈ l, r.JoinOrName) :
    ∀ r ∈ l', r.JoinOrName := by
  have hbufs : (l.map Request.buf).Perm (l'.map Request.buf) := h.map_perm Request.Same.buf
  intro r' hr'
  obtain ⟨r, hr, hbuf⟩ := List.mem_map.1 (hbufs.mem_iff.2 (List.mem_map_of_mem hr'))
  rw [Request.JoinOrName, ← hbuf]
  exact hkinds r hr

namespace Served

variable {s s' : Server} {l : List Request} {replies : List (Fd × List (Fd × Bytes × Bytes))}

theorem run (h : Served s l replies s') : ∃ trace, Run (Step pollfdArrayAppend) s trace s' ∧
    trace.map Turn.event = l.map Request.input := by
  induction h with
  | done => exact ⟨[], .start, rfl⟩
  | next step _ ih =>
    obtain ⟨trace, hrun, hevents⟩ := ih
    refine ⟨_, (Run.start.turn step).append hrun, ?_⟩
    rw [List.nil_append, List.map_append, hevents]
    rfl

theorem agree (h : Served s l replies s') (hagree : Agree s.rooms s.userTable) : Agree s'.rooms s'.userTable := by
  obtain ⟨trace, hrun, -⟩ := h.run
  exact hrun.invariant (fun s => Agree s.rooms s.userTable) hagree fun _ _ step => step.agree

/-- Requests of different clients, with a place for each, are applied to the user table. -/
theorem applied (h : Served s l replies s') (hagree : Agree s.rooms s.userTable)
    (hkinds : ∀ r ∈ l, r.JoinOrName) (hdistinct : (l.map Request.client).Nodup)
    (hspace : Space s.userTable l) :
    Applied Request.client Request.Answered (userTableFind s.userTable) l replies (userTableFind s'.userTable) ∧
      s'.userTable.ids = s.userTable.ids := by
  induction h with
  | done => exact ⟨.nil, rfl⟩
  | @next s s₁ s' r l outs replies step rest ih =>
    rw [List.map_cons, List.nodup_cons] at hdistinct
    obtain ⟨u, u', hfind, hanswered, htable⟩ :=
      step_effect hagree (hkinds r List.mem_cons_self) hspace.head step
    have heffect := hanswered.effect
    have hu := (userTableFind_eq_some.1 hfind).1
    obtain ⟨happlied, hids⟩ := ih (step.agree hagree) (fun r' hr' => hkinds r' (List.mem_cons_of_mem _ hr'))
      hdistinct.2 (htable ▸ hspace.tail hu heffect)
    rw [htable] at happlied hids
    rw [userTableFind_set hfind heffect.id] at happlied
    exact ⟨.cons hfind hanswered hdistinct.1 happlied, hids.trans (UserTable.ids_set _ _)⟩

end Served

/-- Requests are handled when each is answered with the record that its user has at first. -/
theorem exists_served {s : Server} {l : List Request} (hagree : Agree s.rooms s.userTable)
    (hdistinct : (l.map Request.client).Nodup) (hspace : Space s.userTable l)
    (heffects : ∀ r ∈ l, ∃ u u' o, userTableFind s.userTable r.client = some u ∧ r.Answered u u' o) :
    ∃ replies s', Served s l replies s' := by
  induction l generalizing s with
  | nil => exact ⟨[], s, .done⟩
  | cons r l ih =>
    rw [List.map_cons, List.nodup_cons] at hdistinct
    obtain ⟨u, u', o, hfind, hanswered⟩ := heffects r List.mem_cons_self
    obtain ⟨outs, s₁, step, -, htable⟩ := effect_step hagree hspace.head hfind hanswered
    have heffect := hanswered.effect
    have hu := (userTableFind_eq_some.1 hfind).1
    obtain ⟨replies, s', rest⟩ := ih (step.agree hagree) hdistinct.2 (htable ▸ hspace.tail hu heffect) (by
      intro r' hr'
      obtain ⟨w, w', o', hfind', hanswered'⟩ := heffects r' (List.mem_cons_of_mem _ hr')
      have hne : r'.client ≠ r.client := fun he => hdistinct.1 (he ▸ List.mem_map_of_mem hr')
      refine ⟨w, w', o', ?_, hanswered'⟩
      rw [htable, userTableFind_set hfind heffect.id, Function.update_of_ne hne]
      exact hfind')
    exact ⟨_, s', .next step rest⟩

/-- A request that can be decoded has an effect on whatever record its user has. -/
theorem exists_effect {r : Request} (kind : r.JoinOrName) (safe : SafeRequest r.buf) (u : User) :
    ∃ u' o, r.Effect u u' o := by
  obtain ⟨hlen, hfields⟩ := safe
  have htype := getMessageType_of_length hlen
  rcases kind with type | type
  · rw [type, Except.ok.injEq] at htype
    rw [← htype] at hfields
    have hfive : 5 < r.buf.length := hfields
    exact ⟨_, _, .join type (List.getElem?_eq_getElem hfive)⟩
  · rw [type, Except.ok.injEq] at htype
    rw [← htype] at hfields
    obtain ⟨msg, decoded⟩ := exists_decoded r.env.locals.name hfields.1
    have hterm := (cstr_of_decoded hfields.2 decoded).1
    obtain ⟨name, stored, -⟩ := strcpy_of_lt u.name hterm (length_cstr_lt hterm)
    exact ⟨_, _, .name type decoded stored⟩

/-! ## Any order -/

/-- The rooms are the same but for the order of their users. -/
def SameMembers (rooms rooms' : RoomArray) : Prop :=
  List.Forall₂ (fun room room' : Room => room'.id = room.id ∧ room'.members.Perm room.members)
    rooms.rooms rooms'.rooms

theorem Agree.sameMembers {rooms rooms' : RoomArray} {table : UserTable} (h : Agree rooms table)
    (h' : Agree rooms' table) : SameMembers rooms rooms' := by
  apply List.forall₂_iff_get.2
  refine ⟨h.length.trans h'.length.symm, fun i hi hi' => ?_⟩
  have hroom := List.getElem?_eq_getElem hi
  have hroom' := List.getElem?_eq_getElem hi'
  have hid := h.id_eq h' hroom hroom'
  refine ⟨hid, (h'.members hroom').trans ?_⟩
  rw [hid]
  exact (h.members hroom).symm

theorem Agree.space {rooms : RoomArray} {table : UserTable} (h : Agree rooms table) {l : List Request}
    (hspace : ∀ room ∈ rooms.rooms,
      room.members.length + l.countP (fun r => r.asked = some room.id) ≤ maxUsersPerRoom) : Space table l := by
  intro n h0 hle
  obtain ⟨i, room, -, hi, -, rfl⟩ := h.getRoom h0 hle
  rw [← (h.members hi).length_eq]
  exact hspace room (List.mem_of_getElem? hi)

/-- In every reachable state, join and name messages of different users can be handled in any order, as
long as every room has a place for each user that asks for it.  Messages of connected users that can be
decoded are handled when the sends of the replies return; and when messages are handled in one order, they
are in any other, and all orders lead to the same user table, to rooms with the same users, and to the same reply
to each user. -/
theorem requests_reorder {s₀ s : Server} {trace : List (Turn Server (Env × Event) (List Output))}
    (h₀ : Initial pollfdArrayAppend s₀) (run : Run (Step pollfdArrayAppend) s₀ trace s) {l : List Request}
    (kinds : ∀ r ∈ l, r.JoinOrName) (distinct : (l.map Request.client).Nodup)
    (space : ∀ room ∈ s.rooms.rooms,
      room.members.length + l.countP (fun r => r.asked = some room.id) ≤ maxUsersPerRoom) :
    ((∀ r ∈ l, r.client ∈ s.userTable.ids ∧ SafeRequest r.buf ∧ r.Answerable) → ∃ replies s₁, Served s l replies s₁) ∧
    ∀ l', Reordered l l' → ∀ replies s₁, Served s l replies s₁ →
      (∃ replies' s₂, Served s l' replies' s₂) ∧
      ∀ replies' s₂, Served s l' replies' s₂ →
        s₂.userTable = s₁.userTable ∧ SameMembers s₁.rooms s₂.rooms ∧ replies'.Perm replies := by
  have hagree := run.agree h₀
  have hspace := hagree.space space
  refine ⟨fun safe => exists_served hagree distinct hspace fun r hr => ?_,
    fun l' horder replies s₁ hserved => ?_⟩
  · obtain ⟨hclient, hsafe, hanswerable⟩ := safe r hr
    obtain ⟨u, hfind⟩ := Option.ne_none_iff_exists'.1 (mt userTableFind_eq_none.1 (not_not.2 hclient))
    obtain ⟨u', o, heffect⟩ := exists_effect (kinds r hr) hsafe u
    exact ⟨u, u', o, hfind, heffect, heffect.wireReturned (userTableFind_eq_some.1 hfind).2 hanswerable⟩
  have hdistinct' := horder.clients.nodup_iff.1 distinct
  obtain ⟨happlied, hids⟩ := hserved.applied hagree kinds distinct hspace
  have hsame := sameEffects horder distinct
  refine ⟨exists_served hagree hdistinct' (horder.space hspace) fun r' hr' => ?_, fun replies' s₂ hserved' => ?_⟩
  · obtain ⟨r, hr, hclient⟩ := List.mem_map.1 (horder.clients.mem_iff.2 (List.mem_map_of_mem hr'))
    obtain ⟨u, u', o, hfind, hanswered, -, -⟩ := happlied.touched r hr
    have hrr' := horder.same distinct hr hr' hclient
    exact ⟨u, u', o, hclient ▸ hfind, hanswered.same hrr'⟩
  · obtain ⟨happlied', hids'⟩ := hserved'.applied hagree (horder.kinds kinds) hdistinct' (horder.space hspace)
    have htable : s₂.userTable = s₁.userTable :=
      UserTable.ext_find (hids'.trans hids.symm) (happlied.store_unique happlied' horder.clients hsame).symm
    have hagree₁ := hserved.agree hagree
    have hagree₂ := hserved'.agree hagree
    rw [htable] at hagree₂
    exact ⟨htable, hagree₁.sameMembers hagree₂, (happlied.answers_perm happlied' horder.clients distinct hsame).symm⟩

/-- Two clients are connected, the first in room 1, and both ask for room 2. -/
theorem requests_reorder_two : ∃ s trace replies replies' s₁ s₂,
    Run (Step pollfdArrayAppend) (.start 3) trace s ∧
    Served s [⟨4, [0, 0, 0, 6, 3, 2], 6, .steady 0⟩, ⟨5, [0, 0, 0, 6, 3, 2], 6, .steady 0⟩] replies s₁ ∧
    Served s [⟨5, [0, 0, 0, 6, 3, 2], 6, .steady 0⟩, ⟨4, [0, 0, 0, 6, 3, 2], 6, .steady 0⟩] replies' s₂ ∧
    s₂.userTable = s₁.userTable ∧ SameMembers s₁.rooms s₂.rooms ∧ replies'.Perm replies := by
  have run : Run (Step pollfdArrayAppend) (.start 3) _ _ :=
    ((Run.start.turn (.connect (.steady 0) 4 (by decide) rfl)).turn
      (.connect (.steady 0) 5 (by decide) rfl)).turn
      (.message (.steady 0) 4 (.message [0, 0, 0, 6, 3, 1] 6) rfl (by decide) (Env.steady_returned _ _))
  have safe : SafeRequest [0, 0, 0, 6, 3, 2] := ⟨by decide, Nat.le_refl 6⟩
  have answerable (fd : Fd) (frame : Bytes) :
      (sendEnd ((Env.steady 0).send fd) frame frame.length).Returns := by
    rw [sendEnd_of_accepted (Env.steady_accepts 0 fd)]
    exact trivial
  obtain ⟨hserved, hany⟩ := requests_reorder (Server.start_initial 3) run
    (l := [⟨4, [0, 0, 0, 6, 3, 2], 6, .steady 0⟩, ⟨5, [0, 0, 0, 6, 3, 2], 6, .steady 0⟩])
    (List.forall_mem_cons.2 ⟨.inl rfl, List.forall_mem_cons.2 ⟨.inl rfl, List.forall_mem_nil _⟩⟩)
    (by decide) (by decide)
  obtain ⟨replies, s₁, hfirst⟩ := hserved (List.forall_mem_cons.2 ⟨⟨by decide, safe, answerable 4⟩,
    List.forall_mem_cons.2 ⟨⟨by decide, safe, answerable 5⟩, List.forall_mem_nil _⟩⟩)
  obtain ⟨⟨replies', s₂, hsecond⟩, hsame⟩ := hany _ (.of_perm (.swap _ _ _)) replies s₁ hfirst
  exact ⟨_, _, replies, replies', s₁, s₂, run, hfirst, hsecond, hsame replies' s₂ hsecond⟩

end ChatRooms
